import SvnCurses.Play

namespace SvnCurses.Consent

open Cpp ProgramState Interaction KeyEvent Round Session Play

/-- The exchanges that allow a command: its key and the answers to its prompts,
all read in one state, with nothing between them. -/
inductive Allows (s : State) : History → Str → Prop
  | add : Allows s [⟨.getch .topLevel s, key 'a'⟩, ⟨.getch .addPrompt s, key 'y'⟩]
      ("svn add ".toList ++ joinedStr s)
  | update : Allows s [⟨.getch .topLevel s, key 'u'⟩, ⟨.getch .updatePrompt s, key 'y'⟩]
      "svn up".toList
  | keep : Allows s [⟨.getch .topLevel s, key 'r'⟩, ⟨.getch .deletePrompt s, key 'y'⟩,
      ⟨.getch .keepLocalPrompt s, key 'y'⟩] ("svn rm --keep-local ".toList ++ joinedStr s)
  | delete {k} (hk : k ≠ key 'y') (hkey : k ≠ ERR) : Allows s [⟨.getch .topLevel s, key 'r'⟩,
      ⟨.getch .deletePrompt s, key 'y'⟩, ⟨.getch .keepLocalPrompt s, k⟩]
      ("svn rm ".toList ++ joinedStr s)

/-- The question about the local files is not left to its timeout. -/
def KeepLocalAnswered : ∀ q, Answer q → Prop
  | .getch .keepLocalPrompt _, k => k ≠ ERR
  | _, _ => True

instance : ∀ q a, Decidable (KeepLocalAnswered q a)
  | .getch .keepLocalPrompt _, k => inferInstanceAs (Decidable (k ≠ ERR))
  | .getch .topLevel _, _ | .getch .secondG _, _ | .getch .addPrompt _, _
  | .getch .deletePrompt _, _ | .getch .updatePrompt _, _ | .getch .updateResult _, _
  | .popen _ _, _ => .isTrue trivial

variable {t : Terminal} {tr past later : History} {p : Prog State} {cmd : Str} {s : State}

theorem asked_consent {next : Option Str → Prog State}
    (h : Session KeepLocalAnswered t tr (.ask (.popen cmd s) next)) (hst : cmd ≠ statusCommand) :
    ∃ before asked, tr = before ++ asked ∧ Allows s asked cmd := by
  have hall := reaches_allowed h
  obtain hw | ⟨before, m, r, _, hs, rfl⟩ := in_round h
  · cases (within_safe main_safe hw).1.2
    exact absurd rfl hst
  · refine ⟨before, r, rfl, ?_⟩
    cases hs.1 with
    | add => exact .add
    | update => exact .update
    | status => exact absurd rfl hst
    | @remove k =>
      by_cases hk : k = key 'y'
      · subst hk
        rw [removeCommand_keep]
        exact .keep
      · rw [removeCommand_delete s hk]
        have hanswer : KeepLocalAnswered (.getch .keepLocalPrompt s) k :=
          hall ⟨.getch .keepLocalPrompt s, k⟩
            (List.mem_append_right _ (.tail _ (.tail _ (.head _))))
        exact .delete hk hanswer

theorem trace_consent {out : Option Str} (h : Session KeepLocalAnswered t tr p)
    (htr : tr = past ++ ⟨.popen cmd s, out⟩ :: later) (hst : cmd ≠ statusCommand) :
    ∃ before asked, past = before ++ asked ∧ Allows s asked cmd := by
  obtain ⟨_, next, hasked⟩ := reaches_exchange h htr
  exact asked_consent hasked hst

theorem allows_keys {asked : History} (h : Allows s asked cmd) :
    ∀ e ∈ asked, ∃ site, e.1 = .getch site s := by
  cases h <;> simp

theorem suffix_of_not_mem {α : Type} {xs ys before asked : List α} {e : α}
    (h : xs ++ e :: ys = before ++ asked) (he : e ∉ asked) : ∃ rest, ys = rest ++ asked := by
  obtain ⟨mid, rfl, hmid⟩ | ⟨mid, rfl, rfl⟩ := List.append_eq_append_iff.mp h
  · cases mid with
    | nil => exact absurd (by rw [← List.nil_append asked, ← hmid]; simp) he
    | cons d mid =>
      obtain ⟨rfl, rfl⟩ := List.cons.inj hmid
      exact ⟨mid, rfl⟩
  · simp at he

/-- Every command but `svn st`, in any run, directly follows its own key and its
own answers, which no other command follows. -/
theorem commands_consented (h : Session KeepLocalAnswered t tr p) :
    (∀ past cmd s out later, tr = past ++ ⟨.popen cmd s, out⟩ :: later → cmd ≠ statusCommand →
      ∃ before asked, past = before ++ asked ∧ Allows s asked cmd) ∧
    (∀ cmd s next, p = .ask (.popen cmd s) next → cmd ≠ statusCommand →
      ∃ before asked, tr = before ++ asked ∧ Allows s asked cmd) ∧
    ∀ past cmd s out between cmd' s' out' later,
      tr = past ++ ⟨.popen cmd s, out⟩ :: (between ++ ⟨.popen cmd' s', out'⟩ :: later) →
        cmd' ≠ statusCommand →
        ∃ before asked, between = before ++ asked ∧ Allows s' asked cmd' := by
  refine ⟨fun past cmd s out later htr hst => trace_consent h htr hst, ?_, ?_⟩
  · rintro cmd s next rfl hst
    exact asked_consent h hst
  · intro past cmd s out between cmd' s' out' later htr hst
    rw [← List.cons_append, ← List.append_assoc] at htr
    obtain ⟨before, asked, hpast, hallows⟩ := trace_consent h htr hst
    have hother : ⟨.popen cmd s, out⟩ ∉ asked := by
      intro hmem
      obtain ⟨site, hsite⟩ := allows_keys hallows _ hmem
      cases hsite
    obtain ⟨rest, hrest⟩ := suffix_of_not_mem hpast hother
    exact ⟨rest, asked, hrest, hallows⟩

theorem commands_consented_delete : ∃ tr s next,
    Session KeepLocalAnswered narrowTerminal tr (.ask (.popen "svn rm  a   ".toList s) next) ∧
      keysOf tr = [key ' ', key 'r', key 'y', key 'n'] ∧
      ∃ before asked, tr = before ++ asked ∧ Allows s asked "svn rm  a   ".toList := by
  obtain ⟨tr, s, next, h, hkeys⟩ := play_runs KeepLocalAnswered narrowTerminal 2
    [.inr "?       a\n".toList, .inl (key ' '), .inl (key 'r'), .inl (key 'y'), .inl (key 'n')]
    "svn rm  a   ".toList (fun tr _ => keysOf tr = [key ' ', key 'r', key 'y', key 'n'])
    (by decide +kernel) (by decide +kernel)
  exact ⟨tr, s, next, h, hkeys, (commands_consented h).2.1 _ _ _ rfl (by decide)⟩

/-- The exchange is a timeout at the question about the local files. -/
def timesOut : Sigma Answer → Bool
  | ⟨.getch .keepLocalPrompt _, k⟩ => k = ERR
  | _ => false

/-- No answer to the question about the local files deletes them. -/
theorem command_unasked : ∃ tr s next,
    Session (fun _ _ => True) narrowTerminal tr (.ask (.popen "svn rm  a   ".toList s) next) ∧
      keysOf tr = [key ' ', key 'r', key 'y', ERR] ∧ tr.getLast?.any timesOut = true :=
  play_runs (fun _ _ => True) narrowTerminal 2
    [.inr "?       a\n".toList, .inl (key ' '), .inl (key 'r'), .inl (key 'y'), .inl ERR]
    "svn rm  a   ".toList
    (fun tr _ => keysOf tr = [key ' ', key 'r', key 'y', ERR] ∧ tr.getLast?.any timesOut = true)
    (fun _ _ => trivial) (by decide +kernel)

end SvnCurses.Consent
