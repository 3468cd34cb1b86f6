import SvnCurses.Ending

namespace SvnCurses.Loop

open Cpp ProgramState Draw Interaction KeyEvent Round Session Play Observer
open Worklist Display Painted Watching Shown Ending

variable {env : ∀ q, Answer q → Prop} {t : Terminal} {tr past later : History} {p : Prog State}
  {s m : State} {scr : Screen} {c : Int}

section Idle

/-- The keys that the program knows at the top level. -/
def keys : List Int :=
  ['q', 'Q', 'j', 'k', 'G', 'g', 's', 'a', 'r', 'u', ' ', '.'].map key

end Idle

section Quit

/-- A key that ends the program, read at the top level. -/
inductive Quits : Sigma Answer → State → Prop
  | q (s : State) : Quits ⟨.getch .topLevel s, key 'q'⟩ s
  | Q (s : State) : Quits ⟨.getch .topLevel s, key 'Q'⟩ s

theorem keyEvent_quit {q : Call} {a : Answer q} {next : Answer q → Prog State}
    (h : Session env t tr (.ask q next)) (hq : Quits ⟨q, a⟩ s) :
    next a = .done { s with isRunning := false } := by
  cases hq with
  | q =>
    obtain ⟨_, _, hkey⟩ := session_top h
    cases hkey
    rfl
  | Q =>
    obtain ⟨_, _, hkey⟩ := session_top h
    cases hkey
    rfl

/-- Nothing comes after a key that ends the program. -/
theorem quit_end (h : Session env t tr p) {e : Sigma Answer} (he : Quits e s)
    (htr : tr = past ++ e :: later) : later = [] ∧ p = .done { s with isRunning := false } := by
  induction h generalizing later with
  | start => simp at htr
  | say _ ih =>
    obtain ⟨_, hp⟩ := ih htr
    cases hp
  | @answer tr q next a h ha ih =>
    obtain rfl | ⟨rest, x, rfl⟩ := List.eq_nil_or_concat later
    · obtain ⟨rfl, hx⟩ := List.append_inj' htr rfl
      cases hx
      exact ⟨rfl, keyEvent_quit h he⟩
    · have hsplit : tr ++ [⟨q, a⟩] = (past ++ e :: rest) ++ [x] := by simpa using htr
      obtain ⟨_, hp⟩ := ih (List.append_inj' hsplit rfl).1
      cases hp
  | again _ hs ih =>
    obtain ⟨_, hp⟩ := ih htr
    cases hp
    cases hs

/-- The board stops running only for such a key. -/
theorem running_quits (h : (boardOf t tr).running = false) :
    ∃ past e s later, tr = past ++ e :: later ∧ Quits e s := by
  induction tr using List.reverseRecOn with
  | nil => cases h
  | append_singleton tr e ih =>
    have hbefore : (boardOf t tr).running = false →
        ∃ past x s later, tr ++ [e] = past ++ x :: later ∧ Quits x s := by
      intro hr
      obtain ⟨past, x, s, later, rfl, hx⟩ := ih hr
      exact ⟨past, x, s, later ++ [e], by simp, hx⟩
    obtain ⟨q, a⟩ := e
    rw [boardOf_concat] at h
    cases q with
    | popen cmd m =>
      cases a with
      | none => exact hbefore h
      | some out =>
        simp only [Board.see] at h
        split at h <;> exact hbefore h
    | getch site m =>
      cases site with
      | topLevel =>
        by_cases hq : a = key 'q' ∨ a = key 'Q'
        · refine ⟨tr, _, m, [], rfl, ?_⟩
          obtain rfl | rfl := hq
          · exact .q m
          · exact .Q m
        · apply hbefore
          simp only [Board.see, Board.press] at h
          rw [if_neg hq, Board.last_frame, Board.toggled_frame] at h
          split_ifs at h <;> exact h
      | secondG =>
        simp only [Board.see] at h
        split at h <;> exact hbefore h
      | _ => exact hbefore h

theorem done_quits (h : Session env t tr (.done s)) (hs : s.isRunning = false) :
    ∃ past e m, tr = past ++ [e] ∧ Quits e m := by
  have hb := board_done h
  rw [Represents] at hb
  rw [hb] at hs
  obtain ⟨past, e, m, later, htr, he⟩ := running_quits hs
  obtain ⟨rfl, _⟩ := quit_end h he htr
  exact ⟨past, e, m, htr, he⟩

/-- A key that ends the program is the last one, and no run that ends as it should
ends without it. -/
theorem quit_ends (h : Session env t tr p) :
    (∀ past e m later, tr = past ++ e :: later → Quits e m →
      later = [] ∧ p = .done { m with isRunning := false }) ∧
    ∀ s, p = .done s → s.isRunning = false → ∃ past e m, tr = past ++ [e] ∧ Quits e m := by
  constructor
  · intro past e m later htr he
    exact quit_end h he htr
  · rintro s rfl hs
    exact done_quits h hs

theorem quit_ends_selected : ∃ tr s, Session (fun _ _ => True) narrowTerminal tr (.done s) ∧
    s.isRunning = false ∧ s.selectedItems ≠ [] ∧ ∃ past e m, tr = past ++ [e] ∧ Quits e m := by
  obtain ⟨tr, s, next, h, hsel⟩ := play_reads (fun _ _ => True) narrowTerminal 2
    [.inr "? a\n? b\n".toList, .inl (key ' ')] (fun _ s => s.selectedItems ≠ [])
    (fun _ _ => trivial) (by decide +kernel)
  obtain ⟨_, _, hkey⟩ := session_top h
  cases hkey
  have hquit := Reaches.answer (a := key 'q') h trivial
  exact ⟨_, { s with isRunning := false }, hquit, rfl, hsel, (quit_ends hquit).2 _ rfl rfl⟩

/-- What `main` returns, once a run has come to an end that is defined. -/
def exitStatus : Prog State → Option Int
  | .done s => if s.isRunning then none else some 0
  | .stop .noPad => some "ERROR: Couldn't create pad\n".toList.length
  | .stop (.fault (.thrown _)) => some 1
  | _ => none

theorem exitStatus_cases {status : Int} (h : exitStatus p = some status) :
    (∃ s, p = .done s ∧ s.isRunning = false ∧ status = 0) ∨ (p = .stop .noPad ∧ status = 27) ∨
      ∃ e, p = .stop (.fault (.thrown e)) ∧ status = 1 := by
  cases p with
  | done s =>
    simp only [exitStatus] at h
    split at h
    · cases h
    · next hs =>
      cases h
      exact .inl ⟨s, rfl, by simpa using hs, rfl⟩
  | stop f =>
    cases f with
    | noPad =>
      cases h
      exact .inr (.inl ⟨rfl, by decide⟩)
    | fault fault =>
      cases fault with
      | thrown e =>
        cases h
        exact .inr (.inr ⟨e, rfl, rfl⟩)
      | undefined u => cases h
  | say o next | ask q next => cases h

/-- Why `main` returns 1. -/
theorem thrown_explained {e : Exception} (h : Explained t tr (.fault (.thrown e))) :
    (∃ past cmd m, tr = past ++ [⟨.popen cmd m, none⟩]) ∨
      (∃ line ∈ (boardOf t tr).lines.drop (boardOf t tr).window.top, t.maxX < line.length) ∨
      t.maxX < 8 ∧ (boardOf t tr).selection.items ≠ [] := by
  cases h with
  | @popen past cmd m => exact .inl ⟨past, cmd, m, rfl⟩
  | wide hline hw => exact .inr (.inl ⟨_, hline, hw⟩)
  | slim hx hs => exact .inr (.inr ⟨hx, hs⟩)

/-- The exit status tells how a run ended. -/
theorem exit_status (h : Session IntSized t tr p) :
    (exitStatus p = some 0 ↔ ∃ past e m, tr = past ++ [e] ∧ Quits e m) ∧
    (exitStatus p = some 27 → ¬ Usable t ∧ tr = []) ∧
    (exitStatus p = some 1 → (∃ past cmd m, tr = past ++ [⟨.popen cmd m, none⟩]) ∨
      (∃ line ∈ (boardOf t tr).lines.drop (boardOf t tr).window.top, t.maxX < line.length) ∨
      t.maxX < 8 ∧ (boardOf t tr).selection.items ≠ []) ∧
    ∀ status, exitStatus p = some status → status = 0 ∨ status = 1 ∨ status = 27 := by
  refine ⟨⟨fun he => ?_, ?_⟩, fun he => ?_, fun he => ?_, fun status he => ?_⟩
  · obtain ⟨s, rfl, hs, _⟩ | ⟨_, hne⟩ | ⟨_, _, hne⟩ := exitStatus_cases he
    · exact done_quits h hs
    · cases hne
    · cases hne
  · rintro ⟨past, e, m, htr, he⟩
    obtain ⟨_, rfl⟩ := quit_end h he htr
    rfl
  · obtain ⟨_, _, _, hne⟩ | ⟨rfl, _⟩ | ⟨_, _, hne⟩ := exitStatus_cases he
    · cases hne
    · cases stops_cause h with
      | pad ht => exact ⟨ht, rfl⟩
    · cases hne
  · obtain ⟨_, _, _, hne⟩ | ⟨_, hne⟩ | ⟨e, rfl, _⟩ := exitStatus_cases he
    · cases hne
    · cases hne
    · exact thrown_explained (stops_cause h)
  · obtain ⟨_, _, _, rfl⟩ | ⟨_, rfl⟩ | ⟨_, _, rfl⟩ := exitStatus_cases he
    · exact .inl rfl
    · exact .inr (.inr rfl)
    · exact .inr (.inl rfl)

theorem exit_status_quit : ∃ tr p, Session IntSized narrowTerminal tr p ∧
    exitStatus p = some 0 ∧ ∃ past e m, tr = past ++ [e] ∧ Quits e m := by
  have h := play_reaches IntSized narrowTerminal 2
    [.inr "? a\n? b\n".toList, .inl (key 'j'), .inl (key 'Q')] (by decide +kernel)
  exact ⟨_, _, h, by decide +kernel, (exit_status h).1.mp (by decide +kernel)⟩

end Quit

end SvnCurses.Loop
