import SvnCurses.Reach

namespace SvnCurses.WorkingCopy

open Cpp ProgramState Draw Interaction KeyEvent Round Rows Session Play
open Worklist Display Console Watching Shown Reach

/-- A working copy that nothing else changes: what `svn st` prints of it, and what
another command makes of it. -/
structure Copy (W : Type) where
  prints : W → Str
  runs : Str → W → W

variable {W : Type} {wc : Copy W} {w : W}

def Copy.see (wc : Copy W) (w : W) : Sigma Answer → W
  | ⟨.popen cmd _, some _⟩ => if cmd = statusCommand then w else wc.runs cmd w
  | _ => w

/-- The working copy after some exchanges. -/
def Copy.after (wc : Copy W) (w : W) (tr : History) : W := tr.foldl wc.see w

/-- An `svn st` prints what there is to print. -/
def Copy.Prints (wc : Copy W) (w : W) : Sigma Answer → Prop
  | ⟨.popen cmd _, some out⟩ => cmd = statusCommand → out = wc.prints w
  | _ => True

instance : ∀ e, Decidable (wc.Prints w e)
  | ⟨.popen cmd _, some out⟩ => inferInstanceAs (Decidable (cmd = statusCommand → out = _))
  | ⟨.popen _ _, none⟩ | ⟨.getch _ _, _⟩ => .isTrue trivial

/-- Nothing else has changed the working copy: each `svn st` has printed what the
exchanges before it have made. -/
def Keeps (wc : Copy W) : W → History → Prop
  | _, [] => True
  | w, e :: tr => wc.Prints w e ∧ Keeps wc (wc.see w e) tr

instance decidableKeeps : ∀ w tr, Decidable (Keeps wc w tr)
  | _, [] => .isTrue trivial
  | w, e :: tr => @instDecidableAnd _ _ inferInstance (decidableKeeps (wc.see w e) tr)

variable {env : ∀ q, Answer q → Prop} {t : Terminal} {tr past : History} {q : Call} {s m : State}
  {out : Str} {e : Sigma Answer}

theorem after_concat : wc.after w (tr ++ [e]) = wc.see (wc.after w tr) e := by
  rw [Copy.after, List.foldl_append]
  rfl

theorem keeps_concat : Keeps wc w (tr ++ [e]) ↔ Keeps wc w tr ∧ wc.Prints (wc.after w tr) e := by
  induction tr generalizing w with
  | nil => simp [Keeps, Copy.after]
  | cons x tr ih =>
    rw [List.cons_append, Keeps, Keeps, ih, and_assoc]
    rfl

/-- While no other command has run since the lines were read, they are those that
`svn st` would print now. -/
theorem lines_kept (hkeeps : Keeps wc w tr) (hfresh : outdated tr = false)
    (hmem : ⟨.popen statusCommand m, some out⟩ ∈ tr) :
    (boardOf t tr).lines = linesOf (wc.prints (wc.after w tr)) := by
  induction tr using List.reverseRecOn with
  | nil => exact absurd hmem List.not_mem_nil
  | append_singleton tr e ih =>
    obtain ⟨hkeeps, hprints⟩ := keeps_concat.mp hkeeps
    have hrest : e ≠ ⟨.popen statusCommand m, some out⟩ → outdated tr = false →
        (boardOf t tr).lines = linesOf (wc.prints (wc.after w tr)) := by
      intro hne hbefore
      apply ih hkeeps hbefore
      obtain hmem | hmem := List.mem_append.mp hmem
      · exact hmem
      · exact absurd (List.mem_singleton.mp hmem).symm hne
    rw [outdated_concat] at hfresh
    rw [boardOf_concat, after_concat]
    obtain ⟨q, a⟩ := e
    cases q with
    | getch site s =>
      rw [see_getch_lines]
      exact hrest (by simp) hfresh
    | popen cmd m' =>
      cases a with
      | none => exact hrest (by simp) hfresh
      | some out' =>
        -- only `svn st` leaves the lines up to date
        obtain rfl : cmd = statusCommand := by simpa [seeOutdated] using hfresh
        have hout : out' = wc.prints (wc.after w tr) := hprints rfl
        exact congrArg linesOf hout

/-- What is asked on the grounds of the lines is asked in the state in which the
round began. -/
theorem asked_state {next : Answer q → Prog State} (h : Session env t tr (.ask q next))
    (hq : actsOn q = true) : ∃ past r, Session env t past (.done q.state) ∧ tr = past ++ r := by
  obtain hw | ⟨past, m, r, hp, hs, rfl⟩ := in_round h
  · cases (within_safe main_safe hw).1.2
    cases hq
  · cases hs.1 with
    | status => cases hq
    | _ => exact ⟨past, _, hp, rfl⟩

/-- Whenever the program acts on its lines, they are what `svn st` would print of
the working copy as it is, and what is selected is among them. -/
theorem lines_are_current {next : Answer q → Prog State} (h : Session env t tr (.ask q next))
    (hq : actsOn q = true) (hkeeps : Keeps wc w tr) :
    q.state.allStatusItems = linesOf (wc.prints (wc.after w tr)) ∧
      ∀ x ∈ q.state.selectedItems,
        ∃ line ∈ linesOf (wc.prints (wc.after w tr)), padded t.maxX line = x := by
  obtain ⟨scr, hd⟩ := session_displays h
  obtain ⟨past, r, hp, rfl⟩ := asked_state h hq
  obtain ⟨_, _, hlast, _⟩ := (session_kept hp).output
  have hmem := List.mem_append_left r (lastRefresh_mem hlast)
  have hnow : (boardOf t (past ++ r)).lines = linesOf (wc.prints (wc.after w (past ++ r))) :=
    lines_kept hkeeps ((displays_asks hd).fresh hq) hmem
  have hlines : q.state.allStatusItems = linesOf (wc.prints (wc.after w (past ++ r))) := by
    have hb := board_asked h
    rw [Represents] at hb
    rw [hb, ← hnow]
    cases q with
    | getch site s => rfl
    | popen cmd s =>
      simp only [boardAt]
      split <;> rfl
  refine ⟨hlines, fun x hx => ?_⟩
  have hboard := board_done hp
  have hsel : x ∈ (boardOf t past).selection.items := by
    rw [Represents] at hboard
    rw [hboard] at hx
    exact hx
  obtain ⟨line, hline, hpadded⟩ := selection_offers hp x hsel
  refine ⟨line, ?_, hpadded⟩
  have hall : q.state.allStatusItems = (boardOf t past).lines := by rw [hboard]; rfl
  rw [← hlines, hall]
  exact hline

/-- A working copy with one file, which can be added. -/
def oneFile : Copy Bool where
  prints added := (if added then "A       a\n" else "?       a\n").toList
  runs cmd added := added || cmd = "svn add  a   ".toList

theorem lines_are_current_added : ∃ tr s next,
    Session (fun _ _ => True) narrowTerminal tr (.ask (.getch .topLevel s) next) ∧
      keysOf tr = [key ' ', key 'a', key 'y', key ' '] ∧ oneFile.after false tr = true ∧
      s.allStatusItems = linesOf (oneFile.prints (oneFile.after false tr)) ∧
      ∀ x ∈ s.selectedItems, ∃ line ∈ linesOf (oneFile.prints (oneFile.after false tr)),
        padded narrowTerminal.maxX line = x := by
  obtain ⟨tr, s, next, h, hkeys, hadded, hkeeps⟩ := play_reads (fun _ _ => True) narrowTerminal 4
    [.inr "?       a\n".toList, .inl (key ' '), .inl (key 'a'), .inl (key 'y'), .inr [],
      .inr "A       a\n".toList, .inl (key ' ')]
    (fun tr _ => keysOf tr = [key ' ', key 'a', key 'y', key ' '] ∧
      oneFile.after false tr = true ∧ Keeps oneFile false tr) (fun _ _ => trivial)
    (by decide +kernel)
  exact ⟨tr, s, next, h, hkeys, hadded, lines_are_current h rfl hkeeps⟩

end SvnCurses.WorkingCopy
