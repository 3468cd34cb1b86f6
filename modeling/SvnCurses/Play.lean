import SvnCurses.Session

namespace SvnCurses.Play

open Cpp ProgramState Interaction KeyEvent

/-- Keys and outputs to answer with, in this order. -/
abbrev Script := List (Int ⊕ Str)

def respond : Script → (q : Call) → Option (Answer q × Script)
  | .inl c :: script, .getch _ _ => some (c, script)
  | .inr out :: script, .popen _ _ => some (some out, script)
  | _, _ => none

/-- The run that a script gives, up to the question it has no answer for. -/
def play (t : Terminal) (rounds : Nat) (script : Script) : Prog State × History :=
  replayLoop respond keyEvent (fun s => s.isRunning) rounds (main t) script []

/-- What the program writes in that run. -/
def written (t : Terminal) (rounds : Nat) (script : Script) : List (History × Output) :=
  saidLoop respond keyEvent (fun s => s.isRunning) rounds (main t) script []

def waiting : Prog State → Option Call
  | .ask q _ => some q
  | _ => none

/-- The keys among some exchanges. -/
def keysOf (tr : History) : List Int :=
  tr.filterMap fun
    | ⟨.getch _ _, c⟩ => some c
    | ⟨.popen _ _, _⟩ => none

/-- A terminal whose pad has two lines. -/
def narrowTerminal : Terminal := ⟨10, 12, by decide, by decide⟩

/-- One with room for longer lines. -/
def wideTerminal : Terminal := ⟨12, 24, by decide, by decide⟩

section Reaches

variable (env : ∀ q, Answer q → Prop) (t : Terminal) (rounds : Nat) (script : Script)

theorem play_reaches (henv : ∀ e ∈ (play t rounds script).2, env e.1 e.2) :
    Session env t (play t rounds script).2 (play t rounds script).1 := by
  have hany : Session (fun _ _ => True) t (play t rounds script).2 (play t rounds script).1 :=
    replayLoop_reaches (fun _ _ _ _ _ => trivial) rounds .start
  exact reaches_restrict hany henv

theorem play_asks (P : Call → Bool) (henv : ∀ e ∈ (play t rounds script).2, env e.1 e.2)
    (hask : (waiting (play t rounds script).1).any P = true) :
    ∃ q next, Session env t (play t rounds script).2 (.ask q next) ∧ P q = true := by
  have hr := play_reaches env t rounds script henv
  cases hp : (play t rounds script).1 with
  | ask q next =>
    rw [hp] at hr hask
    exact ⟨q, next, hr, hask⟩
  | done a | stop f | say o next =>
    rw [hp] at hask
    cases hask

def readsKey (P : State → Bool) : Call → Bool
  | .getch .topLevel s => P s
  | _ => false

/-- A script that brings the program to a key in a state with the property. -/
theorem play_reads (P : History → State → Prop) [∀ tr s, Decidable (P tr s)]
    (henv : ∀ e ∈ (play t rounds script).2, env e.1 e.2)
    (hask : (waiting (play t rounds script).1).any
      (readsKey fun s => P (play t rounds script).2 s) = true) :
    ∃ tr s next, Session env t tr (.ask (.getch .topLevel s) next) ∧ P tr s := by
  obtain ⟨q, next, hr, hq⟩ := play_asks env t rounds script _ henv hask
  cases q with
  | popen cmd s => cases hq
  | getch site s =>
    cases site with
    | topLevel => exact ⟨_, s, next, hr, of_decide_eq_true hq⟩
    | _ => cases hq

def runsCommand (cmd : Str) (P : State → Bool) : Call → Bool
  | .popen cmd' s => cmd' = cmd && P s
  | .getch _ _ => false

/-- A script that brings the program to a command in a state with the property. -/
theorem play_runs (cmd : Str) (P : History → State → Prop) [∀ tr s, Decidable (P tr s)]
    (henv : ∀ e ∈ (play t rounds script).2, env e.1 e.2)
    (hask : (waiting (play t rounds script).1).any
      (runsCommand cmd fun s => P (play t rounds script).2 s) = true) :
    ∃ tr s next, Session env t tr (.ask (.popen cmd s) next) ∧ P tr s := by
  obtain ⟨q, next, hr, hq⟩ := play_asks env t rounds script _ henv hask
  cases q with
  | getch site s => cases hq
  | popen cmd' s =>
    simp only [runsCommand, Bool.and_eq_true, decide_eq_true_eq] at hq
    obtain ⟨rfl, hP⟩ := hq
    exact ⟨_, s, next, hr, hP⟩

def drawsPad (P : State → State → List Draw.Drawn → Bool) : Output → Bool
  | .pad m s' rows => P m s' rows
  | _ => false

/-- A script in which the pad is drawn with the property. -/
theorem play_draws (P : State → State → List Draw.Drawn → Prop)
    [∀ m s' rows, Decidable (P m s' rows)]
    (h : ∃ x ∈ written t rounds script, (∀ e ∈ x.1, env e.1 e.2) ∧
      drawsPad (fun m s' rows => P m s' rows) x.2 = true) :
    ∃ tr m s' rows next, Session env t tr (.say (.pad m s' rows) next) ∧ P m s' rows := by
  obtain ⟨⟨tr, o⟩, hx, henv, hP⟩ := h
  have hany : ∃ next, Session (fun _ _ => True) t tr (.say o next) :=
    saidLoop_reaches (fun _ _ _ _ _ => trivial) rounds .start _ hx
  obtain ⟨next, hr⟩ := hany
  cases o with
  | pad m s' rows => exact ⟨tr, m, s', rows, next, reaches_restrict hr henv, of_decide_eq_true hP⟩
  | _ => cases hP

end Reaches

end SvnCurses.Play
