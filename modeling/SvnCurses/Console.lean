import SvnCurses.Display
import SvnCurses.RefreshText

namespace SvnCurses.Console

open Cpp ProgramState Draw Interaction KeyEvent Round Session Worklist Display

section Spec

/-- What stays in the bottom window between two rounds. -/
inductive Caption
  | none
  | hidden
  | updated (result : Str)

def Caption.see (c : Caption) : Sigma Answer → Caption
  | ⟨.getch .topLevel _, k⟩ =>
      if k = key 'a' ∨ k = key 'r' then .none else if k = key '.' then .hidden else c
  | ⟨.getch .updatePrompt _, k⟩ => if k = key 'y' then c else .none
  | ⟨.popen cmd _, some out⟩ => if cmd = updateCommand then .updated (execResult out) else c
  | _ => c

def captionOf (tr : History) : Caption := tr.foldl Caption.see .none

def Caption.notes (hidden : Bool) : Caption → List Note
  | .none => []
  | .hidden => [.plain ("HIDDEN = ".toList ++ if hidden then "true".toList else "false".toList)]
  | .updated result => [.plain result]

/-- The bottom window between two rounds. -/
def idle (t : Terminal) (tr : History) : List Note := (captionOf tr).notes (boardOf t tr).hidden

def question (text : String) : Note := .moved (bottomWindowSize - 1) 0 text.toList

def addQuestion : Note := question "Add selected items? (y/n?)"

/-- An answer to the question of `a` that is not a `y`. -/
def declines : Sigma Answer → Bool
  | ⟨.getch .addPrompt _, k⟩ => k ≠ key 'y'
  | _ => false

def declined (tr : History) : Bool := tr.getLast?.any declines

/-- The bottom window while the program waits. -/
def notesAt (t : Terminal) (tr : History) : Call → List Note
  | .getch .addPrompt _ => [addQuestion]
  | .getch .deletePrompt _ => [question "Delete selected items? (y/n?)"]
  | .getch .keepLocalPrompt _ => [question "Keep local files? (y/n?)"]
  | .getch .updatePrompt _ => idle t tr ++
      [question "Bring changes from the repository into the working copy? (y/n?)"]
  | .getch .topLevel _ | .getch .secondG _ | .getch .updateResult _ => idle t tr
  | .popen cmd _ =>
      if cmd = statusCommand then if declined tr then [addQuestion] else idle t tr else []

def seeDelay (delay : Int) : Sigma Answer → Int
  | ⟨.getch .addPrompt _, _⟩ | ⟨.getch .deletePrompt _, _⟩ => 12000
  | ⟨.getch .updatePrompt _, _⟩ => 8000
  | _ => delay

/-- The delay of the last question that has one of its own. -/
def delayOf (tr : History) : Int := tr.foldl seeDelay 1000

def delayAt (tr : History) : Call → Int
  | .getch .addPrompt _ | .getch .deletePrompt _ => 12000
  | .getch .updatePrompt _ => 8000
  | _ => delayOf tr

/-- The board of the state in which the program waits. -/
def boardAt (t : Terminal) (tr : History) : Call → Board
  | .getch _ _ => boardOf t tr
  | .popen cmd _ => if cmd = statusCommand then (boardOf t tr).loading else boardOf t tr
/-- Whether another command has run since the lines were read. -/
def seeOutdated (outdated : Bool) : Sigma Answer → Bool
  | ⟨.popen cmd _, some _⟩ => cmd ≠ statusCommand
  | _ => outdated

def outdated (tr : History) : Bool := tr.foldl seeOutdated false

/-- What is asked on the grounds of the lines: keys, except for the one after the
output of `svn up`, and commands other than `svn st`. -/
def actsOn : Call → Bool
  | .getch .updateResult _ => false
  | .getch _ _ => true
  | .popen cmd _ => cmd ≠ statusCommand

end Spec

section Exchanges

variable {t : Terminal} {tr : History} {b : Board} {s m : State} {scr : Screen}

theorem idle_concat (t : Terminal) (tr : History) (e : Sigma Answer) :
    idle t (tr ++ [e]) = ((captionOf tr).see e).notes ((boardOf t tr).see t e).hidden := by
  rw [idle, boardOf_concat, captionOf, List.foldl_append]
  rfl

theorem declined_concat (tr : History) (e : Sigma Answer) : declined (tr ++ [e]) = declines e := by
  simp [declined]

theorem delayOf_concat (tr : History) (e : Sigma Answer) :
    delayOf (tr ++ [e]) = seeDelay (delayOf tr) e := by
  rw [delayOf, List.foldl_append]
  rfl

theorem outdated_concat (tr : History) (e : Sigma Answer) :
    outdated (tr ++ [e]) = seeOutdated (outdated tr) e := by
  rw [outdated, List.foldl_append]
  rfl

theorem see_command {cmd : Str} (hcmd : cmd ≠ statusCommand) (b : Board) (m : State) (out : Str) :
    b.see t ⟨.popen cmd m, some out⟩ = b := if_neg hcmd

/-- Keys do not change the lines. -/
theorem see_getch_lines (site : Site) (s : State) (c : Int) :
    (b.see t ⟨.getch site s, c⟩).lines = b.lines := by
  cases site with
  | topLevel =>
    simp only [Board.see, Board.press]
    rw [Board.last_frame, Board.toggled_frame]
    split_ifs <;> rfl
  | secondG =>
    simp only [Board.see]
    split <;> rfl
  | _ => rfl

theorem caption_command {cmd : Str} (hcmd : cmd ≠ updateCommand) (c : Caption) (m : State)
    (out : Str) : c.see ⟨.popen cmd m, some out⟩ = c := if_neg hcmd

/-- A refresh leaves the bottom window and the delay as they are. -/
theorem idle_status (t : Terminal) (tr : History) (m : State) (out : Str) :
    idle t (tr ++ [⟨.popen statusCommand m, some out⟩]) = idle t tr := idle_concat t tr _

theorem delayOf_status (tr : History) (m : State) (out : Str) :
    delayOf (tr ++ [⟨.popen statusCommand m, some out⟩]) = delayOf tr := delayOf_concat tr _

theorem outdated_status (tr : History) (m : State) (out : Str) :
    outdated (tr ++ [⟨.popen statusCommand m, some out⟩]) = false := outdated_concat tr _

theorem addCommand_ne (s : State) :
    addCommand s ≠ statusCommand ∧ addCommand s ≠ updateCommand := by
  have hstart := addCommand_start s
  constructor
  · intro h
    rw [h, statusCommand_start] at hstart
    revert hstart
    decide
  · intro h
    rw [h] at hstart
    revert hstart
    decide

theorem removeCommand_ne (s : State) (k : Int) :
    removeCommand s k ≠ statusCommand ∧ removeCommand s k ≠ updateCommand := by
  have hstart := removeCommand_start s k
  constructor
  · intro h
    rw [h, statusCommand_start] at hstart
    revert hstart
    decide
  · intro h
    rw [h] at hstart
    revert hstart
    decide

/-- The bottom window has no line to show the message of a refresh on. -/
theorem heard_message (ht : Usable t) (hY : s.maxY = t.maxY) (text : Str) :
    scr.heard t (.mvwprintw (s.maxY - 1) 0 text) = scr := by
  have hlines := ht.1
  have hout : ¬ t.maxY - 1 < bottomWindowSize := by
    simp only [bottomWindowSize] at *
    omega
  rw [hY]
  simp [Screen.heard, wmove, hout]

theorem heard_question (ht : Usable t) (text : Str) :
    scr.heard t (.mvwprintw (bottomWindowSize - 1) 0 text) =
      { scr with notes := scr.notes ++ [.moved (bottomWindowSize - 1) 0 text] } := by
  have hx := ht.2
  have hmove : wmove bottomWindowSize t.maxX (bottomWindowSize - 1) 0 = true := by
    simpa [wmove, bottomWindowSize] using hx
  rw [Screen.heard, if_pos hmove]

/-- An exchange that has nothing to do with the bottom window, the delay and the lines. -/
structure Quiet (t : Terminal) (tr : History) (e : Sigma Answer) : Prop where
  idle : idle t (tr ++ [e]) = idle t tr
  delay : delayOf (tr ++ [e]) = delayOf tr
  outdated : outdated (tr ++ [e]) = outdated tr

theorem quiet_key {c : Int} (ha : c ≠ key 'a') (hr : c ≠ key 'r') (hd : c ≠ key '.')
    (hb : ((boardOf t tr).press t c).hidden = (boardOf t tr).hidden) :
    Quiet t tr ⟨.getch .topLevel s, c⟩ := by
  have hcaption : (captionOf tr).see ⟨.getch .topLevel s, c⟩ = captionOf tr := by
    rw [Caption.see, if_neg (not_or.mpr ⟨ha, hr⟩), if_neg hd]
  have hsee : ((boardOf t tr).see t ⟨.getch .topLevel s, c⟩).hidden = (boardOf t tr).hidden := hb
  refine ⟨?_, delayOf_concat tr _, outdated_concat tr _⟩
  rw [idle_concat, hsee, hcaption]
  rfl

end Exchanges

end SvnCurses.Console
