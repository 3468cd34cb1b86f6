import SvnCurses.Draw
import SvnCurses.Interaction

namespace SvnCurses.KeyEvent

open Cpp ProgramState Draw Interaction

/-- The places where a key is read. -/
inductive Site
  | topLevel
  | secondG
  | addPrompt
  | deletePrompt
  | keepLocalPrompt
  | updatePrompt
  | updateResult
  deriving DecidableEq

/-- What the program waits for, with its state while it waits. -/
inductive Call
  | getch (site : Site) (s : State)
  | popen (cmd : Str) (s : State)
  deriving DecidableEq

def Call.state : Call → State
  | .getch _ s => s
  | .popen _ s => s

/-- A key code, or what the command writes to its standard output. `popen` may
also fail. -/
@[reducible] def Answer : Call → Type
  | .getch _ _ => Int
  | .popen _ _ => Option Str

inductive Output
  | pad (before after : State) (rows : List Drawn)
  | timeout (delay : Int)
  | wclear
  | wprintw (text : Str)
  | mvwprintw (y x : Int) (text : Str)

inductive Stop
  | fault (f : Fault)
  | noPad

abbrev Prog := Program Call Answer Output Stop

abbrev History := Trace Answer

def lift {α : Type} : Except Fault α → Prog α
  | .ok a => .done a
  | .error f => .stop (.fault f)

def getch (site : Site) (s : State) : Prog Int := .ask (.getch site s) .done

def tell (o : Output) : Prog Unit := .say o (.done ())

def key (c : Char) : Int := c.toNat

/-- What `getch` returns when no key came before the timeout. -/
def ERR : Int := -1

section Exec

/-- What successive calls of `fgets` leave in the buffer, until the stream ends.
Each takes a character at least, so there are no more than there are characters. -/
def buffers : Nat → Str → List Str
  | 0, _ => []
  | fuel + 1, stream =>
      match fgets 256 stream with
      | none => []
      | some (buffer, stream) => buffer :: buffers fuel stream

def execResult (out : Str) : Str := (buffers out.length out).flatMap cString

def exec (cmd : Str) (s : State) : Prog Str :=
  .ask (.popen cmd s) fun
    | none => .stop (.fault (.thrown (.runtimeError "popen() failed!".toList)))
    | some out => .done (execResult out)

end Exec

/-- `printAllStatus` on the pad, which is then shown. -/
def showAllStatus (s : State) : Prog State := do
  let drawn ← lift (printAllStatus s)
  tell (.pad s drawn.1 drawn.2)
  return drawn.1

def statusCommand : Str := "svn st".toList

def refreshStatusItems (s : State) : Prog State := do
  let s := { s with selectedItems := [] }
  tell (.mvwprintw (s.maxY - 1) 0 "...".toList)
  let result ← exec statusCommand s
  let text ← lift (popBack result)
  let s := { s with statusItems := split text '\n', allStatusItems := split text '\n' }
  let s ← showAllStatus s
  tell (.mvwprintw (s.maxY - 1) 0 "   ".toList)
  return s

section Moves

def atTop (s : State) : State := { s with cursorPosition := 0, padPos := 0 }

def cursorUp (s : State) : Except Fault State :=
  if 0 < s.cursorPosition then do
    let cursor ← checked (s.cursorPosition - 1)
    if cursor ≤ s.padPos then
      let above ← checked (s.padPos - 1)
      .ok { s with cursorPosition := cursor, padPos := max 0 above }
    else .ok { s with cursorPosition := cursor }
  else .ok s

def moveOneRowUp (s : State) : Prog State := do
  let s ← lift (cursorUp s)
  showAllStatus s

def cursorDown (s : State) : Except Fault State :=
  if toSize s.cursorPosition < toSize (s.statusItems.length - 1) then do
    let cursor ← checked (s.cursorPosition + 1)
    let height ← checked (s.maxY - bottomWindowSize)
    let edge ← checked (height + s.padPos)
    if edge ≤ cursor then
      let below ← checked (s.padPos + 1)
      .ok { s with cursorPosition := cursor, padPos := below }
    else .ok { s with cursorPosition := cursor }
  else .ok s

def moveOneRowDown (s : State) : Prog State := do
  let s ← lift (cursorDown s)
  showAllStatus s

/-- The `G` key. -/
def cursorLast (s : State) : State :=
  if toSize s.cursorPosition < toSize (s.statusItems.length - 1) then
    let cursor := narrow (toSize (s.statusItems.length - 1))
    if toSize s.maxY < toSize (s.statusItems.length - 1) then
      { s with
        cursorPosition := cursor
        padPos := narrow (toSize (s.statusItems.length - s.maxY + bottomWindowSize)) }
    else { s with cursorPosition := cursor }
  else s

/-- The space key, before the cursor moves on. -/
def toggleSelected (s : State) : Except Fault State := do
  let item ← index s.statusItems s.cursorPosition
  if item ∈ s.selectedItems then
    .ok { s with selectedItems := s.selectedItems.filter (· ≠ item) }
  else .ok { s with selectedItems := s.selectedItems ++ [item] }

end Moves

section Handlers

/-- `items` with `erase(0, 7)` on each, joined. -/
def joinedStr (s : State) : Str := join (s.selectedItems.map (List.drop 7)) [' ']

def addCommand (s : State) : Str := "svn add ".toList ++ joinedStr s

def removeCommand (s : State) (answer : Int) : Str :=
  "svn rm ".toList ++ (if answer = key 'y' then "--keep-local ".toList else []) ++ joinedStr s

def updateCommand : Str := "svn up".toList

def ifYes (answer : Int) (p : Prog Unit) : Prog Unit := if answer = key 'y' then p else .done ()

def keyA (s : State) : Prog State := do
  tell .wclear
  tell (.mvwprintw (bottomWindowSize - 1) 0 "Add selected items? (y/n?)".toList)
  tell (.timeout 12000)
  let answer ← getch .addPrompt s
  ifYes answer do
    tell .wclear
    let _ ← exec (addCommand s) s
  let s ← refreshStatusItems s
  tell .wclear
  return s

def keyR (s : State) : Prog State := do
  tell .wclear
  tell (.mvwprintw (bottomWindowSize - 1) 0 "Delete selected items? (y/n?)".toList)
  tell (.timeout 12000)
  let answer ← getch .deletePrompt s
  ifYes answer do
    tell .wclear
    tell (.mvwprintw (bottomWindowSize - 1) 0 "Keep local files? (y/n?)".toList)
    let answer ← getch .keepLocalPrompt s
    tell .wclear
    let _ ← exec (removeCommand s answer) s
  tell .wclear
  refreshStatusItems (atTop s)

def keyU (s : State) : Prog State := do
  tell (.mvwprintw (bottomWindowSize - 1) 0
    "Bring changes from the repository into the working copy? (y/n?)".toList)
  tell (.timeout 8000)
  let answer ← getch .updatePrompt s
  if answer = key 'y' then do
    tell .wclear
    let result ← exec updateCommand s
    tell (.wprintw result)
    let _ ← getch .updateResult s
    refreshStatusItems s
  else do
    tell .wclear
    return s

def keySpace (s : State) : Prog State := do
  let s ← lift (toggleSelected s)
  moveOneRowDown s

def keyDot (s : State) : Prog State := do
  let s := s.toggleMode .hidden
  tell .wclear
  tell (.wprintw ("HIDDEN = ".toList ++
    if s.getMode .hidden then "true".toList else "false".toList))
  return s

def keyGg (s : State) : Prog State := do
  let second ← getch .secondG s
  if second = key 'g' then showAllStatus (atTop s) else return s

def keyEvent (s : State) : Prog State := do
  let c ← getch .topLevel s
  if c = key 'q' ∨ c = key 'Q' then return { s with isRunning := false }
  else if c = key 'j' then moveOneRowDown s
  else if c = key 'k' then moveOneRowUp s
  else if c = key 'G' then showAllStatus (cursorLast s)
  else if c = key 'g' then keyGg s
  else if c = key 's' then refreshStatusItems (atTop s)
  else if c = key 'a' then keyA s
  else if c = key 'r' then keyR s
  else if c = key 'u' then keyU s
  else if c = key ' ' then keySpace s
  else if c = key '.' then keyDot s
  else return s

end Handlers

/-- The screen as `getmaxyx` reports it, in two `int` variables. -/
structure Terminal where
  maxY : Int
  maxX : Int
  maxY_int : intMin ≤ maxY ∧ maxY ≤ intMax
  maxX_int : intMin ≤ maxX ∧ maxX ≤ intMax

/-- `newpad` refuses a pad without a line or without a column. -/
def newpad (lines columns : Int) : Bool := 0 < lines ∧ 0 < columns

/-- `main` up to its loop. -/
def main (t : Terminal) : Prog State := do
  tell (.timeout 1000)
  let s := { State.initial with isRunning := true, maxY := t.maxY, maxX := t.maxX }
  if newpad (s.maxY - bottomWindowSize) s.maxX then refreshStatusItems s else .stop .noPad

/-- The configurations of the program on a terminal, with answers that `env`
allows: `main`, then its loop over `keyEvent`. -/
abbrev Session (env : ∀ q, Answer q → Prop) (t : Terminal) : History → Prog State → Prop :=
  Reaches env keyEvent (fun s => s.isRunning = true) (main t)

end SvnCurses.KeyEvent
