import SvnCurses.ProgramState

namespace SvnCurses.Draw

open Cpp ProgramState

def bottomWindowSize : Int := 8

inductive Attr
  | bold
  | colorPair (pair : Nat)
  deriving DecidableEq

/-- The four branches that draw a row. -/
inductive Form
  | selected
  | selectedUnderCursor
  | underCursor
  | plain (pair : Nat)
  deriving DecidableEq

def Form.on : Form → List Attr
  | .selected => [.bold, .colorPair 8]
  | .selectedUnderCursor | .underCursor => [.colorPair 6]
  | .plain pair => [.colorPair pair]

-- the first branch never turns the bold attribute off again
def Form.off : Form → List Attr
  | .selected => [.colorPair 8]
  | .selectedUnderCursor | .underCursor => [.colorPair 6]
  | .plain pair => [.colorPair pair]

def Form.isSelected : Form → Bool
  | .selected | .selectedUnderCursor => true
  | .underCursor | .plain _ => false

/-- What is written on the pad for one row: the attributes of the form go on,
the text is printed, and they go off. -/
structure Drawn where
  row : Int
  form : Form
  text : Str
  deriving DecidableEq

def colorPair (c : Char) : Nat :=
  if c = 'M' then 1
  else if c = '?' then 3
  else if c = '!' then 2
  else if c = 'A' then 4
  else if c = 'D' then 5
  else 8

/-- A blank is inserted at column 8 and the last character makes room for it. -/
def shifted (item : Str) : Except Fault Str := do
  let text ← insertAt item 8 [' ']
  .ok text.dropLast

def drawItem (isItemSelected underCursor : Bool) (item : Str) : Except Fault (Form × Str) :=
  if isItemSelected && !underCursor then do
    let text ← shifted item
    .ok (.selected, text)
  else if isItemSelected && underCursor then do
    let text ← shifted item
    .ok (.selectedUnderCursor, text)
  else if underCursor then .ok (.underCursor, item)
  else do
    let c ← front item
    .ok (.plain (colorPair c), item)

def padSize (maxX : Int) (row : Str) : Int := narrow (toSize (maxX - row.length))

def printStatusWithColor (s : State) (i : Int) : Except Fault (State × Drawn) := do
  let row ← index s.statusItems i
  let isItemSelected := decide (row ∈ s.selectedItems)
  let item ← append row (padSize s.maxX row) ' '
  let drawn ← drawItem isItemSelected (decide (i = s.cursorPosition)) item
  .ok ({ s with statusItems := s.statusItems.set (toSize i) item }, ⟨i, drawn.1, drawn.2⟩)

/-- The loop of `printAllStatus` from row `i` on. It needs no more rounds than
there are rows. -/
def printFrom : Nat → State → Int → Except Fault (State × List Drawn)
  | 0, s, _ => .ok (s, [])
  | fuel + 1, s, i =>
      if toSize i < s.statusItems.length then do
        let (s, drawn) ← printStatusWithColor s i
        let next ← checked (i + 1)
        let (s, rest) ← printFrom fuel s next
        .ok (s, drawn :: rest)
      else .ok (s, [])

def printAllStatus (s : State) : Except Fault (State × List Drawn) :=
  printFrom s.statusItems.length s s.padPos

end SvnCurses.Draw
