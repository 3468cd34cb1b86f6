import SvnCurses.Cpp

namespace SvnCurses.ProgramState

open Cpp

inductive Mode
  | add
  | hidden
  | rm
  deriving DecidableEq

/-- The static members of the class `State`. -/
structure State where
  isRunning : Bool
  statusItems : List Str
  allStatusItems : List Str
  selectedItems : List Str
  cursorPosition : Int
  maxX : Int
  maxY : Int
  padPos : Int
  add : Mode × Bool
  hidden : Mode × Bool
  rm : Mode × Bool
  deriving DecidableEq

namespace State

/-- The members before `main` runs. -/
def initial : State where
  isRunning := false
  statusItems := []
  allStatusItems := []
  selectedItems := []
  cursorPosition := 0
  maxX := 0
  maxY := 0
  padPos := 0
  add := (.add, false)
  hidden := (.hidden, false)
  rm := (.rm, false)

def getMode (s : State) : Mode → Bool
  | .add => s.add.2
  | .hidden => s.hidden.2
  | .rm => s.rm.2

def toggleMode (s : State) (m : Mode) : State :=
  match m with
  | .add => { s with add := (m, !s.add.2) }
  | .hidden => { s with hidden := (m, !s.hidden.2) }
  | .rm => { s with rm := (m, !s.rm.2) }

end State

end SvnCurses.ProgramState
