import SvnCurses.Buckets
import SvnCurses.Cpp

namespace SvnCurses.StatusReport

open Cpp Buckets

section Client

/-- `svn_wc_status_kind`. -/
inductive StatusKind
  | none
  | unversioned
  | normal
  | added
  | missing
  | deleted
  | replaced
  | modified
  | merged
  | conflicted
  | ignored
  | obstructed
  | external
  | incomplete
  deriving DecidableEq

/-- The fields of `svn_client_status_t` that are looked at for `svn st`. -/
structure ClientStatus where
  localAbspath : Str
  versioned : Bool
  conflicted : Bool
  nodeStatus : StatusKind
  textStatus : StatusKind
  propStatus : StatusKind
  wcIsLocked : Bool
  copied : Bool
  revision : Int
  switched : Bool
  fileExternal : Bool
  -- whether there is one
  lock : Bool
  changelist : Option Str
  reposNodeStatus : StatusKind
  movedFromAbspath : Option Str
  movedToAbspath : Option Str
  deriving DecidableEq

/-- `svn_error_t`, by the codes that are told apart. -/
inductive SvnError
  | wcUpgradeRequired
  | wcNotWorkingCopy
  | wcPathNotFound
  | wcPathAccessDenied
  | wcPathUnexpectedStatus
  | other
  deriving DecidableEq

/-- What the printer asks the libraries for. -/
structure Client where
  -- the text, property and tree conflicts of a path
  conflictedP3 : Str → Except SvnError (Bool × Bool × Bool)
  treeConflictDescription : Str → Except SvnError Str
  preNgStatusData : Str → Except SvnError Unit
  -- the way from the target of the command to a path
  makeRelpath : Str → Str

end Client

section Status

def generateStatusCode : StatusKind → Char
  | .none => ' '
  | .normal => ' '
  | .added => 'A'
  | .missing => '!'
  | .incomplete => '!'
  | .deleted => 'D'
  | .replaced => 'R'
  | .modified => 'M'
  | .conflicted => 'C'
  | .obstructed => '~'
  | .ignored => 'I'
  | .external => 'X'
  | .unversioned => '?'
  | .merged => '?'

def combinedStatus (status : ClientStatus) : StatusKind :=
  match status.nodeStatus with
  | .conflicted =>
      if !status.versioned && status.conflicted then .missing else status.textStatus
  | .modified => status.textStatus
  | nodeStatus => nodeStatus

def generateSwitchColumnCode (status : ClientStatus) : Char :=
  if status.switched then 'S' else if status.fileExternal then 'X' else ' '

def svnDirentLocalStyle (dirent : Str) : Str := if dirent = [] then ['.'] else dirent

/-- The counters of the conflicts. -/
inductive Conflict
  | text
  | prop
  | tree
  deriving DecidableEq

/-- The counter that goes up, and the description of a tree conflict. -/
def findConflict (client : Client) (status : ClientStatus) :
    Except SvnError (Option Conflict × Option Str) :=
  if status.conflicted then do
    let conflicted ←
      if status.versioned then
        match client.conflictedP3 status.localAbspath with
        | .error .wcUpgradeRequired => .ok (false, false, false)
        | result => result
      else .ok (false, false, true)
    match conflicted with
    | (_, _, true) => do
        let desc ← client.treeConflictDescription status.localAbspath
        return (some .tree, some desc)
    | (true, _, false) => return (some .text, none)
    | (false, true, false) => return (some .prop, none)
    | (false, false, false) => return (none, none)
  else return (none, none)

/-- The seven columns before a path. -/
def columns (status : ClientStatus) (treeConflict : Bool) : Str :=
  let propStatus := if status.nodeStatus = .added then .none else status.propStatus
  [generateStatusCode (combinedStatus status), generateStatusCode propStatus,
    if status.wcIsLocked then 'L' else ' ', if status.copied then '+' else ' ',
    generateSwitchColumnCode status, if status.lock then 'K' else ' ',
    if treeConflict then 'C' else ' ']

end Status

section Command

/-- A path and its status, as the client library reports them. -/
abbrev Reported := Str × ClientStatus

/-- `status_baton`, and what has been printed. -/
structure Baton where
  stdout : Str
  textConflicts : Nat
  propConflicts : Nat
  treeConflicts : Nat
  cachedChangelists : Table Str Reported

def Baton.initial : Baton := ⟨[], 0, 0, 0, .empty⟩

/-- An `unsigned int` that goes up by one. -/
def increment (n : Nat) : Nat := (n + 1) % 2 ^ 32

def Baton.count (sb : Baton) : Option Conflict → Baton
  | some .text => { sb with textConflicts := increment sb.textConflicts }
  | some .prop => { sb with propConflicts := increment sb.propConflicts }
  | some .tree => { sb with treeConflicts := increment sb.treeConflicts }
  | none => sb

/-- An unsigned number in decimal. -/
def decimal (n : Nat) : Str := (toString n).toList

end Command

end SvnCurses.StatusReport
