import SvnCurses.Dirents
import SvnCurses.Forests
import SvnCurses.StatusReport

namespace SvnCurses.StatusWalk

open Cpp Dirents Forests StatusReport

section Database

/-- `svn_wc__db_status_t`. -/
inductive DbStatus
  | normal
  | added
  | movedHere
  | copied
  | deleted
  | serverExcluded
  | excluded
  | notPresent
  | incomplete
  | baseDeleted
  deriving DecidableEq

/-- `svn_node_kind_t`. -/
inductive NodeKind
  | none
  | file
  | dir
  | unknown
  | symlink
  deriving DecidableEq

/-- The fields of `svn_wc__db_info_t` that are looked at for `svn st`. -/
structure Info where
  status : DbStatus
  kind : NodeKind
  revnum : Int
  reposRelpath : Option Str
  -- -1 if it is not known
  recordedSize : Int
  recordedTime : Int
  changelist : Option Str
  conflicted : Bool
  special : Bool
  hasChecksum : Bool
  copied : Bool
  propsMod : Bool
  hadProps : Bool
  haveBase : Bool
  haveMoreWork : Bool
  incomplete : Bool
  opRoot : Bool
  locked : Bool
  -- whether there is one
  lock : Bool
  movedTo : Option Str
  movedHere : Bool
  fileExternal : Bool
  hasDescendants : Bool
  deriving DecidableEq

/-- `svn_io_dirent2_t`. -/
structure Dirent where
  kind : NodeKind
  special : Bool
  filesize : Int
  mtime : Int
  deriving DecidableEq

/-- What the database and the disk have of a name in a directory. -/
structure Child where
  info : Option Info
  dirent : Option Dirent
  -- a tree conflict on a name that the database has no node for
  treeConflicted : Bool
  deriving DecidableEq

/-- `walk_status_baton`, with what the libraries are asked for. -/
structure WalkBaton where
  targetAbspath : Str
  externals : List Str
  fileModifiedP : Str → Except SvnError Bool
  -- the status of the node that is hidden by a local addition
  infoBelowWorking : Str → Except SvnError DbStatus
  scanMoved : Str → Except SvnError (Option Str)
  readReposInfo : Str → Option Str
  -- whether a name is among the patterns to ignore in a directory
  matchIgnoreList : Str → Str → Bool
  getAll : Bool
  noIgnore : Bool

end Database

section Assemble

/-- `svn_wc_status3_t`, as far as a client takes it over. -/
structure WcStatus where
  kind : NodeKind
  versioned : Bool
  conflicted : Bool
  nodeStatus : StatusKind
  textStatus : StatusKind
  propStatus : StatusKind
  locked : Bool
  copied : Bool
  revision : Int
  switched : Bool
  fileExternal : Bool
  lock : Bool
  changelist : Option Str
  movedFromAbspath : Option Str
  movedToAbspath : Option Str
  deriving DecidableEq

def svnRelpathSkipAncestor (parent child : Str) : Option Str :=
  if parent = [] then some child
  else if ¬ parent <+: child then none
  else
    match child.drop parent.length with
    | [] => some []
    | '/' :: rest => some rest
    | _ => none

/-- A node is switched if it is not where its parent would have it. -/
def isSwitched (localAbspath : Str) (info : Info) (parentReposRelpath : Option Str) : Bool :=
  match info.reposRelpath, parentReposRelpath with
  | some relpath, some parent =>
      svnRelpathSkipAncestor parent relpath ≠ some (svnDirentBasename localAbspath)
  | _, _ => false

/-- The node status by the database and the disk, and whether the node is copied. -/
def presence (info : Info) (dirent : Option Dirent) : StatusKind × Bool :=
  if info.status = .incomplete ∨ info.incomplete then (.incomplete, false)
  else if info.status = .deleted then
    (.deleted, !info.haveBase || info.haveMoreWork || info.copied)
  else
    let expectedKind := if info.kind = .dir then .dir else .file
    match dirent with
    | none => (.missing, false)
    | some d =>
        if d.kind = expectedKind then (.normal, false)
        else (if d.kind = .none then .missing else .obstructed, false)

def propStatusOf (info : Info) : StatusKind :=
  if info.status = .deleted then .none
  else if info.propsMod then .modified
  else if info.hadProps then .normal
  else .none

def textModified (wb : WalkBaton) (localAbspath : Str) (info : Info) (dirent : Option Dirent) :
    Except SvnError Bool :=
  if !info.hasChecksum then .ok true
  else if dirent.any (fun d => info.recordedSize ≠ -1 ∧ info.recordedTime ≠ 0 ∧
      info.recordedSize = d.filesize ∧ info.recordedTime = d.mtime) then .ok false
  else
    match wb.fileModifiedP localAbspath with
    | .error .wcPathAccessDenied => .ok true
    | result => result

/-- The node and text status of what is no directory. -/
def fileStatus (wb : WalkBaton) (localAbspath : Str) (info : Info) (dirent : Option Dirent) :
    Except SvnError (StatusKind × StatusKind) :=
  let special := dirent.any (·.special)
  if (info.kind = .file ∨ info.kind = .symlink) ∧ info.special = special then do
    let modified ← textModified wb localAbspath info dirent
    return (.normal, if modified then .modified else .normal)
  else if info.special ≠ special then .ok (.obstructed, .normal)
  else .ok (.normal, .normal)

/-- The node and text status, looked at closer where nothing is missing. -/
def textStatusOf (wb : WalkBaton) (localAbspath : Str) (info : Info) (dirent : Option Dirent)
    (nodeStatus : StatusKind) : Except SvnError (StatusKind × StatusKind) :=
  if info.kind ≠ .dir ∧ nodeStatus = .normal then fileStatus wb localAbspath info dirent
  else .ok (nodeStatus, .normal)

/-- The text, property and tree conflicts, if there is a mark of any. -/
def conflictsOf (client : Client) (localAbspath : Str) (marked : Bool) :
    Except SvnError (Bool × Bool × Bool) :=
  if marked then client.conflictedP3 localAbspath else .ok (false, false, false)

/-- An addition that hides a node replaces it. -/
def additionStatus (wb : WalkBaton) (localAbspath : Str) (info : Info) :
    Except SvnError StatusKind :=
  if !info.opRoot then .ok .normal
  else if !info.haveBase && !info.haveMoreWork then .ok .added
  else do
    let belowWorking ← wb.infoBelowWorking localAbspath
    return if belowWorking ≠ .notPresent ∧ belowWorking ≠ .deleted then .replaced else .added

def movedFromOf (wb : WalkBaton) (localAbspath : Str) (info : Info) :
    Except SvnError (Option Str) :=
  if info.movedHere && info.opRoot then
    match wb.scanMoved localAbspath with
    | .error .wcPathUnexpectedStatus => .ok none
    | result => result
  else .ok none

/-- The node status of what is scheduled, and where it was moved from. -/
def scheduledStatus (wb : WalkBaton) (localAbspath : Str) (info : Info) (nodeStatus : StatusKind) :
    Except SvnError (StatusKind × Option Str) :=
  if nodeStatus = .normal ∧ info.status = .added then do
    let nodeStatus ← additionStatus wb localAbspath info
    let movedFrom ← movedFromOf wb localAbspath info
    return (nodeStatus, movedFrom)
  else .ok (nodeStatus, none)

/-- The node status, or what has changed in a node that has none of its own. -/
def overallStatus (scheduled textStatus propStatus : StatusKind) : StatusKind :=
  let nodeStatus := if scheduled = .normal then textStatus else scheduled
  if nodeStatus = .normal ∧ propStatus ≠ .none then propStatus else nodeStatus

/-- There is nothing to tell about the node. -/
def isUninteresting (info : Info) (nodeStatus : StatusKind) (switched conflicted : Bool) : Bool :=
  (nodeStatus = .none ∨ nodeStatus = .normal ∨ (nodeStatus = .deleted ∧ !info.opRoot)) ∧
    !switched ∧ !info.locked ∧ !info.lock ∧ info.changelist = none ∧ !conflicted ∧
    info.movedTo = none

/-- `assemble_status`. -/
def assembleStatus (client : Client) (wb : WalkBaton) (localAbspath : Str)
    (parentReposRelpath : Option Str) (info : Info) (dirent : Option Dirent) :
    Except SvnError (Option WcStatus) := do
  let switched := isSwitched localAbspath info parentReposRelpath
  let propStatus := propStatusOf info
  let (found, textStatus) ←
    textStatusOf wb localAbspath info dirent (presence info dirent).1
  let (text, prop, tree) ← conflictsOf client localAbspath info.conflicted
  let (scheduled, movedFrom) ← scheduledStatus wb localAbspath info found
  let nodeStatus := overallStatus scheduled textStatus propStatus
  if !wb.getAll && isUninteresting info nodeStatus switched (text || prop || tree) then
    return none
  else
    return some
      { kind := match info.kind with
          | .dir => .dir
          | .file | .symlink => .file
          | _ => .unknown
        versioned := true
        conflicted := text || prop || tree
        nodeStatus := nodeStatus
        textStatus := textStatus
        propStatus := propStatus
        locked := info.locked
        copied :=
          if found = .normal ∧ info.status = .added then info.copied else (presence info dirent).2
        revision := info.revnum
        switched := switched
        fileExternal := info.fileExternal
        lock := info.lock
        changelist := info.changelist
        movedFromAbspath := movedFrom
        movedToAbspath := info.movedTo }

def assembleUnversioned (dirent : Option Dirent) (treeConflicted isIgnored : Bool) : WcStatus where
  kind := .unknown
  versioned := false
  conflicted := treeConflicted
  nodeStatus :=
    if dirent.any (·.kind ≠ .none) then if isIgnored then .ignored else .unversioned
    else if treeConflicted then .conflicted
    else .none
  textStatus := .none
  propStatus := .none
  locked := false
  copied := false
  revision := -1
  switched := false
  fileExternal := false
  lock := false
  changelist := none
  movedFromAbspath := none
  movedToAbspath := none

/-- `svn_client__create_status`. -/
def createStatus (client : Client) (localAbspath : Str) (status : WcStatus) :
    Except SvnError ClientStatus := do
  let (text, prop, _) ←
    conflictsOf client localAbspath (status.versioned && status.conflicted)
  return {
    localAbspath := localAbspath
    versioned := status.versioned
    conflicted := status.conflicted
    nodeStatus := if text || prop then .conflicted else status.nodeStatus
    textStatus := if text then .conflicted else status.textStatus
    propStatus := if prop then .conflicted else status.propStatus
    wcIsLocked := status.kind = .dir && status.locked
    copied := status.copied
    revision := status.revision
    switched := !status.fileExternal && status.switched
    fileExternal := status.fileExternal
    lock := status.lock
    changelist := status.changelist
    reposNodeStatus := .none
    movedFromAbspath := status.movedFromAbspath
    movedToAbspath := status.movedToAbspath }

end Assemble

section Walk

/-- What has been reported, and the error that has ended it. -/
structure Told where
  reported : List Reported
  ended : Option SvnError

/-- Nothing is reported after an error. -/
def Told.andThen (a b : Told) : Told :=
  match a.ended with
  | some _ => a
  | none => ⟨a.reported ++ b.reported, b.ended⟩

def Told.nothing : Told := ⟨[], none⟩

def svnDirentJoin (base component : Str) : Str :=
  if component.head? = some '/' then component
  else if base = [] then component
  else if component = [] then base
  else if base.getLast? = some '/' then base ++ component
  else base ++ '/' :: component

def svnDirentSkipAncestor (parent child : Str) : Option Str :=
  if ¬ parent <+: child then none
  else
    let rootLength := if child.head? = some '/' then 1 else 0
    match child.drop parent.length with
    | [] => some []
    | c :: rest =>
        if parent.length < rootLength then none
        else if c = '/' then some rest
        else if parent.length = rootLength then some (c :: rest)
        else none

/-- `tweak_status`, with the directory that the command was run in for an anchor. -/
def tweakStatus (client : Client) (wb : WalkBaton) (localAbspath : Str) (status : WcStatus) :
    Told :=
  match createStatus client localAbspath status with
  | .error e => ⟨[], some e⟩
  | .ok cst =>
      match svnDirentSkipAncestor wb.targetAbspath localAbspath with
      | some path => ⟨[(svnDirentJoin [] path, cst)], none⟩
      | none => .nothing

def sendStatusStructure (client : Client) (wb : WalkBaton) (localAbspath : Str)
    (parentReposRelpath : Option Str) (info : Info) (dirent : Option Dirent) : Told :=
  match assembleStatus client wb localAbspath parentReposRelpath info dirent with
  | .error e => ⟨[], some e⟩
  | .ok none => .nothing
  | .ok (some status) => tweakStatus client wb localAbspath status

/-- The place of an external, or a directory on the way to one. -/
def isExternalPath (externals : List Str) (localAbspath : Str) : Bool :=
  localAbspath ∈ externals ∨ externals.any fun external =>
    match svnDirentSkipAncestor localAbspath external with
    | some (_ :: _) => true
    | _ => false

def unversionedStatus (wb : WalkBaton) (localAbspath : Str) (dirent : Option Dirent)
    (treeConflicted isIgnored : Bool) : WcStatus :=
  let status := assembleUnversioned dirent treeConflicted isIgnored
  if isExternalPath wb.externals localAbspath then { status with nodeStatus := .external }
  else status

def sendUnversionedItem (client : Client) (wb : WalkBaton) (localAbspath : Str)
    (dirent : Option Dirent) (treeConflicted : Bool) (parentAbspath : Str) : Told :=
  let isIgnored := wb.matchIgnoreList parentAbspath (svnDirentBasename localAbspath)
  let status := unversionedStatus wb localAbspath dirent treeConflicted isIgnored
  if wb.noIgnore || !(isIgnored && !status.conflicted) ||
      isExternalPath wb.externals localAbspath then
    tweakStatus client wb localAbspath status
  else .nothing

/-- The node is one of the working copy, and no mark of something left out. -/
def Info.isHere (info : Info) : Bool :=
  info.status ≠ .notPresent ∧ info.status ≠ .excluded ∧ info.status ≠ .serverExcluded ∧
    ¬ (info.kind = .unknown ∧ info.status = .normal)

/-- `one_child_status` for the child itself, at any depth. -/
def oneChildStatus (client : Client) (wb : WalkBaton) (localAbspath parentAbspath : Str)
    (dirReposRelpath : Option Str) (child : Child) : Told :=
  match child.info.filter (·.isHere) with
  | some info =>
      sendStatusStructure client wb localAbspath dirReposRelpath info child.dirent
  | none =>
      let conflicted := (child.info.map (·.conflicted)).getD child.treeConflicted
      if !conflicted && (child.dirent.isNone && wb.targetAbspath ≠ localAbspath ||
          isAdmDir (svnDirentBasename localAbspath)) then .nothing
      else sendUnversionedItem client wb localAbspath child.dirent conflicted parentAbspath

/-- `one_child_status` goes down in these. -/
def descends (child : Child) : Bool := child.info.any fun info => info.isHere && info.hasDescendants

def svnRelpathJoin (base component : Str) : Str :=
  if base = [] then component
  else if component = [] then base
  else base ++ '/' :: component

/-- `get_repos_root_url_relpath`, for the path. -/
def reposRelpathOf (wb : WalkBaton) (localAbspath : Str) (info : Option Info)
    (parentReposRelpath : Option Str) : Option Str :=
  match info.bind (·.reposRelpath), parentReposRelpath with
  | some relpath, _ => some relpath
  | none, some parent => some (svnRelpathJoin parent (svnDirentBasename localAbspath))
  | none, none => wb.readReposInfo localAbspath

/-- The loop of `get_dir_status` over the children. -/
def childrenStatus (client : Client) (wb : WalkBaton) (localAbspath : Str)
    (dirReposRelpath : Option Str) : Forest Str Child → Told
  | .nil => .nothing
  | .cons name child children rest =>
      let childAbspath := svnDirentJoin localAbspath name
      ((oneChildStatus client wb childAbspath localAbspath dirReposRelpath child).andThen
        (if descends child then
          childrenStatus client wb childAbspath
            (reposRelpathOf wb childAbspath child.info dirReposRelpath) children
        else .nothing)).andThen
      (childrenStatus client wb localAbspath dirReposRelpath rest)

/-- `svn_sort_compare_items_lexically`. -/
def nameLess : Str → Str → Prop := List.Lex fun c d => c.toNat < d.toNat

instance : DecidableRel nameLess := inferInstanceAs
  (DecidableRel (List.Lex fun c d : Char => c.toNat < d.toNat))

/-- A name in a directory. -/
def isName (name : Str) : Bool :=
  name ≠ [] ∧ '/' ∉ name ∧ name ≠ ".".toList ∧ name ≠ "..".toList

/-- The directory that the command is run in, which is versioned, and what is below it. -/
structure WorkingDir where
  abspath : Str
  info : Info
  dirent : Dirent
  -- what the directory is when it is reached by a symbolic link
  resolvedKind : NodeKind
  entries : Forest Str Child
  rooted : abspath.head? = some '/'
  canonical : svnDirentIsCanonical abspath = true
  versioned : info.hasDescendants = true ∧ info.status ≠ .notPresent ∧
    info.status ≠ .excluded ∧ info.status ≠ .serverExcluded
  ordered : entries.Ordered nameLess
  named : entries.All fun name child =>
    isName name = true ∧ ∀ d ∈ child.dirent, d.kind ≠ .none

/-- What is told of the directory of the command itself. -/
def thisDirStatus (client : Client) (wb : WalkBaton) (wc : WorkingDir) : Told :=
  let dirent :=
    if wc.dirent.special then { wc.dirent with kind := wc.resolvedKind, special := false }
    else wc.dirent
  sendStatusStructure client wb wc.abspath none wc.info (some dirent)

/-- `get_dir_status` for the directory of the command. -/
def getDirStatus (client : Client) (wb : WalkBaton) (wc : WorkingDir) : Told :=
  (thisDirStatus client wb wc).andThen
    (childrenStatus client wb wc.abspath (reposRelpathOf wb wc.abspath (some wc.info) none)
      wc.entries)

def WorkingDir.baton (wc : WorkingDir) (wb : WalkBaton) : WalkBaton :=
  { wb with targetAbspath := wc.abspath }

/-- `svn_wc__internal_walk_status`. -/
def walkStatus (client : Client) (wb : WalkBaton) (wc : WorkingDir) : Told :=
  getDirStatus client (wc.baton wb) wc

end Walk

end SvnCurses.StatusWalk
