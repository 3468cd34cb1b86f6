import SvnCurses.ReportLines
import SvnCurses.StatusWalk

namespace SvnCurses.Walked

open Cpp Dirents Forests StatusReport ReportLines StatusWalk

section Paths

variable {root name : Str} {names : List Str}

/-- The path of a node, by the names on the way to it. -/
def abspathOf (root : Str) (names : List Str) : Str := names.foldl svnDirentJoin root

theorem abspathOf_concat : abspathOf root (names ++ [name]) =
    svnDirentJoin (abspathOf root names) name := by
  rw [abspathOf, List.foldl_append]
  rfl

end Paths

section Visits

variable {client : Client} {wb : WalkBaton} {abspath parentAbspath path : Str} {rel : Option Str}
  {info : Info} {dirent : Option Dirent} {child : Child} {status : WcStatus} {told a b c : Told}

end Visits

section Runs

variable {client : Client} {wb : WalkBaton} {root : Str} {names : List Str} {rel : Option Str}
  {f : Forest Str Child} {a b c : Told} {ts : List Told}

theorem andThen_assoc : (a.andThen b).andThen c = a.andThen (b.andThen c) := by
  obtain ⟨reported, ended⟩ := a
  cases ended with
  | some e => rfl
  | none =>
    obtain ⟨more, ended⟩ := b
    cases ended with
    | some e => rfl
    | none => simp [Told.andThen]

theorem nothing_andThen : Told.nothing.andThen a = a := by
  simp [Told.andThen, Told.nothing]

/-- All that is told, one after the other. -/
def tellAll : List Told → Told
  | [] => .nothing
  | told :: ts => told.andThen (tellAll ts)

theorem tellAll_append (more : List Told) :
    tellAll (ts ++ more) = (tellAll ts).andThen (tellAll more) := by
  induction ts with
  | nil => rw [List.nil_append, tellAll, nothing_andThen]
  | cons told ts ih => rw [List.cons_append, tellAll, tellAll, ih, andThen_assoc]

/-- Where the walk goes, and the place in the repository that it hands down. -/
def walkPlan (wb : WalkBaton) (root : Str) : Plan Str Child (Option Str) where
  enters := descends
  down names rel child := reposRelpathOf wb (abspathOf root names) child.info rel

/-- What is told of a node when the walk comes to it. -/
def visit (client : Client) (wb : WalkBaton) (root : Str) (v : Visit Str Child (Option Str)) :
    Told :=
  oneChildStatus client wb (abspathOf root v.1) (abspathOf root v.1.dropLast) v.2.1 v.2.2

/-- The walk over the children is the walk over the nodes in preorder. -/
theorem childrenStatus_eq : childrenStatus client wb (abspathOf root names) rel f =
    tellAll (((walkPlan wb root).preorder names rel f).map (visit client wb root)) := by
  induction f generalizing names rel with
  | nil => rfl
  | cons name child children rest ihc ihr =>
    have hvisit : oneChildStatus client wb (svnDirentJoin (abspathOf root names) name)
        (abspathOf root names) rel child = visit client wb root (names ++ [name], rel, child) := by
      rw [visit, abspathOf_concat, List.dropLast_concat]
    have hbelow : (if descends child = true then
          childrenStatus client wb (svnDirentJoin (abspathOf root names) name)
            (reposRelpathOf wb (svnDirentJoin (abspathOf root names) name) child.info rel) children
        else .nothing) =
        tellAll ((if (walkPlan wb root).enters child = true then
          (walkPlan wb root).preorder (names ++ [name])
            ((walkPlan wb root).down (names ++ [name]) rel child) children
          else []).map (visit client wb root)) := by
      have henters : (walkPlan wb root).enters child = descends child := rfl
      rw [← abspathOf_concat, henters]
      by_cases hdescends : descends child = true
      · rw [if_pos hdescends, if_pos hdescends]
        exact ihc
      · rw [if_neg hdescends, if_neg hdescends]
        rfl
    rw [childrenStatus, Plan.preorder, List.map_cons, List.map_append, tellAll, tellAll_append,
      ← ihr, ← hbelow, ← hvisit, andThen_assoc]

theorem tellAll_complete (h : (tellAll ts).ended = none) :
    (tellAll ts).reported = ts.flatMap Told.reported := by
  induction ts with
  | nil => rfl
  | cons told ts ih =>
    rw [tellAll, Told.andThen] at h ⊢
    split at h
    · next he => rw [he] at h; cases h
    · rw [List.flatMap_cons, ← ih h]

end Runs

section Results

variable {client : Client} {wb : WalkBaton} {wc : WorkingDir} {v : Visit Str Child (Option Str)}
  {rel : Option Str} {x y : Reported}

/-- The nodes that the walk comes to below the directory of the command. -/
def visits (wb : WalkBaton) (wc : WorkingDir) : List (Visit Str Child (Option Str)) :=
  (walkPlan (wc.baton wb) wc.abspath).preorder []
    (reposRelpathOf (wc.baton wb) wc.abspath (some wc.info) none) wc.entries

theorem walkStatus_eq : walkStatus client wb wc = tellAll
    (thisDirStatus client (wc.baton wb) wc ::
      (visits wb wc).map (visit client (wc.baton wb) wc.abspath)) := by
  have hchildren := @childrenStatus_eq client (wc.baton wb) wc.abspath []
    (reposRelpathOf (wc.baton wb) wc.abspath (some wc.info) none) wc.entries
  rw [tellAll, visits, ← hchildren]
  rfl

/-- The paths in the order in which they are told of. -/
def paths (wb : WalkBaton) (wc : WorkingDir) : List Str :=
  [] :: (visits wb wc).map fun v => inter v.1

theorem nameLess_irrefl (name : Str) : ¬ nameLess name name :=
  List.lex_irrefl (fun c : Char => Nat.lt_irrefl c.toNat) name

/-- A walk that comes to its end tells of the directory of the command and of just
the nodes that are found by their names on a way through versioned directories. -/
theorem walk_complete (h : (walkStatus client wb wc).ended = none) :
    x ∈ (walkStatus client wb wc).reported ↔
      x ∈ (thisDirStatus client (wc.baton wb) wc).reported ∨
        ∃ names rel child, (walkPlan (wc.baton wb) wc.abspath).find? []
            (reposRelpathOf (wc.baton wb) wc.abspath (some wc.info) none) wc.entries names =
              some (rel, child) ∧
          x ∈ (visit client (wc.baton wb) wc.abspath (names, rel, child)).reported := by
  rw [walkStatus_eq] at h ⊢
  rw [tellAll_complete h, List.flatMap_cons, List.mem_append, List.flatMap_map, List.mem_flatMap]
  refine or_congr_right ⟨?_, ?_⟩
  · rintro ⟨⟨names, rel, child⟩, hv, hx⟩
    exact ⟨names, rel, child, (mem_preorder nameLess_irrefl wc.ordered).mp hv, hx⟩
  · rintro ⟨names, rel, child, hfind, hx⟩
    exact ⟨(names, rel, child), (mem_preorder nameLess_irrefl wc.ordered).mpr hfind, hx⟩

def someInfo (status : DbStatus) (kind : NodeKind) : Info where
  status := status
  kind := kind
  revnum := 1
  reposRelpath := none
  recordedSize := -1
  recordedTime := 0
  changelist := none
  conflicted := false
  special := false
  hasChecksum := status ≠ .added
  copied := false
  propsMod := false
  hadProps := false
  haveBase := status ≠ .added
  haveMoreWork := false
  incomplete := false
  opRoot := status = .added
  locked := false
  lock := false
  movedTo := none
  movedHere := false
  fileExternal := false
  hasDescendants := kind = .dir

def someChild (info : Option Info) (kind : NodeKind) : Child :=
  ⟨info, some ⟨kind, false, 7, 0⟩, false⟩

/-- A changed file, an unversioned one, and a new directory with a new file. -/
def someWorkingDir : WorkingDir where
  abspath := "/w".toList
  info := someInfo .normal .dir
  dirent := ⟨.dir, false, 0, 0⟩
  resolvedKind := .dir
  entries := .cons "a".toList (someChild (some (someInfo .normal .file)) .file) .nil
    (.cons "b".toList (someChild none .file) .nil
      (.cons "src".toList (someChild (some (someInfo .added .dir)) .dir)
        (.cons "c".toList (someChild (some (someInfo .added .file)) .file) .nil .nil) .nil))
  rooted := by decide
  canonical := by decide
  versioned := by decide
  ordered := by decide +kernel
  named := by decide +kernel

def someBaton : WalkBaton :=
  ⟨[], [], fun _ => .ok true, fun _ => .ok .notPresent, fun _ => .ok none, fun _ => some [],
    fun _ _ => false, false, false⟩

theorem walk_complete_below :
    ∃ x ∈ (walkStatus quietClient someBaton someWorkingDir).reported, x.1 = "src/c".toList := by
  have htold : (visit quietClient (someWorkingDir.baton someBaton) someWorkingDir.abspath
      (["src".toList, "c".toList], some "src".toList,
        someChild (some (someInfo .added .file)) .file)).reported ≠ [] := by decide +kernel
  refine ⟨_, (walk_complete (by decide +kernel)).mpr
    (.inr ⟨_, _, _, ?_, List.head_mem htold⟩), ?_⟩
  · decide +kernel
  · revert htold
    decide +kernel

end Results

end SvnCurses.Walked
