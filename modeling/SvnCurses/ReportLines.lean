import SvnCurses.RefreshText
import SvnCurses.StatusReport

namespace SvnCurses.ReportLines

open Cpp Buckets StatusReport RefreshText

section Lines

/-- The lines of a report. -/
inductive ReportLine
  | entry (columns path : Str)
  | swappedPlaces (path : Str)
  | movedTo (path : Str)
  | movedFrom (path : Str)
  | treeConflict (description : Str)
  | blank
  | changelist (name : Str)
  | summary
  | conflicts (kind : Str) (n : Nat)
  deriving DecidableEq

def ReportLine.text : ReportLine → Str
  | .entry columns path => columns ++ ' ' :: path
  | .swappedPlaces path => "        > swapped places with ".toList ++ path
  | .movedTo path => "        > moved to ".toList ++ path
  | .movedFrom path => "        > moved from ".toList ++ path
  | .treeConflict description => "      >   ".toList ++ description
  | .blank => []
  | .changelist name => "--- Changelist '".toList ++ name ++ "':".toList
  | .summary => "Summary of conflicts:".toList
  | .conflicts kind n => "  ".toList ++ kind ++ " conflicts: ".toList ++ decimal n

variable (client : Client)

/-- An entry without any status is not shown. -/
def shown (x : Reported) : Bool := ¬ (x.2.nodeStatus = .none ∧ x.2.reposNodeStatus = .none)

def description (status : ClientStatus) : Option Str :=
  match findConflict client status with
  | .ok (_, desc) => desc
  | .error _ => none

def conflictOf (x : Reported) : Option Conflict :=
  match findConflict client x.2 with
  | .ok (conflict, _) => if shown x then conflict else none
  | .error _ => none

end Lines

section Report

variable (client : Client) (hash : HashOrder)

end Report

section Printing

variable {client : Client} {path text : Str} {status : ClientStatus} {x : Reported}
  {conflict : Option Conflict}

def textOf (lines : List ReportLine) : Str := printed (lines.map ReportLine.text)

theorem textOf_append (lines more : List ReportLine) :
    textOf (lines ++ more) = textOf lines ++ textOf more := by
  rw [textOf, List.map_append, printed, List.flatMap_append]
  rfl

end Printing

section Loops

variable {client : Client} {hash : HashOrder} {sb m sb' : Baton} {x : Reported}
  {xs ys : List Reported} {ds es : List (Str × Reported)} {lines more : List ReportLine}
  {e : Option SvnError} {name : Str} {names : List Str}

def counter (sb : Baton) : Conflict → Nat
  | .text => sb.textConflicts
  | .prop => sb.propConflicts
  | .tree => sb.treeConflicts

/-- What goes on between two batons: these statuses are printed as these lines,
and those are put aside. -/
structure Prints (client : Client) (sb : Baton) (xs : List Reported) (ds : List (Str × Reported))
    (lines : List ReportLine) (sb' : Baton) : Prop where
  stdout : sb'.stdout = sb.stdout ++ textOf lines
  cached : sb'.cachedChangelists = pushAll sb.cachedChangelists ds
  counter : ∀ k, counter sb k < 2 ^ 32 →
    counter sb' k = (counter sb k + xs.countP fun x => conflictOf client x = some k) % 2 ^ 32

theorem Prints.refl (client : Client) (sb : Baton) : Prints client sb [] [] [] sb where
  stdout := (List.append_nil _).symm
  cached := rfl
  counter _ hk := (Nat.mod_eq_of_lt hk).symm

theorem Prints.trans (h : Prints client sb xs ds lines m) (hmore : Prints client m ys es more sb') :
    Prints client sb (xs ++ ys) (ds ++ es) (lines ++ more) sb' where
  stdout := by rw [hmore.stdout, h.stdout, textOf_append, List.append_assoc]
  cached := by rw [hmore.cached, h.cached, pushAll, pushAll, pushAll, List.foldl_append]
  counter k hk := by
    have hm := h.counter k hk
    have hlt : ReportLines.counter m k < 2 ^ 32 := hm ▸ Nat.mod_lt _ (by decide)
    rw [hmore.counter k hlt, hm, List.countP_append]
    omega

end Loops

section Entries

variable {client : Client} {hash : HashOrder} {xs : List Reported}

/-- A working copy without conflicts. -/
def quietClient : Client where
  conflictedP3 _ := .ok (false, false, false)
  treeConflictDescription _ := .error .other
  preNgStatusData _ := .ok ()
  makeRelpath abspath := abspath

end Entries

end SvnCurses.ReportLines
