import Mathlib.Data.List.Nodup
import Mathlib.Logic.Function.Basic

namespace SvnCurses.Buckets

variable {κ α : Type} [DecidableEq κ]

/-- A table with an array for each of its keys, in which no key is twice. -/
structure Table (κ α : Type) where
  keys : List κ
  nodup : keys.Nodup
  arrays : κ → List α

namespace Table

def empty : Table κ α := ⟨[], List.nodup_nil, fun _ => []⟩

def gets (m : Table κ α) (k : κ) : Option (List α) := if k ∈ m.keys then some (m.arrays k) else none

def sets (m : Table κ α) (k : κ) (xs : List α) : Table κ α :=
  if h : k ∈ m.keys then { m with arrays := Function.update m.arrays k xs }
  else
    { keys := m.keys ++ [k]
      nodup := List.nodup_append.mpr ⟨m.nodup, List.nodup_singleton k, fun a ha b hb => by
        rw [List.mem_singleton.mp hb]
        exact fun he => h (he ▸ ha)⟩
      arrays := Function.update m.arrays k xs }

/-- Put an element at the end of the array of its key. -/
def push (m : Table κ α) (k : κ) (x : α) : Table κ α :=
  match m.gets k with
  | none => m.sets k [x]
  | some xs => m.sets k (xs ++ [x])

variable {m : Table κ α} {k k' : κ} {x : α} {xs : List α}

end Table

section Grouping

open Table

variable {m : Table κ α} {k : κ}

def pushAll (m : Table κ α) (xs : List (κ × α)) : Table κ α :=
  xs.foldl (fun m x => m.push x.1 x.2) m

end Grouping

end SvnCurses.Buckets
