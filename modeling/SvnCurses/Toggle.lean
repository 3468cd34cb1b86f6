import Mathlib.Data.List.Dedup
import Mathlib.Data.List.Induction
import Mathlib.Data.List.Nodup

namespace SvnCurses.Toggle

variable {α : Type} [DecidableEq α]

/-- What is selected, oldest selection first. Nothing is selected twice. -/
structure Selection (α : Type) where
  items : List α
  nodup : items.Nodup

def Selection.empty : Selection α := ⟨[], List.nodup_nil⟩

/-- Take the element out if it is selected, else select it last. -/
def Selection.toggle (s : Selection α) (x : α) : Selection α :=
  if h : x ∈ s.items then ⟨s.items.filter (· ≠ x), s.nodup.filter _⟩
  else ⟨s.items ++ [x], List.nodup_append.mpr
    ⟨s.nodup, List.nodup_singleton x, fun a ha b hb => by
      rw [List.mem_singleton.mp hb]
      exact fun he => h (he ▸ ha)⟩⟩

def presses (xs : List α) : Selection α := xs.foldl Selection.toggle .empty

theorem toggle_of_mem {s : Selection α} {x : α} (h : x ∈ s.items) :
    (s.toggle x).items = s.items.filter (· ≠ x) := by
  simp [Selection.toggle, h]

theorem toggle_of_not_mem {s : Selection α} {x : α} (h : x ∉ s.items) :
    (s.toggle x).items = s.items ++ [x] := by
  simp [Selection.toggle, h]

theorem presses_concat (xs : List α) (x : α) : presses (xs ++ [x]) = (presses xs).toggle x := by
  simp [presses]

theorem dedup_concat (xs : List α) (x : α) :
    (xs ++ [x]).dedup = xs.dedup.filter (· ≠ x) ++ [x] := by
  induction xs with
  | nil => simp
  | cons y ys ih =>
    rw [List.cons_append]
    by_cases hy : y ∈ ys
    · rw [List.dedup_cons_of_mem hy, List.dedup_cons_of_mem (by simp [hy]), ih]
    · rw [List.dedup_cons_of_notMem hy]
      by_cases hx : y = x
      · subst hx
        rw [List.dedup_cons_of_mem (by simp), ih, List.filter_cons_of_neg (by simp)]
      · rw [List.dedup_cons_of_notMem (by simp [hy, hx]), ih,
          List.filter_cons_of_pos (by simp [hx])]
        rfl

/-- The last occurrence of the first is further from the end. -/
def LastBefore (xs : List α) (x y : α) : Prop := xs.reverse.idxOf y < xs.reverse.idxOf x

theorem dedup_pairwise (xs : List α) : xs.dedup.Pairwise (LastBefore xs) := by
  induction xs using List.reverseRecOn with
  | nil => simp
  | append_singleton xs x ih =>
    have hlast : ∀ y, y ≠ x → (xs ++ [x]).reverse.idxOf y = xs.reverse.idxOf y + 1 := by
      intro y hy
      rw [List.reverse_append, List.reverse_singleton, List.singleton_append,
        List.idxOf_cons_ne _ (Ne.symm hy)]
    have hself : (xs ++ [x]).reverse.idxOf x = 0 := by simp
    have hne : ∀ y ∈ xs.dedup.filter (· ≠ x), y ≠ x := fun y hy => by
      simpa using List.of_mem_filter hy
    rw [dedup_concat, List.pairwise_append]
    refine ⟨?_, List.pairwise_singleton _ _, ?_⟩
    · refine (ih.filter _).imp_of_mem fun {y z} hy hz h => ?_
      simp only [LastBefore] at h ⊢
      rw [hlast y (hne y hy), hlast z (hne z hz)]
      omega
    · intro y hy z hz
      obtain rfl := List.mem_singleton.mp hz
      simp only [LastBefore]
      rw [hlast y (hne y hy), hself]
      omega

/-- After any presses exactly the elements pressed an odd number of times are
selected, in the order of their last press. -/
theorem presses_items (xs : List α) :
    (presses xs).items = xs.dedup.filter (fun x => xs.count x % 2 = 1) := by
  induction xs using List.reverseRecOn with
  | nil => rfl
  | append_singleton xs x ih =>
    have hmem : x ∈ (presses xs).items ↔ xs.count x % 2 = 1 := by
      rw [ih, List.mem_filter, List.mem_dedup]
      constructor
      · simp
      · intro h
        refine ⟨List.count_pos_iff.mp (by omega), by simpa using h⟩
    have hcount : ∀ y, y ≠ x → (xs ++ [x]).count y = xs.count y := by
      intro y hy
      simp [List.count_append, Ne.symm hy]
    have hrest : (xs.dedup.filter (· ≠ x)).filter (fun y => (xs ++ [x]).count y % 2 = 1) =
        (xs.dedup.filter (fun y => xs.count y % 2 = 1)).filter (· ≠ x) := by
      rw [List.filter_filter, List.filter_filter]
      apply List.filter_congr
      intro y _
      by_cases hy : y = x
      · simp [hy]
      · simp [hcount y hy, hy]
    have hself : (xs ++ [x]).count x = xs.count x + 1 := by simp
    rw [presses_concat, dedup_concat, List.filter_append, hrest, ← ih]
    by_cases hx : x ∈ (presses xs).items
    · rw [toggle_of_mem hx, List.filter_singleton, hself]
      have := hmem.mp hx
      simp [show ¬ (xs.count x + 1) % 2 = 1 by omega]
    · rw [toggle_of_not_mem hx, List.filter_singleton, hself]
      have := mt hmem.mpr hx
      have hkeep : (presses xs).items.filter (· ≠ x) = (presses xs).items := by
        apply List.filter_eq_self.mpr
        intro y hy
        simpa using fun he : y = x => hx (he ▸ hy)
      rw [hkeep]
      simp [show (xs.count x + 1) % 2 = 1 by omega]

def pressCount (xs : List α) (x : α) : Nat := xs.count x

theorem mem_presses (xs : List α) (x : α) :
    x ∈ (presses xs).items ↔ pressCount xs x % 2 = 1 := by
  rw [presses_items, List.mem_filter, List.mem_dedup]
  constructor
  · exact fun h => of_decide_eq_true h.2
  · intro h
    have hpos : 0 < xs.count x := by
      simp only [pressCount] at h
      omega
    exact ⟨List.count_pos_iff.mp hpos, decide_eq_true h⟩

theorem presses_pairwise (xs : List α) : (presses xs).items.Pairwise (LastBefore xs) := by
  rw [presses_items]
  exact (dedup_pairwise xs).filter _

end SvnCurses.Toggle
