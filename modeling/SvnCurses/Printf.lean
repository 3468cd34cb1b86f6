import Mathlib.Data.List.Basic

namespace SvnCurses.Printf

/-- The expansion of a format with no further arguments. Two percent signs stand
for one. Any other conversion takes an argument that is not there, and a percent
sign at the end begins none: then the expansion is undefined. -/
def expand : List Char → Option (List Char)
  | [] => some []
  | '%' :: '%' :: t => (expand t).map ('%' :: ·)
  | '%' :: _ => none
  | c :: t => (expand t).map (c :: ·)

variable {c : Char} {t u : List Char}

theorem expand_cons (hc : c ≠ '%') (t : List Char) : expand (c :: t) = (expand t).map (c :: ·) := by
  rw [expand]
  · simp [hc]
  · simp [hc]

/-- A format without a percent sign is expanded to itself. -/
theorem expand_literal (h : '%' ∉ t) : expand t = some t := by
  induction t with
  | nil => rfl
  | cons c t ih =>
    have hc : c ≠ '%' := fun he => h (by simp [he])
    have ht : '%' ∉ t := fun hm => h (List.mem_cons_of_mem c hm)
    rw [expand_cons hc, ih ht]
    rfl

/-- An expansion loses a character for each conversion. -/
theorem expand_length (h : expand t = some u) :
    u.length ≤ t.length ∧ (u.length = t.length → '%' ∉ t) := by
  induction t using expand.induct generalizing u with
  | case1 =>
    cases h
    simp
  | case2 t ih =>
    obtain ⟨v, hv, rfl⟩ := Option.map_eq_some_iff.mp h
    have hlen := (ih hv).1
    simp only [List.length_cons]
    exact ⟨by omega, fun he => by omega⟩
  | case3 t ht => simp [expand] at h
  | case4 c t h₁ h₂ ih =>
    have hc : c ≠ '%' := fun he => h₂ he
    rw [expand_cons hc] at h
    obtain ⟨v, hv, rfl⟩ := Option.map_eq_some_iff.mp h
    obtain ⟨hlen, hnone⟩ := ih hv
    simp only [List.length_cons]
    refine ⟨by omega, fun he => ?_⟩
    rw [List.mem_cons, not_or]
    exact ⟨Ne.symm hc, hnone (by omega)⟩

theorem expand_self_iff : expand t = some t ↔ '%' ∉ t :=
  ⟨fun h => (expand_length h).2 rfl, expand_literal⟩

end SvnCurses.Printf
