import Mathlib.Data.List.Basic
import Mathlib.Logic.Equiv.Fin.Basic

namespace SvnCurses.Curses

/-- A pad, which does not scroll, with the cell that is written next. -/
structure Pad (lines columns : Nat) where
  cells : Fin lines → Fin columns → Char
  y : Fin lines
  x : Fin columns

variable {lines columns : Nat} {p : Pad lines columns} {t u : List Char} {c : Char}

namespace Pad

/-- A pad as it is created. -/
def blank (hy : 0 < lines) (hx : 0 < columns) : Pad lines columns where
  cells := fun _ _ => ' '
  y := ⟨0, hy⟩
  x := ⟨0, hx⟩

def wclear (p : Pad lines columns) : Pad lines columns := blank p.y.pos p.x.pos

def store (p : Pad lines columns) (c : Char) : Pad lines columns :=
  { p with cells := fun y x => if y = p.y ∧ x = p.x then c else p.cells y x }

/-- A character that takes up one cell is written. Whether there was a cell to
go on to is the second result. -/
def waddch (p : Pad lines columns) (c : Char) : Pad lines columns × Bool :=
  if hx : p.x + 1 < columns then ({ p.store c with x := ⟨p.x + 1, hx⟩ }, true)
  else if hy : p.y + 1 < lines then
    ({ p.store c with y := ⟨p.y + 1, hy⟩, x := ⟨0, p.x.pos⟩ }, true)
  else (p.store c, false)

/-- Such characters are written up to the first one that fails. -/
def waddstr (p : Pad lines columns) : List Char → Pad lines columns
  | [] => p
  | c :: t => if (p.waddch c).2 then (p.waddch c).1.waddstr t else (p.waddch c).1

def line (p : Pad lines columns) (y : Fin lines) : List Char := List.ofFn (p.cells y)

end Pad

open Pad

section Reading

/-- The number of a cell in reading order. -/
def place (y : Fin lines) (x : Fin columns) : Fin (lines * columns) := finProdFinEquiv (y, x)

theorem place_val (y : Fin lines) (x : Fin columns) : (place y x).val = x + columns * y := rfl

theorem place_inj {y y' : Fin lines} {x x' : Fin columns} :
    (place y x).val = place y' x' ↔ y = y' ∧ x = x' := by
  rw [Fin.val_inj, place, place, finProdFinEquiv.injective.eq_iff, Prod.mk.injEq]

theorem place_last {y : Fin lines} {x : Fin columns} :
    (place y x).val + 1 = lines * columns ↔ y.val + 1 = lines ∧ x.val + 1 = columns := by
  have hy := y.isLt
  have hx := x.isLt
  constructor
  · intro h
    rw [place_val] at h
    constructor
    · by_contra hne
      have hroom : y + 1 < lines := by omega
      have hbelow := (place ⟨y + 1, hroom⟩ x).isLt
      rw [place_val, Nat.mul_succ] at hbelow
      omega
    · by_contra hne
      have hroom : x + 1 < columns := by omega
      have hright := (place y ⟨x + 1, hroom⟩).isLt
      rw [place_val] at hright
      simp only at hright
      omega
  · rintro ⟨hlast, hend⟩
    have hall : lines * columns = columns * y + columns := by
      rw [Nat.mul_comm, ← Nat.mul_succ]
      exact congrArg (columns * ·) hlast.symm
    rw [place_val]
    omega

/-- What the pad shows in reading order, up to the next cell, or in all cells. -/
structure Holds (p : Pad lines columns) (t : List Char) : Prop where
  length : t.length ≤ lines * columns
  position : (place p.y p.x).val = min t.length (lines * columns - 1)
  cells : ∀ y x, p.cells y x = t.getD (place y x) ' '

/-- The text after some more is written. Once all cells are taken it goes to the
last one. -/
def overwrite (size : Nat) (t u : List Char) : List Char := (t.take (size - 1) ++ u).take size

theorem overwrite_fits {size : Nat} (h : t.length + u.length ≤ size) (hu : u ≠ []) :
    overwrite size t u = t ++ u := by
  have hpos := List.length_pos_iff.mpr hu
  rw [overwrite, List.take_of_length_le (show t.length ≤ size - 1 by omega),
    List.take_of_length_le (by rwa [List.length_append])]

theorem overwrite_cons {size : Nat} (h : t.length + 1 < size) (c : Char) (u : List Char) :
    overwrite size (t.take (size - 1) ++ [c]) u = overwrite size t (c :: u) := by
  have hlen : (t ++ [c]).length ≤ size - 1 := by
    rw [List.length_append, List.length_singleton]
    omega
  rw [overwrite, overwrite, List.take_of_length_le (show t.length ≤ size - 1 by omega),
    List.take_of_length_le hlen, List.append_assoc, List.singleton_append]

theorem overwrite_full {size : Nat} (hsize : 0 < size) (h : size ≤ t.length + 1) (c : Char)
    (u : List Char) : overwrite size t (c :: u) = t.take (size - 1) ++ [c] := by
  have hlen : (t.take (size - 1) ++ [c]).length = size := by
    rw [List.length_append, List.length_take, List.length_singleton]
    omega
  rw [overwrite, List.append_cons, List.take_left' hlen]

theorem wclear_holds (p : Pad lines columns) : Holds p.wclear [] where
  length := Nat.zero_le _
  position := by simp [place_val, wclear, blank]
  cells := fun _ _ => rfl

theorem getD_store {size k m : Nat} (hk : k = min t.length (size - 1)) (hm : m < size) :
    (t.take (size - 1) ++ [c]).getD m ' ' = if m = k then c else t.getD m ' ' := by
  have hlen : (t.take (size - 1)).length = k := by
    rw [List.length_take]
    omega
  simp only [List.getD_eq_getElem?_getD]
  split
  · next h =>
    rw [List.getElem?_append_right (by omega), hlen, h, Nat.sub_self]
    rfl
  · by_cases h : m < k
    · rw [List.getElem?_append_left (by omega), List.getElem?_take_of_lt (by omega)]
    · have hend : (t.take (size - 1) ++ [c]).length ≤ m := by
        rw [List.length_append, hlen, List.length_singleton]
        omega
      rw [List.getElem?_eq_none hend, List.getElem?_eq_none (by omega)]

theorem store_cells (h : Holds p t) (c : Char) (y : Fin lines) (x : Fin columns) :
    (p.store c).cells y x = (t.take (lines * columns - 1) ++ [c]).getD (place y x) ' ' := by
  rw [getD_store h.position (place y x).isLt]
  simp only [store, place_inj, h.cells]

/-- The character comes after the text, or in the place of its last character, and
the next one fails if it has no cell of its own. -/
theorem waddch_holds (h : Holds p t) (c : Char) :
    Holds (p.waddch c).1 (t.take (lines * columns - 1) ++ [c]) ∧
      ((p.waddch c).2 = true ↔ t.length + 1 < lines * columns) := by
  have hpos := h.position
  have hlt := (place p.y p.x).isLt
  have hlen : (t.take (lines * columns - 1) ++ [c]).length = (place p.y p.x).val + 1 := by
    rw [List.length_append, List.length_take, List.length_singleton]
    omega
  have hcells := store_cells h c
  rw [place_val] at hpos hlt hlen
  unfold waddch
  split
  · next hx =>
    have hnext := (place p.y ⟨p.x + 1, hx⟩).isLt
    rw [place_val] at hnext
    refine ⟨⟨by omega, ?_, hcells⟩, iff_of_true rfl ?_⟩
    · change (p.x + 1) + columns * p.y = _
      simp only at hnext
      omega
    · simp only at hnext
      omega
  · next hx =>
    have hcol := p.x.isLt
    split
    · next hy =>
      have hnext := (place ⟨p.y + 1, hy⟩ (⟨0, p.x.pos⟩ : Fin columns)).isLt
      rw [place_val, Nat.mul_succ] at hnext
      refine ⟨⟨by omega, ?_, hcells⟩, iff_of_true rfl ?_⟩
      · change 0 + columns * (p.y + 1) = _
        rw [Nat.mul_succ]
        simp only at hnext
        omega
      · simp only at hnext
        omega
    · next hy =>
      have hrow := p.y.isLt
      have hlast := place_last.mpr (show p.y.val + 1 = lines ∧ p.x.val + 1 = columns by omega)
      rw [place_val] at hlast
      refine ⟨⟨by omega, ?_, hcells⟩, iff_of_false Bool.false_ne_true (by omega)⟩
      change p.x + columns * p.y = _
      omega

theorem waddstr_holds (h : Holds p t) (hu : u ≠ []) :
    Holds (p.waddstr u) (overwrite (lines * columns) t u) := by
  obtain ⟨c, u, rfl⟩ := List.exists_cons_of_ne_nil hu
  induction u generalizing p t c with
  | nil =>
    have hstep := (waddch_holds h c).1
    have hfit : overwrite (lines * columns) t [c] = t.take (lines * columns - 1) ++ [c] :=
      List.take_of_length_le hstep.length
    rw [hfit]
    simpa only [waddstr, ite_self] using hstep
  | cons d u ih =>
    obtain ⟨hstep, hmore⟩ := waddch_holds h c
    rw [waddstr]
    split
    · next hok =>
      rw [← overwrite_cons (hmore.mp hok)]
      exact ih hstep d (List.cons_ne_nil d u)
    · next hfail =>
      have hfull := Nat.not_lt.mp (mt hmore.mpr hfail)
      rw [overwrite_full (place p.y p.x).pos hfull]
      exact hstep

theorem waddstrs_holds {texts : List (List Char)} (h : Holds p t) (hne : ∀ u ∈ texts, u ≠ []) :
    Holds (texts.foldl waddstr p) (texts.foldl (overwrite (lines * columns)) t) := by
  induction texts generalizing p t with
  | nil => exact h
  | cons u texts ih =>
    obtain ⟨hu, hne⟩ := List.forall_mem_cons.mp hne
    exact ih (waddstr_holds h hu) hne

end Reading

section Lines

variable {texts : List (List Char)}

theorem overwrites_fit {size : Nat} (hne : ∀ u ∈ texts, u ≠ [])
    (h : t.length + texts.flatten.length ≤ size) :
    texts.foldl (overwrite size) t = t ++ texts.flatten := by
  induction texts generalizing t with
  | nil => simp
  | cons u texts ih =>
    obtain ⟨hu, hne⟩ := List.forall_mem_cons.mp hne
    rw [List.flatten_cons, List.length_append] at h
    rw [List.foldl_cons, overwrite_fits (by omega) hu, ih hne, List.flatten_cons,
      List.append_assoc]
    rw [List.length_append]
    omega

/-- Texts after the last cell has been taken leave nothing but the first character
of the last of them. -/
theorem overwrites_full {size : Nat} (hsize : 0 < size) (hne : ∀ u ∈ texts, u ≠ [])
    (h : t.length = size) {last : List Char} (hlast : texts.getLast? = some (c :: last)) :
    texts.foldl (overwrite size) t = t.take (size - 1) ++ [c] := by
  induction texts generalizing t with
  | nil => cases hlast
  | cons u texts ih =>
    obtain ⟨hu, hrest⟩ := List.forall_mem_cons.mp hne
    obtain ⟨d, v, rfl⟩ := List.exists_cons_of_ne_nil hu
    rw [List.foldl_cons, overwrite_full hsize (by omega)]
    have hkept : (t.take (size - 1)).length = size - 1 := by
      rw [List.length_take]
      omega
    have hlen : (t.take (size - 1) ++ [d]).length = size := by
      rw [List.length_append, hkept, List.length_singleton]
      omega
    cases texts with
    | nil =>
      obtain rfl := (List.cons.inj (Option.some.inj hlast)).1
      rfl
    | cons next texts =>
      rw [List.getLast?_cons_cons] at hlast
      rw [ih hrest hlen hlast, List.take_left' hkept]

theorem texts_ne_nil (hw : ∀ u ∈ texts, u.length = columns) (x : Fin columns) :
    ∀ u ∈ texts, u ≠ [] := by
  intro u hu
  apply List.ne_nil_of_length_pos
  rw [hw u hu]
  exact x.pos

theorem flatten_length (hw : ∀ u ∈ texts, u.length = columns) :
    texts.flatten.length = texts.length * columns := by
  rw [List.length_flatten, List.map_congr_left hw, List.map_const', List.sum_replicate_nat]

theorem flatten_getElem (hw : ∀ u ∈ texts, u.length = columns) {k j : Nat} (hj : j < columns) :
    texts.flatten[j + columns * k]? = texts[k]?.bind (·[j]?) := by
  induction texts generalizing k with
  | nil => simp
  | cons u texts ih =>
    obtain ⟨hu, hw⟩ := List.forall_mem_cons.mp hw
    rw [List.flatten_cons]
    cases k with
    | zero =>
      rw [Nat.mul_zero, Nat.add_zero, List.getElem?_append_left (by omega)]
      rfl
    | succ k =>
      rw [List.getElem?_append_right (by rw [Nat.mul_succ]; omega), hu, List.getElem?_cons_succ,
        ← ih hw]
      congr 1
      rw [Nat.mul_succ]
      omega

/-- Lines that fit are shown one below the other. -/
theorem cells_of_lines (p : Pad lines columns) (hw : ∀ u ∈ texts, u.length = columns)
    (hfit : texts.length ≤ lines) (y : Fin lines) (x : Fin columns) :
    (texts.foldl waddstr p.wclear).cells y x = (texts[y.val]?.bind (·[x.val]?)).getD ' ' := by
  have hne := texts_ne_nil hw x
  have hlen : texts.flatten.length ≤ lines * columns := by
    rw [flatten_length hw]
    exact Nat.mul_le_mul_right columns hfit
  have h := waddstrs_holds (wclear_holds p) hne
  rw [overwrites_fit hne (by simpa using hlen), List.nil_append] at h
  rw [h.cells, List.getD_eq_getElem?_getD, place_val, flatten_getElem hw x.isLt]

/-- Of lines that do not fit, those after the last line of the pad all write
their first character to its last cell. -/
theorem cells_of_more_lines (p : Pad lines columns) (hw : ∀ u ∈ texts, u.length = columns)
    (hmore : lines < texts.length) (y : Fin lines) (x : Fin columns) :
    (texts.foldl waddstr p.wclear).cells y x =
      if (place y x).val + 1 = lines * columns then (texts.getLast?.bind (·.head?)).getD ' '
      else (texts[y.val]?.bind (·[x.val]?)).getD ' ' := by
  have hne := texts_ne_nil hw x
  have hsize : 0 < lines * columns := (place y x).pos
  have htake : ∀ u ∈ texts.take lines, u.length = columns := fun u hu =>
    hw u (List.mem_of_mem_take hu)
  have hlen : (texts.take lines).flatten.length = lines * columns := by
    rw [flatten_length htake, List.length_take, Nat.min_eq_left hmore.le]
  obtain ⟨c, last, hlast⟩ : ∃ c last, texts.getLast? = some (c :: last) := by
    have htexts : texts ≠ [] := List.ne_nil_of_length_pos (by omega)
    obtain ⟨c, last, hcons⟩ := List.exists_cons_of_ne_nil (hne _ (List.getLast_mem htexts))
    exact ⟨c, last, by rw [List.getLast?_eq_some_getLast htexts, hcons]⟩
  have hdrop : (texts.drop lines).getLast? = some (c :: last) := by
    rw [List.getLast?_drop, if_neg (by omega), hlast]
  have h := waddstrs_holds (wclear_holds p) hne
  have htext : texts.foldl (overwrite (lines * columns)) [] =
      (texts.take lines).flatten.take (lines * columns - 1) ++ [c] := by
    conv_lhs => rw [← List.take_append_drop lines texts]
    rw [List.foldl_append, overwrites_fit (fun u hu => hne u (List.mem_of_mem_take hu))
      (by simpa using hlen.le), List.nil_append,
      overwrites_full hsize (fun u hu => hne u (List.mem_of_mem_drop hu)) hlen hdrop]
  rw [htext] at h
  have hlt := (place y x).isLt
  rw [h.cells, getD_store (k := lines * columns - 1) (by omega) hlt, hlast]
  split
  · rw [if_pos (by omega)]
    rfl
  · rw [if_neg (by omega), List.getD_eq_getElem?_getD, place_val, flatten_getElem htake x.isLt,
      List.getElem?_take_of_lt y.isLt]

theorem line_eq_iff (hw : ∀ u ∈ texts, u.length = columns) (p : Pad lines columns)
    (y : Fin lines) : p.line y = texts[y.val]?.getD (List.replicate columns ' ') ↔
      ∀ x : Fin columns, p.cells y x = (texts[y.val]?.bind (·[x.val]?)).getD ' ' := by
  have hrow : ∀ u : List Char, u.length = columns →
      (p.line y = u ↔ ∀ x : Fin columns, p.cells y x = u.getD x ' ') := by
    intro u hlen
    constructor
    · rintro rfl x
      simp [line]
    · intro h
      apply List.ext_getElem (by rw [line, List.length_ofFn, hlen])
      intro k _ hk
      simp [line, h, hk]
  cases h : texts[y.val]? with
  | none =>
    rw [Option.getD_none, hrow _ (List.length_replicate ..)]
    simp
  | some u =>
    rw [Option.getD_some, hrow _ (hw u (List.mem_of_getElem? h))]
    simp

/-- Each line of the pad shows its own text exactly when all fit, or the last text
begins with the character that belongs in the last cell. -/
theorem lines_shown_iff (p : Pad lines columns) (hw : ∀ u ∈ texts, u.length = columns) :
    (∀ y, (texts.foldl waddstr p.wclear).line y =
        texts[y.val]?.getD (List.replicate columns ' ')) ↔
      texts.length ≤ lines ∨
        texts.getLast?.bind (·.head?) = texts[lines - 1]?.bind (·.getLast?) := by
  simp only [line_eq_iff hw]
  by_cases hfit : texts.length ≤ lines
  · exact iff_of_true (cells_of_lines p hw hfit) (.inl hfit)
  have hmore : lines < texts.length := by omega
  have hy := p.y.isLt
  have hx := p.x.isLt
  have htexts : texts ≠ [] := List.ne_nil_of_length_pos (by omega)
  obtain ⟨last, hlast⟩ : ∃ last, texts.getLast? = some last :=
    ⟨_, List.getLast?_eq_some_getLast htexts⟩
  obtain ⟨edge, hedge⟩ : ∃ edge, texts[lines - 1]? = some edge :=
    ⟨_, List.getElem?_eq_getElem (by omega)⟩
  have hlen := hw edge (List.mem_of_getElem? hedge)
  have hwidth := hw last (List.mem_of_getLast? hlast)
  have hcorner : last.head? = edge.getLast? ↔
      last.head?.getD ' ' = edge[columns - 1]?.getD ' ' := by
    rw [List.getLast?_eq_getElem?, hlen, List.head?_eq_getElem?,
      List.getElem?_eq_getElem (by omega), List.getElem?_eq_getElem (by omega)]
    simp
  simp only [cells_of_more_lines p hw hmore, place_last, hfit, false_or, hlast, hedge,
    Option.bind_some, hcorner]
  constructor
  · intro h
    have hcell := h ⟨lines - 1, by omega⟩ ⟨columns - 1, by omega⟩
    rw [if_pos (by simp only; omega), hedge] at hcell
    exact hcell
  · intro h y x
    split
    · next hend =>
      have hbottom : y.val = lines - 1 := by omega
      have hright : x.val = columns - 1 := by omega
      rw [hbottom, hright, hedge]
      exact h
    · rfl

end Lines

end SvnCurses.Curses
