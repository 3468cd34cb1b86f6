import SvnCurses.Draw
import Mathlib.Data.List.Forall2

namespace SvnCurses.Rows

open Cpp ProgramState Draw

/-- A row as it is stored once it has been drawn. -/
def padded (maxX : Int) (row : Str) : Str := row ++ List.replicate (padSize maxX row).toNat ' '

theorem padSize_eq (maxX : Int) (row : Str) :
    padSize maxX row = Int.bmod (maxX - row.length) (2 ^ 32) := narrow_toSize _

theorem padSize_int (maxX : Int) (row : Str) :
    intMin ≤ padSize maxX row ∧ padSize maxX row ≤ intMax := by
  rw [padSize_eq]
  have hlow := Int.le_bmod (x := maxX - row.length) (m := 2 ^ 32) (by decide)
  have hhigh := Int.bmod_le (x := maxX - row.length) (m := 2 ^ 32) (by decide)
  simp only [intMin, intMax]
  omega

theorem padded_of_neg {maxX : Int} {row : Str} (h : padSize maxX row ≤ 0) :
    padded maxX row = row := by
  simp [padded, Int.toNat_of_nonpos h]

/-- What has been padded is not padded again. -/
theorem padSize_padded {maxX : Int} {row : Str} (h : 0 ≤ padSize maxX row) :
    padSize maxX (padded maxX row) = 0 := by
  have hlen : ((padded maxX row).length : Int) = row.length + padSize maxX row := by
    simp only [padded, List.length_append, List.length_replicate]
    omega
  rw [padSize_eq maxX (padded maxX row), hlen, padSize_eq maxX row]
  have hcancel : maxX - (row.length + Int.bmod (maxX - row.length) (2 ^ 32)) =
      (maxX - row.length) - Int.bmod (maxX - row.length) (2 ^ 32) := by ring
  rw [hcancel, Int.sub_bmod_bmod, Int.sub_self, Int.zero_bmod]

theorem padded_padded (maxX : Int) (row : Str) :
    padded maxX (padded maxX row) = padded maxX row := by
  by_cases h : padSize maxX row ≤ 0
  · rw [padded_of_neg h, padded_of_neg h]
  · exact padded_of_neg (padSize_padded (by omega)).le

theorem padSize_of_le {maxX : Int} {row : Str} (hx : maxX ≤ intMax) (h : row.length ≤ maxX) :
    padSize maxX row = maxX - row.length := by
  rw [padSize_eq]
  refine bmod_of_inRange ?_ ?_ <;> simp only [intMin, intMax] at * <;> omega

theorem padded_length {maxX : Int} {row : Str} (hx : maxX ≤ intMax) (h : row.length ≤ maxX) :
    ((padded maxX row).length : Int) = maxX := by
  simp only [padded, List.length_append, List.length_replicate, padSize_of_le hx h]
  omega

/-- The loop of `printAllStatus` over the rows it draws, with what it reads of
the state. It gives the rows as stored afterwards. -/
def drawRows (selected : List Str) (cursor maxX : Int) :
    Int → List Str → Except Fault (List Str × List Drawn)
  | _, [] => .ok ([], [])
  | i, row :: rows => do
      let item ← append row (padSize maxX row) ' '
      let drawn ← drawItem (decide (row ∈ selected)) (decide (i = cursor)) item
      let next ← checked (i + 1)
      let rest ← drawRows selected cursor maxX next rows
      .ok (item :: rest.1, ⟨i, drawn.1, drawn.2⟩ :: rest.2)

theorem toSize_index {i : Int} (hi : 0 ≤ i) (hmax : i ≤ intMax) : toSize i = i.toNat := by
  have := toSize_of_nonneg hi (by simp only [intMax] at hmax; omega)
  omega

theorem take_set_succ {rows : List Str} {k : Nat} (h : k < rows.length) (item : Str) :
    (rows.set k item).take (k + 1) = rows.take k ++ [item] := by
  rw [List.take_succ_eq_append_getElem (by simpa using h), List.take_set_of_le (Nat.le_refl k)]
  simp

theorem drawRows_cons {selected : List Str} {cursor maxX i : Int} {row : Str} {rows : List Str}
    {r : List Str × List Drawn} :
    drawRows selected cursor maxX i (row :: rows) = .ok r ↔
      ∃ item drawn rest, append row (padSize maxX row) ' ' = .ok item ∧
        drawItem (decide (row ∈ selected)) (decide (i = cursor)) item = .ok drawn ∧
        i + 1 ≤ intMax ∧ intMin ≤ i + 1 ∧
        drawRows selected cursor maxX (i + 1) rows = .ok rest ∧
        r = (item :: rest.1, ⟨i, drawn.1, drawn.2⟩ :: rest.2) := by
  simp only [drawRows, bind_ok, checked_ok]
  constructor
  · rintro ⟨item, hitem, drawn, hdrawn, next, ⟨rfl, hlow, hhigh⟩, rest, hrest, hr⟩
    exact ⟨item, drawn, rest, hitem, hdrawn, hhigh, hlow, hrest, (Except.ok.inj hr).symm⟩
  · rintro ⟨item, drawn, rest, hitem, hdrawn, hhigh, hlow, hrest, rfl⟩
    exact ⟨item, hitem, drawn, hdrawn, _, ⟨rfl, hlow, hhigh⟩, rest, hrest, rfl⟩

theorem printStatusWithColor_ok {s : State} {i : Int} (hi : 0 ≤ i) (hmax : i ≤ intMax)
    (hk : i.toNat < s.statusItems.length) {r : State × Drawn} :
    printStatusWithColor s i = .ok r ↔
      ∃ item drawn,
        append s.statusItems[i.toNat] (padSize s.maxX s.statusItems[i.toNat]) ' ' = .ok item ∧
        drawItem (decide (s.statusItems[i.toNat] ∈ s.selectedItems)) (decide (i = s.cursorPosition))
          item = .ok drawn ∧
        r = ({ s with statusItems := s.statusItems.set i.toNat item }, ⟨i, drawn.1, drawn.2⟩) := by
  have hsize := toSize_index hi hmax
  have hrow : index s.statusItems i = .ok s.statusItems[i.toNat] := by
    rw [index_ok, hsize, List.getElem?_eq_getElem hk]
  simp only [printStatusWithColor, hrow, bind_ok, Except.ok.injEq, exists_eq_left', hsize]
  constructor
  · rintro ⟨item, hitem, drawn, hdrawn, rfl⟩
    exact ⟨item, drawn, hitem, hdrawn, rfl⟩
  · rintro ⟨item, drawn, hitem, hdrawn, rfl⟩
    exact ⟨item, hitem, drawn, hdrawn, rfl⟩

theorem drawRows_end {s s' : State} {i : Int} {ds : List Drawn}
    (h : s.statusItems.length ≤ i.toNat) :
    (∃ items, drawRows s.selectedItems s.cursorPosition s.maxX i (s.statusItems.drop i.toNat) =
        .ok (items, ds) ∧ s' = { s with statusItems := s.statusItems.take i.toNat ++ items }) ↔
      s' = s ∧ ds = [] := by
  rw [List.drop_eq_nil_of_le h, List.take_of_length_le h]
  simp only [drawRows, Except.ok.injEq, Prod.mk.injEq]
  constructor
  · rintro ⟨items, ⟨rfl, rfl⟩, rfl⟩
    simp
  · rintro ⟨rfl, rfl⟩
    exact ⟨[], ⟨rfl, rfl⟩, by simp⟩

/-- The loop rewrites the stored rows it draws and leaves the others. -/
theorem printFrom_ok {fuel : Nat} {s s' : State} {i : Int} {ds : List Drawn} (hi : 0 ≤ i)
    (hmax : i ≤ intMax) (hfuel : s.statusItems.length ≤ fuel + i.toNat) :
    printFrom fuel s i = .ok (s', ds) ↔
      ∃ items, drawRows s.selectedItems s.cursorPosition s.maxX i (s.statusItems.drop i.toNat) =
          .ok (items, ds) ∧
        s' = { s with statusItems := s.statusItems.take i.toNat ++ items } := by
  have hstop : ((.ok (s, []) : Except Fault _) = .ok (s', ds)) ↔ s' = s ∧ ds = [] := by
    simp [eq_comm]
  induction fuel generalizing s i ds with
  | zero => rw [drawRows_end (by omega), printFrom, hstop]
  | succ fuel ih =>
    have hsize := toSize_index hi hmax
    by_cases hlt : toSize i < s.statusItems.length
    · have hk : i.toNat < s.statusItems.length := hsize ▸ hlt
      have hk' : (i + 1).toNat = i.toNat + 1 := by omega
      have hrest : ∀ item ds, i + 1 ≤ intMax →
          (printFrom fuel { s with statusItems := s.statusItems.set i.toNat item } (i + 1) =
            .ok (s', ds) ↔ ∃ items, drawRows s.selectedItems s.cursorPosition s.maxX (i + 1)
              (s.statusItems.drop (i.toNat + 1)) = .ok (items, ds) ∧
            s' = { s with statusItems := s.statusItems.take i.toNat ++ item :: items }) := by
        intro item ds hmax'
        have hnext := @ih { s with statusItems := s.statusItems.set i.toNat item } (i + 1) ds
          (by omega) hmax' (by rw [List.length_set]; omega) (by simp [eq_comm])
        apply hnext.trans
        simp [hk', take_set_succ hk, List.drop_set_of_lt]
      rw [printFrom, if_pos hlt, List.drop_eq_getElem_cons hk]
      simp only [bind_ok, printStatusWithColor_ok hi hmax hk, checked_ok, drawRows_cons]
      constructor
      · rintro ⟨_, ⟨item, drawn, hitem, hdrawn, rfl⟩, _, ⟨rfl, hlow, hhigh⟩, ⟨s₂, rest⟩, hfrom, hr⟩
        obtain ⟨rfl, rfl⟩ := Prod.mk.inj (Except.ok.inj hr)
        obtain ⟨items, hitems, rfl⟩ := (hrest item rest hhigh).mp hfrom
        exact ⟨_, ⟨item, drawn, _, hitem, hdrawn, hhigh, hlow, hitems, rfl⟩, rfl⟩
      · rintro ⟨_, ⟨item, drawn, ⟨items, rest⟩, hitem, hdrawn, hhigh, hlow, hitems, he⟩, rfl⟩
        obtain ⟨rfl, rfl⟩ := Prod.mk.inj he
        exact ⟨_, ⟨item, drawn, hitem, hdrawn, rfl⟩, _, ⟨rfl, hlow, hhigh⟩, _,
          (hrest item rest hhigh).mpr ⟨items, hitems, rfl⟩, rfl⟩
    · rw [printFrom, if_neg hlt, drawRows_end (by omega), hstop]

theorem printAllStatus_ok {s s' : State} {ds : List Drawn} (hi : 0 ≤ s.padPos)
    (hmax : s.padPos ≤ intMax) :
    printAllStatus s = .ok (s', ds) ↔
      ∃ items, drawRows s.selectedItems s.cursorPosition s.maxX s.padPos
          (s.statusItems.drop s.padPos.toNat) = .ok (items, ds) ∧
        s' = { s with statusItems := s.statusItems.take s.padPos.toNat ++ items } :=
  printFrom_ok hi hmax (Nat.le_add_right _ _)

theorem printStatusWithColor_frame {s s' : State} {i : Int} {d : Drawn}
    (h : printStatusWithColor s i = .ok (s', d)) :
    ∃ stored, s' = { s with statusItems := stored } := by
  obtain ⟨row, _, h⟩ := bind_ok.mp h
  obtain ⟨item, _, h⟩ := bind_ok.mp h
  obtain ⟨drawn, _, h⟩ := bind_ok.mp h
  cases h
  exact ⟨_, rfl⟩

/-- Wherever it starts, the loop changes nothing but the stored rows. -/
theorem printFrom_frame {fuel : Nat} {s s' : State} {i : Int} {ds : List Drawn}
    (h : printFrom fuel s i = .ok (s', ds)) : ∃ stored, s' = { s with statusItems := stored } := by
  induction fuel generalizing s i ds with
  | zero =>
    cases h
    exact ⟨_, rfl⟩
  | succ fuel ih =>
    simp only [printFrom] at h
    split at h
    · obtain ⟨⟨s₁, d⟩, hrow, h⟩ := bind_ok.mp h
      obtain ⟨next, _, h⟩ := bind_ok.mp h
      obtain ⟨⟨s₂, rest⟩, hrest, h⟩ := bind_ok.mp h
      cases h
      obtain ⟨stored, rfl⟩ := printStatusWithColor_frame hrow
      obtain ⟨stored', rfl⟩ := ih hrest
      exact ⟨stored', rfl⟩
    · cases h
      exact ⟨_, rfl⟩

section DrawRows

variable {selected : List Str} {cursor maxX i : Int} {rows items : List Str} {ds : List Drawn}

theorem append_padded {row item : Str} (h : append row (padSize maxX row) ' ' = .ok item) :
    0 ≤ padSize maxX row ∧ item = padded maxX row :=
  append_ok (padSize_int maxX row).1 (padSize_int maxX row).2 h

/-- The rows that come out are padded. The counter of the loop did not overflow,
so the rows could be numbered with an `int`. -/
theorem drawRows_items (h : drawRows selected cursor maxX i rows = .ok (items, ds)) :
    items = rows.map (padded maxX) ∧ (rows = [] ∨ i + rows.length ≤ intMax) := by
  induction rows generalizing i items ds with
  | nil =>
    cases h
    exact ⟨rfl, .inl rfl⟩
  | cons row rows ih =>
    obtain ⟨item, drawn, rest, hitem, _, hmax, _, hrest, he⟩ := drawRows_cons.mp h
    obtain ⟨rfl, rfl⟩ := Prod.mk.inj he
    obtain ⟨hitems, hlen⟩ := ih hrest
    refine ⟨by rw [(append_padded hitem).2, hitems]; rfl, .inr ?_⟩
    obtain rfl | hlen := hlen
    · simpa using hmax
    · simp only [List.length_cons]
      omega

/-- What is drawn for a row, given the row before it was padded. -/
def DrawnFor (selected : List Str) (cursor maxX : Int) (row : Str) (d : Drawn) : Prop :=
  drawItem (decide (row ∈ selected)) (decide (d.row = cursor)) (padded maxX row) =
    .ok (d.form, d.text)

theorem drawRows_drawn (h : drawRows selected cursor maxX i rows = .ok (items, ds)) :
    List.Forall₂ (DrawnFor selected cursor maxX) rows ds ∧
      ds.map (·.row) = (List.range rows.length).map (fun k : Nat => i + k) := by
  induction rows generalizing i items ds with
  | nil =>
    cases h
    exact ⟨.nil, rfl⟩
  | cons row rows ih =>
    obtain ⟨item, drawn, rest, hitem, hdrawn, _, _, hrest, he⟩ := drawRows_cons.mp h
    obtain ⟨rfl, rfl⟩ := Prod.mk.inj he
    obtain ⟨hall, hrows⟩ := ih hrest
    rw [(append_padded hitem).2] at hdrawn
    refine ⟨.cons hdrawn hall, ?_⟩
    rw [List.map_cons, hrows, List.length_cons, List.range_succ_eq_map, List.map_cons, List.map_map]
    refine congrArg₂ List.cons (by simp) (List.map_congr_left fun k _ => ?_)
    simp only [Function.comp_apply, Nat.succ_eq_add_one]
    omega

theorem drawItem_ok {b u : Bool} {item text : Str} {form : Form}
    (h : drawItem b u item = .ok (form, text)) :
    form.isSelected = b ∧ (b = true → shifted item = .ok text) ∧ (b = false → text = item) := by
  cases b <;> cases u <;> simp only [drawItem, Bool.false_and, Bool.true_and, Bool.not_true,
    Bool.not_false, Bool.false_eq_true, ↓reduceIte, bind_ok, Except.ok.injEq, Prod.mk.injEq] at h
  · obtain ⟨c, _, rfl, rfl⟩ := h
    exact ⟨rfl, nofun, fun _ => rfl⟩
  · obtain ⟨rfl, rfl⟩ := h
    exact ⟨rfl, nofun, fun _ => rfl⟩
  · obtain ⟨t, ht, rfl, rfl⟩ := h
    exact ⟨rfl, fun _ => ht, nofun⟩
  · obtain ⟨t, ht, rfl, rfl⟩ := h
    exact ⟨rfl, fun _ => ht, nofun⟩

theorem shifted_length {item text : Str} (h : shifted item = .ok text) :
    text.length = item.length := by
  obtain ⟨t, ht, he⟩ := bind_ok.mp h
  obtain ⟨hlen, _, rfl⟩ := insertAt_ok.mp ht
  cases he
  simp
  omega

/-- Drawing the padded rows again draws the same, when no row's membership in
the selection was changed by its padding. -/
theorem drawRows_again (h : drawRows selected cursor maxX i rows = .ok (items, ds))
    (hsame : ∀ row ∈ rows, row ∈ selected ↔ padded maxX row ∈ selected) :
    drawRows selected cursor maxX i items = .ok (items, ds) := by
  induction rows generalizing i items ds with
  | nil =>
    cases h
    rfl
  | cons row rows ih =>
    obtain ⟨item, drawn, rest, hitem, hdrawn, hmax, hmin, hrest, he⟩ := drawRows_cons.mp h
    obtain ⟨rfl, rfl⟩ := Prod.mk.inj he
    obtain ⟨hpos, rfl⟩ := append_padded hitem
    refine drawRows_cons.mpr ⟨padded maxX row, drawn, rest, ?_, ?_, hmax, hmin,
      ih hrest (fun r hr => hsame r (by simp [hr])), rfl⟩
    · rw [padSize_padded hpos, append_zero]
    · rw [← decide_eq_decide.mpr (hsame row (by simp))]
      exact hdrawn

end DrawRows

section Storage

/-- Each stored row is its line as `svn st` printed it, or that line padded. -/
def Lines (s : State) : Prop :=
  List.Forall₂ (fun line row => row = line ∨ row = padded s.maxX line) s.allStatusItems
    s.statusItems

/-- The rows from the scroll offset on are padded. -/
def PaddedFrom (s : State) : Prop :=
  s.statusItems.drop s.padPos.toNat =
    (s.allStatusItems.drop s.padPos.toNat).map (padded s.maxX)

/-- Each selected text is a stored row in its padded form. -/
def Selectable (s : State) : Prop :=
  ∀ item ∈ s.selectedItems, item ∈ s.statusItems ∧ padded s.maxX item = item

variable {s s' : State} {ds : List Drawn}

theorem draw_state (hi : 0 ≤ s.padPos) (hmax : s.padPos ≤ intMax)
    (h : printAllStatus s = .ok (s', ds)) :
    s' = { s with statusItems := s.statusItems.take s.padPos.toNat ++
      (s.statusItems.drop s.padPos.toNat).map (padded s.maxX) } := by
  obtain ⟨items, hdraw, rfl⟩ := (printAllStatus_ok hi hmax).mp h
  rw [(drawRows_items hdraw).1]

theorem draw_length (hi : 0 ≤ s.padPos) (hmax : s.padPos ≤ intMax)
    (h : printAllStatus s = .ok (s', ds)) :
    s'.statusItems.length = s.statusItems.length := by
  rw [draw_state hi hmax h]
  simp
  omega

/-- A redraw that comes to its end has numbered all rows with an `int`. -/
theorem draw_rows_int (hi : 0 ≤ s.padPos) (hmax : s.padPos ≤ intMax)
    (h : printAllStatus s = .ok (s', ds)) : (s.statusItems.length : Int) ≤ intMax := by
  obtain ⟨items, hdraw, _⟩ := (printAllStatus_ok hi hmax).mp h
  obtain hnil | hlen := (drawRows_items hdraw).2
  · have hle := List.drop_eq_nil_iff.mp hnil
    omega
  · rw [List.length_drop] at hlen
    omega

theorem lines_draw {maxX : Int} {lines rows : List Str}
    (h : List.Forall₂ (fun line row => row = line ∨ row = padded maxX line) lines rows) (k : Nat) :
    List.Forall₂ (fun line row => row = line ∨ row = padded maxX line) lines
      (rows.take k ++ (rows.drop k).map (padded maxX)) := by
  induction h generalizing k with
  | nil => simp
  | @cons line row lines rows hrow _ ih =>
    cases k with
    | zero =>
      refine .cons (.inr ?_) (by simpa using ih 0)
      obtain rfl | rfl := hrow
      · rfl
      · exact padded_padded maxX line
    | succ k => exact .cons hrow (ih k)

theorem lines_map {maxX : Int} {lines rows : List Str}
    (h : List.Forall₂ (fun line row => row = line ∨ row = padded maxX line) lines rows) :
    rows.map (padded maxX) = lines.map (padded maxX) := by
  induction h with
  | nil => rfl
  | cons hrow _ ih =>
    rw [List.map_cons, List.map_cons, ih]
    obtain rfl | rfl := hrow
    · rfl
    · rw [padded_padded]

theorem Lines.draw (hs : Lines s) (hi : 0 ≤ s.padPos) (hmax : s.padPos ≤ intMax)
    (h : printAllStatus s = .ok (s', ds)) : Lines s' := by
  rw [draw_state hi hmax h]
  exact lines_draw hs _

theorem Lines.paddedFrom (hs : Lines s) (hi : 0 ≤ s.padPos) (hmax : s.padPos ≤ intMax)
    (h : printAllStatus s = .ok (s', ds)) : PaddedFrom s' := by
  rw [draw_state hi hmax h]
  simp only [PaddedFrom]
  by_cases hk : s.padPos.toNat ≤ s.statusItems.length
  · rw [List.drop_left' (by simpa using hk), List.map_drop, List.map_drop, lines_map hs]
  · have hlen : s.allStatusItems.length = s.statusItems.length := List.Forall₂.length_eq hs
    have hnil : s.statusItems.drop s.padPos.toNat = [] := List.drop_eq_nil_of_le (by omega)
    rw [hnil, List.map_nil, List.append_nil, List.take_of_length_le (by omega), hnil,
      List.drop_eq_nil_of_le (by omega), List.map_nil]

theorem Selectable.draw (hs : Selectable s) (hi : 0 ≤ s.padPos) (hmax : s.padPos ≤ intMax)
    (h : printAllStatus s = .ok (s', ds)) : Selectable s' := by
  rw [draw_state hi hmax h]
  intro item hitem
  obtain ⟨hmem, hpad⟩ := hs item hitem
  refine ⟨?_, hpad⟩
  rw [← List.take_append_drop s.padPos.toNat s.statusItems] at hmem
  obtain hmem | hmem := List.mem_append.mp hmem
  · exact List.mem_append_left _ hmem
  · exact List.mem_append_right _ (List.mem_map.mpr ⟨item, hmem, hpad⟩)

end Storage

end SvnCurses.Rows
