import SvnCurses.Play

namespace SvnCurses.Drawing

open Cpp ProgramState Draw Interaction KeyEvent Round Rows Session Play

/-- What the types of the members promise. -/
structure Sized (s : State) : Prop where
  maxX : s.maxX ≤ intMax
  padPos : intMin ≤ s.padPos ∧ s.padPos ≤ intMax
  rows : s.statusItems.length < 2 ^ 63
  strings : ∀ row ∈ s.statusItems, row.length ≤ maxSize

/-- A row that can be drawn. Its length is compared with the width of the screen
in 32 bits, as the difference is narrowed to an `int`. -/
structure Drawable (selected : List Str) (maxX : Int) (row : Str) : Prop where
  narrow : (maxX - row.length) % 2 ^ 32 < 2 ^ 31
  column : row ∈ selected → 8 ≤ maxX ∨ 8 ≤ row.length
  room : row.length + (maxX - row.length) % 2 ^ 32 + (if row ∈ selected then 1 else 0) ≤ maxSize

section Row

variable {selected : List Str} {maxX cursor i : Int} {row item : Str} {rows : List Str}

/-- For lines of less than 2^31 characters nothing wraps around. -/
theorem drawable_iff (hx : 1 ≤ maxX) (hmax : maxX ≤ intMax) (hrow : row.length < 2 ^ 31) :
    Drawable selected maxX row ↔ row.length ≤ maxX ∧ (row ∈ selected → 8 ≤ maxX) := by
  simp only [intMax] at hmax
  constructor
  · rintro ⟨hnarrow, hcolumn, _⟩
    refine ⟨by omega, fun hsel => ?_⟩
    have := hcolumn hsel
    omega
  · rintro ⟨hle, hsel⟩
    refine ⟨by omega, fun h => .inl (hsel h), ?_⟩
    unfold maxSize
    split <;> omega

theorem shifted_iff :
    (∃ text, shifted item = .ok text) ↔ 8 ≤ item.length ∧ item.length < maxSize := by
  constructor
  · rintro ⟨text, h⟩
    obtain ⟨t, ht, _⟩ := bind_ok.mp h
    obtain ⟨hpos, hroom, _⟩ := insertAt_ok.mp ht
    simp only [List.length_singleton] at hroom
    omega
  · rintro ⟨hpos, hroom⟩
    have hfits : [' '].length ≤ maxSize - item.length := by
      rw [List.length_singleton]
      omega
    exact ⟨_, bind_ok.mpr ⟨_, insertAt_ok.mpr ⟨hpos, hfits, rfl⟩, rfl⟩⟩

theorem drawItem_iff {b u : Bool} (hne : item ≠ []) :
    (∃ drawn, drawItem b u item = .ok drawn) ↔
      (b = true → 8 ≤ item.length ∧ item.length < maxSize) := by
  rw [← shifted_iff]
  cases b with
  | false =>
    obtain ⟨c, t, rfl⟩ := List.exists_cons_of_ne_nil hne
    cases u <;> simp [drawItem, front, bind_ok]
  | true => cases u <;> simp [drawItem, bind_ok]

theorem padSize_nonneg_iff (maxX : Int) (row : Str) :
    0 ≤ padSize maxX row ↔ (maxX - row.length) % 2 ^ 32 < 2 ^ 31 := by
  rw [padSize_eq, Int.bmod]
  split <;> omega

theorem padSize_of_nonneg (h : 0 ≤ padSize maxX row) :
    padSize maxX row = (maxX - row.length) % 2 ^ 32 := by
  rw [padSize_eq, Int.bmod] at h ⊢
  split at h <;> omega

theorem padded_size (h : 0 ≤ padSize maxX row) :
    ((padded maxX row).length : Int) = row.length + (maxX - row.length) % 2 ^ 32 := by
  rw [← padSize_of_nonneg h, padded, List.length_append, List.length_replicate]
  omega

theorem padded_ne_nil (hx : 1 ≤ maxX) (hmax : maxX ≤ intMax) (hpos : 0 ≤ padSize maxX row) :
    padded maxX row ≠ [] := by
  simp only [intMax] at hmax
  have hnarrow := (padSize_nonneg_iff maxX row).mp hpos
  intro hnil
  have hsize := padded_size hpos
  rw [hnil, List.length_nil] at hsize
  omega

/-- What the loop does for one row comes to its end exactly for a drawable row. -/
theorem row_iff (hx : 1 ≤ maxX) (hmax : maxX ≤ intMax) (hrow : row.length ≤ maxSize) :
    (∃ item drawn, append row (padSize maxX row) ' ' = .ok item ∧
      drawItem (decide (row ∈ selected)) (decide (i = cursor)) item = .ok drawn) ↔
    Drawable selected maxX row := by
  simp only [intMax] at hmax
  have hint := padSize_int maxX row
  have happend := append_iff (c := ' ') hrow hint.1 hint.2
  have hne := @padded_ne_nil maxX row hx (by simpa only [intMax] using hmax)
  constructor
  · rintro ⟨item, drawn, hitem, hdrawn⟩
    obtain ⟨hpos, rfl⟩ := append_padded hitem
    have hroom := (happend.mp ⟨_, hitem⟩).2
    have hsize := padded_size hpos
    have hdraw := (drawItem_iff (hne hpos)).mp ⟨drawn, hdrawn⟩
    have hnarrow := (padSize_nonneg_iff maxX row).mp hpos
    rw [padSize_of_nonneg hpos] at hroom
    refine ⟨hnarrow, fun hsel => ?_, ?_⟩
    · have := (hdraw (decide_eq_true hsel)).1
      omega
    · split
      · next hsel =>
        have := (hdraw (decide_eq_true hsel)).2
        omega
      · omega
  · rintro ⟨hnarrow, hcolumn, hroom⟩
    have hpos := (padSize_nonneg_iff maxX row).mpr hnarrow
    have hsize := padded_size hpos
    obtain ⟨item, hitem⟩ := happend.mpr ⟨hpos, by
      rw [padSize_of_nonneg hpos]
      split at hroom <;> omega⟩
    obtain ⟨_, rfl⟩ := append_padded hitem
    have hdraw : decide (row ∈ selected) = true →
        8 ≤ (padded maxX row).length ∧ (padded maxX row).length < maxSize := by
      intro hsel
      have hmem := of_decide_eq_true hsel
      have hwide := hcolumn hmem
      rw [if_pos hmem] at hroom
      omega
    obtain ⟨drawn, hdrawn⟩ := (drawItem_iff (u := decide (i = cursor)) (hne hpos)).mpr hdraw
    exact ⟨_, drawn, hitem, hdrawn⟩

theorem drawRows_iff (hx : 1 ≤ maxX) (hmax : maxX ≤ intMax) (hi : 0 ≤ i)
    (hrows : ∀ row ∈ rows, row.length ≤ maxSize) :
    (∃ r, drawRows selected cursor maxX i rows = .ok r) ↔
      (∀ row ∈ rows, Drawable selected maxX row) ∧ (rows = [] ∨ i + rows.length ≤ intMax) := by
  induction rows generalizing i with
  | nil => simp [drawRows]
  | cons row rows ih =>
    have hrow := @row_iff selected maxX cursor i row hx hmax (hrows row (by simp))
    have hrest := @ih (i + 1) (by omega) fun r hr => hrows r (by simp [hr])
    constructor
    · rintro ⟨r, h⟩
      obtain ⟨item, drawn, rest, hitem, hdrawn, hnext, _, hmore, _⟩ := drawRows_cons.mp h
      obtain ⟨hall, hlen⟩ := hrest.mp ⟨rest, hmore⟩
      refine ⟨List.forall_mem_cons.mpr ⟨hrow.mp ⟨item, drawn, hitem, hdrawn⟩, hall⟩, .inr ?_⟩
      rw [List.length_cons]
      obtain rfl | hlen := hlen
      · simpa using hnext
      · omega
    · rintro ⟨hall, hlen⟩
      obtain ⟨hfirst, hall⟩ := List.forall_mem_cons.mp hall
      obtain ⟨item, drawn, hitem, hdrawn⟩ := hrow.mpr hfirst
      have hlen := hlen.resolve_left (List.cons_ne_nil _ _)
      rw [List.length_cons] at hlen
      obtain ⟨rest, hmore⟩ := hrest.mpr ⟨hall, .inr (by omega)⟩
      have hlow : intMin ≤ i + 1 := by
        simp only [intMin]
        omega
      exact ⟨_, drawRows_cons.mpr ⟨item, drawn, rest, hitem, hdrawn, by omega, hlow, hmore, rfl⟩⟩

end Row

section Screen

variable {s : State}

theorem printFrom_done {fuel : Nat} {i : Int} (h : ¬ toSize i < s.statusItems.length) :
    printFrom fuel s i = .ok (s, []) := by
  cases fuel with
  | zero => rfl
  | succ fuel => exact if_neg h

/-- A redraw comes to its end exactly when it draws nothing, or numbers its rows
with an `int` and can draw each of them. -/
theorem printAllStatus_iff (hs : Sized s) (hx : 1 ≤ s.maxX) :
    (∃ r, printAllStatus s = .ok r) ↔
      (0 ≤ s.padPos → (s.statusItems.length : Int) ≤ intMax ∧
        ∀ row ∈ s.statusItems.drop s.padPos.toNat, Drawable s.selectedItems s.maxX row) := by
  by_cases hi : 0 ≤ s.padPos
  · have hstrings : ∀ row ∈ s.statusItems.drop s.padPos.toNat, row.length ≤ maxSize :=
      fun row hrow => hs.strings row (List.mem_of_mem_drop hrow)
    have hdraw := @drawRows_iff s.selectedItems s.maxX s.cursorPosition s.padPos _ hx hs.maxX hi
      hstrings
    have hok : (∃ r, printAllStatus s = .ok r) ↔ ∃ r, drawRows s.selectedItems s.cursorPosition
        s.maxX s.padPos (s.statusItems.drop s.padPos.toNat) = .ok r := by
      constructor
      · rintro ⟨⟨s', ds⟩, h⟩
        obtain ⟨items, h, _⟩ := (printAllStatus_ok hi hs.padPos.2).mp h
        exact ⟨_, h⟩
      · rintro ⟨⟨items, ds⟩, h⟩
        exact ⟨_, (printAllStatus_ok hi hs.padPos.2).mpr ⟨items, h, rfl⟩⟩
    have hpos := hs.padPos.2
    rw [hok, hdraw, List.drop_eq_nil_iff, List.length_drop]
    constructor
    · rintro ⟨hall, hlen⟩ _
      exact ⟨by omega, hall⟩
    · intro h
      exact ⟨(h hi).2, by have := (h hi).1; omega⟩
  · have hsize : ¬ toSize s.padPos < s.statusItems.length := by
      have hmin := hs.padPos.1
      have hrows := hs.rows
      simp only [intMin] at hmin
      have := toSize_of_neg (x := s.padPos) (by omega) (by omega)
      omega
    refine iff_of_true ⟨(s, []), ?_⟩ fun h => absurd h hi
    exact printFrom_done hsize

/-- The ways in which a redraw may not come to its end. -/
inductive Failure : Fault → Prop
  | length : Failure (.thrown .lengthError)
  | range : Failure (.thrown .outOfRange)
  | counter : Failure (.undefined .signedOverflow)

theorem append_failure {row : Str} {count : Int} {fault : Fault}
    (h : append row count ' ' = .error fault) : Failure fault := by
  unfold append at h
  split at h
  · cases h
    exact .length
  · cases h

theorem shifted_failure {item : Str} {fault : Fault} (h : shifted item = .error fault) :
    Failure fault := by
  obtain h | ⟨_, _, h⟩ := bind_error.mp h
  · unfold insertAt at h
    split_ifs at h
    · cases h
      exact .range
    · cases h
      exact .length
  · cases h

theorem drawItem_failure {b u : Bool} {item : Str} {fault : Fault} (hne : item ≠ [])
    (h : drawItem b u item = .error fault) : Failure fault := by
  obtain ⟨c, t, rfl⟩ := List.exists_cons_of_ne_nil hne
  cases b <;> cases u <;> simp only [drawItem, Bool.false_and, Bool.true_and, Bool.not_true,
    Bool.not_false, Bool.false_eq_true, ↓reduceIte, bind_error, front, reduceCtorEq, and_false,
    exists_false, or_false] at h
  · exact shifted_failure h
  · exact shifted_failure h

theorem row_failure {i : Int} {fault : Fault} (hx : 1 ≤ s.maxX) (hmax : s.maxX ≤ intMax)
    (hi : toSize i < s.statusItems.length) (h : printStatusWithColor s i = .error fault) :
    Failure fault := by
  have hrow : index s.statusItems i = .ok s.statusItems[toSize i] :=
    index_ok.mpr (List.getElem?_eq_getElem hi)
  obtain h | ⟨row, _, h⟩ := bind_error.mp h
  · rw [hrow] at h
    cases h
  obtain h | ⟨item, hitem, h⟩ := bind_error.mp h
  · exact append_failure h
  obtain h | ⟨_, _, h⟩ := bind_error.mp h
  · refine drawItem_failure ?_ h
    obtain ⟨hpos, rfl⟩ := append_padded hitem
    exact padded_ne_nil hx hmax hpos
  · cases h

theorem printFrom_failure {fuel : Nat} {i : Int} {fault : Fault} (hx : 1 ≤ s.maxX)
    (hmax : s.maxX ≤ intMax) (h : printFrom fuel s i = .error fault) : Failure fault := by
  induction fuel generalizing s i with
  | zero => cases h
  | succ fuel ih =>
    simp only [printFrom] at h
    split at h
    · next hi =>
      obtain h | ⟨⟨s', d⟩, hrow, h⟩ := bind_error.mp h
      · exact row_failure hx hmax hi h
      obtain h | ⟨next, _, h⟩ := bind_error.mp h
      · unfold checked at h
        split at h
        · cases h
        · cases h
          exact .counter
      obtain h | ⟨_, _, h⟩ := bind_error.mp h
      · obtain ⟨stored, rfl⟩ := printStatusWithColor_frame hrow
        exact @ih { s with statusItems := stored } next hx hmax h
      · cases h
    · cases h

/-- Which states are redrawn without an exception, and what else may happen. -/
theorem redraw_completes_iff (hs : Sized s) (hx : 1 ≤ s.maxX) :
    ((∃ r, printAllStatus s = .ok r) ↔
      (0 ≤ s.padPos → (s.statusItems.length : Int) ≤ intMax ∧
        ∀ row ∈ s.statusItems.drop s.padPos.toNat, Drawable s.selectedItems s.maxX row)) ∧
    ∀ fault, printAllStatus s = .error fault → Failure fault :=
  ⟨printAllStatus_iff hs hx, fun _ h => printFrom_failure hx hs.maxX h⟩

def shortLine : State := loaded (opening narrowTerminal) "? a".toList

def longLine : State := loaded (opening narrowTerminal) "?       a name".toList

theorem redraw_completes_short : ∃ r, printAllStatus shortLine = .ok r := by
  have hsized : Sized shortLine := ⟨by decide, by decide, by decide, by decide⟩
  have hrow : ∀ row ∈ shortLine.statusItems.drop shortLine.padPos.toNat,
      Drawable shortLine.selectedItems shortLine.maxX row := by
    intro row hmem
    obtain rfl := List.mem_singleton.mp hmem
    exact (drawable_iff (by decide) (by decide) (by decide)).mpr ⟨by decide, by decide⟩
  exact (redraw_completes_iff hsized (by decide)).1.mpr fun _ => ⟨by decide, hrow⟩

/-- A terminal that is narrower than the columns before a path. -/
def slimTerminal : Terminal := ⟨9, 6, by decide, by decide⟩

/-- A line that is longer than the screen ends the program, and so does a selected
row on a screen of six columns. -/
theorem redraw_throws :
    (1 ≤ longLine.maxX ∧ Sized longLine ∧
      printAllStatus longLine = .error (.thrown .lengthError)) ∧
    (∃ tr, Session (fun _ _ => True) narrowTerminal tr (.stop (.fault (.thrown .lengthError)))) ∧
    ∃ tr, Session (fun _ _ => True) slimTerminal tr (.stop (.fault (.thrown .outOfRange))) := by
  refine ⟨⟨by decide, ⟨by decide, by decide, by decide, by decide⟩, by decide +kernel⟩, ?_, ?_⟩
  · exact ⟨_, play_reaches _ narrowTerminal 1 [.inr "?       a name\n".toList] fun _ _ => trivial⟩
  · exact ⟨_, play_reaches _ slimTerminal 2 [.inr "? a\n".toList, .inl (key ' ')]
      fun _ _ => trivial⟩

end Screen

end SvnCurses.Drawing
