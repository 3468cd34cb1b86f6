import SvnCurses.Curses
import SvnCurses.Formats
import SvnCurses.Picture

namespace SvnCurses.PadLines

open Cpp ProgramState Draw Interaction KeyEvent Round Rows Session Play Picture Drawing Formats
open Curses
open Curses.Pad

/-- The characters that take up one cell each. -/
structure Locale where
  single : Char → Bool
  blank : single ' ' = true
  null : single '\x00' = false

def ascii : Locale := ⟨fun c => ' ' ≤ c && c ≤ '~', by decide, by decide⟩

abbrev height (s : State) : Nat := (s.maxY - bottomWindowSize).toNat

abbrev width (s : State) : Nat := s.maxX.toNat

theorem width_eq {s : State} (hx : 0 ≤ s.maxX) : (width s : Int) = s.maxX :=
  Int.toNat_of_nonneg hx

variable {s : State} {l : Locale} {row item text : Str} {d : Drawn} {rows : List Drawn} {k : Nat}

section Column

/-- The character of a row in a column of the pad. -/
def columnOf (s : State) (row : Str) (k : Nat) : Char :=
  if row ∈ s.selectedItems ∧ 8 ≤ k then
    if k = 8 then ' ' else row.getD (k - 1) ' '
  else row.getD k ' '

theorem padded_getD (maxX : Int) (row : Str) (k : Nat) :
    (padded maxX row).getD k ' ' = row.getD k ' ' := by
  rw [padded, List.getD_eq_getElem?_getD, List.getD_eq_getElem?_getD]
  by_cases h : k < row.length
  · rw [List.getElem?_append_left h]
  · rw [List.getElem?_append_right (by omega), List.getElem?_replicate,
      List.getElem?_eq_none (by omega)]
    split <;> rfl

theorem shifted_getD (h : shifted item = .ok text) (hk : k < item.length) :
    text.getD k ' ' =
      if 8 ≤ k then if k = 8 then ' ' else item.getD (k - 1) ' ' else item.getD k ' ' := by
  obtain ⟨t, ht, he⟩ := bind_ok.mp h
  obtain ⟨hpos, _, rfl⟩ := insertAt_ok.mp ht
  cases he
  have hlen : (item.take 8).length = 8 := by
    rw [List.length_take]
    omega
  have hroom : k < (item.take 8 ++ [' '] ++ item.drop 8).length - 1 := by
    simp only [List.length_append, hlen, List.length_singleton, List.length_drop]
    omega
  simp only [List.getD_eq_getElem?_getD]
  rw [List.getElem?_dropLast, if_pos hroom, List.append_assoc]
  split
  · next hafter =>
    rw [List.getElem?_append_right (by omega), hlen]
    split
    · next hat =>
      rw [hat]
      rfl
    · next hat =>
      rw [List.getElem?_append_right (by rw [List.length_singleton]; omega), List.getElem?_drop,
        List.length_singleton]
      congr 2
      omega
  · next hbefore =>
    rw [List.getElem?_append_left (by omega), List.getElem?_take_of_lt (by omega)]

/-- The text of a row fills the columns of the pad. -/
theorem drawn_column (hmax : s.maxX ≤ intMax) (hfit : (row.length : Int) ≤ s.maxX)
    (hd : DrawnFor s.selectedItems s.cursorPosition s.maxX row d) (hk : k < width s) :
    d.text[k]? = some (columnOf s row k) := by
  unfold width at hk
  have hlen := padded_length hmax hfit
  have htext := drawn_length hmax hfit hd
  obtain ⟨_, hshift, hsame⟩ := drawItem_ok hd
  have hcolumn : d.text.getD k ' ' = columnOf s row k := by
    unfold columnOf
    by_cases hsel : row ∈ s.selectedItems
    · rw [shifted_getD (hshift (decide_eq_true hsel)) (by omega)]
      simp only [hsel, true_and, padded_getD]
    · rw [hsame (decide_eq_false hsel), padded_getD, if_neg (fun h => hsel h.1)]
  rw [← hcolumn, List.getD_eq_getElem?_getD, List.getElem?_eq_getElem (by omega)]
  rfl

theorem columnOf_zero (s : State) (row : Str) : columnOf s row 0 = row.headD ' ' := by
  rw [columnOf, if_neg (by omega)]
  cases row <;> rfl

end Column

section Stream

variable {lines columns : Nat} {pad : Pad lines columns}

/-- What `wprintw` does with a string on the pad. Nothing is assumed of characters
that take up more than a cell of their own, or none. -/
def wprintw (l : Locale) (pad : Pad lines columns) (text : Str) : Option (Pad lines columns) :=
  (formatted text).bind fun t => if t.all l.single then some (pad.waddstr t) else none

/-- The pad after `printAllStatus` has cleared it and printed the rows. -/
def printedOn (l : Locale) (pad : Pad lines columns) (rows : List Drawn) :
    Option (Pad lines columns) :=
  rows.foldlM (fun pad d => wprintw l pad d.text) pad.wclear

/-- A text that is printed as it is, one cell for each character. -/
def Plain (l : Locale) (text : Str) : Prop := ∀ c ∈ text, l.single c = true ∧ c ≠ '%'

instance (l : Locale) (text : Str) : Decidable (Plain l text) :=
  decidable_of_iff (text.all fun c => l.single c && c != '%') (by simp [Plain])

theorem wprintw_plain (h : Plain l text) : wprintw l pad text = some (pad.waddstr text) := by
  have hliteral : Literal text := by
    constructor
    · exact fun hmem => (h _ hmem).2 rfl
    · intro hmem
      have hsingle := (h _ hmem).1
      rw [l.null] at hsingle
      cases hsingle
  rw [wprintw, formatted_self_iff.mpr hliteral, Option.bind_some,
    if_pos (List.all_eq_true.mpr fun c hc => (h c hc).1)]

theorem printed_plain (h : ∀ d ∈ rows, Plain l d.text) :
    printedOn l pad rows = some ((rows.map (·.text)).foldl waddstr pad.wclear) := by
  unfold printedOn
  generalize pad.wclear = start
  induction rows generalizing start with
  | nil => rfl
  | cons d rows ih =>
    obtain ⟨hd, hrows⟩ := List.forall_mem_cons.mp h
    rw [List.foldlM_cons, wprintw_plain hd, List.map_cons, List.foldl_cons, ← ih hrows]
    rfl

theorem drawn_plain (hmax : s.maxX ≤ intMax) (hfit : (row.length : Int) ≤ s.maxX)
    (hrow : Plain l row) (hd : DrawnFor s.selectedItems s.cursorPosition s.maxX row d) :
    Plain l d.text := by
  intro c hc
  by_cases hblank : c = ' '
  · subst hblank
    exact ⟨l.blank, by decide⟩
  · have hpart := (mem_drawn hblank hmax hfit hd).mp hc
    unfold drawnPart at hpart
    split at hpart
    · exact hrow c (List.mem_of_mem_take hpart)
    · exact hrow c hpart

end Stream

section Screen

/-- Each line of the pad shows what was drawn for the row that belongs on it, and
the lines after the last row are blank. -/
def ShowsRows (s : State) (rows : List Drawn) (pad : Pad (height s) (width s)) : Prop :=
  ∀ y : Fin (height s),
    (s.padPos + y < s.statusItems.length →
      ∃ d, rows[y.val]? = some d ∧ d.row = s.padPos + y ∧ pad.line y = d.text) ∧
    (s.statusItems.length ≤ s.padPos + y → pad.line y = List.replicate (width s) ' ')

/-- The last row begins with the character that the row on the last line of the
pad ends with. -/
def CornerAgrees (s : State) : Prop :=
  ∃ last edge, s.statusItems.getLast? = some last ∧
    s.statusItems[(s.padPos + height s - 1).toNat]? = some edge ∧
    last.headD ' ' = columnOf s edge (width s - 1)

/-- The rows that a redraw gives, with the stored ones they are drawn for. -/
structure Redrawn (s : State) (rows : List Drawn) : Prop where
  length : (rows.length : Int) = s.statusItems.length - s.padPos
  drawn : ∀ (k : Nat) (d : Drawn), rows[k]? = some d → d.row = s.padPos + k ∧
    ∃ row, s.statusItems[s.padPos.toNat + k]? = some row ∧
      DrawnFor s.selectedItems s.cursorPosition s.maxX row d

theorem redrawn (hpos : 0 ≤ s.padPos) (hmax : s.padPos ≤ intMax)
    (hlt : s.padPos < s.statusItems.length) {s' : State}
    (hd : printAllStatus s = .ok (s', rows)) : Redrawn s rows := by
  obtain ⟨items, hdraw, _⟩ := (printAllStatus_ok hpos hmax).mp hd
  obtain ⟨hall, hnumbers⟩ := drawRows_drawn hdraw
  have hlen := List.Forall₂.length_eq hall
  rw [List.length_drop] at hlen
  refine ⟨by omega, fun k d hk => ?_⟩
  obtain ⟨hk', rfl⟩ := List.getElem?_eq_some_iff.mp hk
  have hstored : k < (s.statusItems.drop s.padPos.toNat).length := by
    rw [List.length_drop]
    omega
  constructor
  · have hnumber := congrArg (·[k]?) hnumbers
    simp only [List.getElem?_map, hk, List.getElem?_range hstored, Option.map_some,
      Option.some.injEq] at hnumber
    exact hnumber
  · refine ⟨_, ?_, List.Forall₂.get hall hstored hk'⟩
    rw [← List.getElem?_drop, List.getElem?_eq_getElem hstored, List.get_eq_getElem]

variable {pad : Pad (height s) (width s)}

theorem showsRows_iff (hr : Redrawn s rows) :
    ShowsRows s rows pad ↔ ∀ y : Fin (height s),
      pad.line y = (rows.map (·.text))[y.val]?.getD (List.replicate (width s) ' ') := by
  have hlen := hr.length
  apply forall_congr'
  intro y
  rw [List.getElem?_map]
  cases h : rows[y.val]? with
  | none =>
    have hout := List.getElem?_eq_none_iff.mp h
    constructor
    · intro hshows
      exact hshows.2 (by omega)
    · intro hline
      exact ⟨fun hin => by omega, fun _ => hline⟩
  | some d =>
    obtain ⟨hin, _⟩ := List.getElem?_eq_some_iff.mp h
    have hrow := (hr.drawn y d h).1
    constructor
    · intro hshows
      obtain ⟨e, he, _, hline⟩ := hshows.1 (by omega)
      cases he
      exact hline
    · intro hline
      exact ⟨fun _ => ⟨d, rfl, hrow, hline⟩, fun hout => by omega⟩

/-- Each row is drawn as wide as the pad, column by column. -/
theorem Redrawn.columns (hr : Redrawn s rows) (hmax : s.maxX ≤ intMax) (hx : 0 ≤ s.maxX)
    (hfit : ∀ row ∈ s.statusItems, (row.length : Int) ≤ s.maxX) (hk : k < rows.length) :
    ∃ d row, rows[k]? = some d ∧ s.statusItems[s.padPos.toNat + k]? = some row ∧
      d.text.length = width s ∧ ∀ j < width s, d.text[j]? = some (columnOf s row j) := by
  obtain ⟨_, row, hrow, hdrawn⟩ := hr.drawn k _ (List.getElem?_eq_getElem hk)
  have hstored := hfit row (List.mem_of_getElem? hrow)
  have hwidth := width_eq hx
  have hsize := drawn_length hmax hstored hdrawn
  exact ⟨_, row, List.getElem?_eq_getElem hk, hrow, by omega,
    fun j hj => drawn_column hmax hstored hdrawn hj⟩

theorem corner_iff (hr : Redrawn s rows) (hpos : 0 ≤ s.padPos) (hmax : s.maxX ≤ intMax)
    (hx : 8 ≤ s.maxX) (hy : 0 < height s) (hmore : height s < rows.length)
    (hfit : ∀ row ∈ s.statusItems, (row.length : Int) ≤ s.maxX) :
    (rows.map (·.text)).getLast?.bind (·.head?) =
        (rows.map (·.text))[height s - 1]?.bind (·.getLast?) ↔ CornerAgrees s := by
  have hlen := hr.length
  have hwidth := width_eq (show 0 ≤ s.maxX by omega)
  obtain ⟨d, last, hd, hlast, _, hcolumns⟩ :=
    hr.columns hmax (by omega) hfit (show rows.length - 1 < rows.length by omega)
  obtain ⟨e, edge, he, hedge, hsize, hcolumns'⟩ :=
    hr.columns hmax (by omega) hfit (show height s - 1 < rows.length by omega)
  have hfirst := hcolumns 0 (by omega)
  have hright := hcolumns' (width s - 1) (by omega)
  have hend : s.padPos.toNat + (rows.length - 1) = s.statusItems.length - 1 := by omega
  have hbottom : s.padPos.toNat + (height s - 1) = (s.padPos + height s - 1).toNat := by omega
  rw [hend, ← List.getLast?_eq_getElem?] at hlast
  rw [hbottom] at hedge
  rw [columnOf_zero, ← List.head?_eq_getElem?] at hfirst
  rw [← hsize, ← List.getLast?_eq_getElem?, hsize] at hright
  rw [List.getLast?_map, List.getLast?_eq_getElem?, hd, List.getElem?_map, he, Option.map_some,
    Option.map_some, Option.bind_some, Option.bind_some, hfirst, hright, Option.some_inj]
  constructor
  · intro h
    exact ⟨last, edge, hlast, hedge, h⟩
  · rintro ⟨last', edge', hlast', hedge', h⟩
    cases hlast.symm.trans hlast'
    cases hedge.symm.trans hedge'
    exact h

/-- A redraw of plain rows is printed, and shown when all rows fit. -/
theorem printed_shows (pad : Pad (height s) (width s)) (hs : Sized s) (hx : 8 ≤ s.maxX)
    (hpos : 0 ≤ s.padPos) (hlt : s.padPos < s.statusItems.length)
    (hfit : ∀ row ∈ s.statusItems, (row.length : Int) ≤ s.maxX)
    (hplain : ∀ row ∈ s.statusItems, Plain l row) {s' : State}
    (hd : printAllStatus s = .ok (s', rows)) :
    ∃ pad', printedOn l pad rows = some pad' ∧ (ShowsRows s rows pad' ↔
      (s.statusItems.length : Int) ≤ s.padPos + height s ∨ CornerAgrees s) := by
  have hr := redrawn hpos hs.padPos.2 hlt hd
  have hlen := hr.length
  have hwidth := width_eq (show 0 ≤ s.maxX by omega)
  have hdrawn : ∀ d ∈ rows, d.text.length = width s ∧ Plain l d.text := by
    intro d hmem
    obtain ⟨k, hk⟩ := List.getElem?_of_mem hmem
    obtain ⟨_, row, hrow, hdrawn⟩ := hr.drawn k d hk
    have hstored := List.mem_of_getElem? hrow
    have hsize := drawn_length hs.maxX (hfit row hstored) hdrawn
    exact ⟨by omega, drawn_plain hs.maxX (hfit row hstored) (hplain row hstored) hdrawn⟩
  have htexts : ∀ u ∈ rows.map (·.text), u.length = width s := by
    intro u hu
    obtain ⟨d, hmem, rfl⟩ := List.mem_map.mp hu
    exact (hdrawn d hmem).1
  refine ⟨_, printed_plain fun d hmem => (hdrawn d hmem).2, ?_⟩
  rw [showsRows_iff hr, lines_shown_iff pad htexts, List.length_map]
  by_cases hall : rows.length ≤ height s
  · exact iff_of_true (.inl hall) (.inl (by omega))
  · rw [corner_iff hr hpos hs.maxX hx pad.y.pos (by omega) hfit]
    exact or_congr (by omega) Iff.rfl

/-- Which redraws of plain rows show each row on its own line. -/
theorem pad_shows_iff (l : Locale) (hs : Sized s) (hx : 8 ≤ s.maxX)
    (hcursor : 0 ≤ s.padPos ∧ s.padPos ≤ s.cursorPosition ∧
      s.cursorPosition < s.statusItems.length)
    (hfit : ∀ row ∈ s.statusItems, (row.length : Int) ≤ s.maxX)
    (hplain : ∀ row ∈ s.statusItems, Plain l row) (pad : Pad (height s) (width s)) :
    (∃ s' rows pad', printAllStatus s = .ok (s', rows) ∧ printedOn l pad rows = some pad' ∧
      ShowsRows s rows pad') ↔
    (s.statusItems.length : Int) ≤ intMax ∧
      ((s.statusItems.length : Int) ≤ s.padPos + height s ∨ CornerAgrees s) := by
  obtain ⟨hpos, hle, hlast⟩ := hcursor
  have hlt : s.padPos < s.statusItems.length := by omega
  have hmax := hs.maxX
  have hdrawable : ∀ row ∈ s.statusItems.drop s.padPos.toNat,
      Drawable s.selectedItems s.maxX row := by
    intro row hmem
    have hrow := hfit row (List.mem_of_mem_drop hmem)
    simp only [intMax] at hmax
    exact (drawable_iff (by omega) hs.maxX (by omega)).mpr ⟨hrow, fun _ => hx⟩
  have hdone := printAllStatus_iff hs (by omega)
  constructor
  · rintro ⟨s', rows, pad', hd, hprinted, hshows⟩
    obtain ⟨_, hprinted', hiff⟩ := printed_shows pad hs hx hpos hlt hfit hplain hd
    cases hprinted.symm.trans hprinted'
    exact ⟨(hdone.mp ⟨_, hd⟩ hpos).1, hiff.mp hshows⟩
  · rintro ⟨hint, hrest⟩
    obtain ⟨⟨s', rows⟩, hd⟩ := hdone.mpr fun _ => ⟨hint, hdrawable⟩
    obtain ⟨pad', hprinted, hiff⟩ := printed_shows pad hs hx hpos hlt hfit hplain hd
    exact ⟨s', rows, pad', hd, hprinted, hiff.mpr hrest⟩

theorem pad_shows_short : ∃ s' rows pad, printAllStatus shortLine = .ok (s', rows) ∧
    printedOn ascii (blank (by decide) (by decide)) rows = some pad ∧
      ShowsRows shortLine rows pad :=
  (pad_shows_iff ascii ⟨by decide, by decide, by decide, by decide⟩ (by decide) (by decide)
    (by decide) (by decide) (blank (by decide) (by decide))).mpr ⟨by decide, .inl (by decide)⟩

/-- Three lines on a pad of two. -/
def threeLines : State := loaded (opening narrowTerminal) "? a\n? b\n? c".toList

def blankPad : Pad (height threeLines) (width threeLines) := blank (by decide) (by decide)

/-- The third line leaves its first character on the pad. -/
theorem pad_overwritten :
    (Sized threeLines ∧ 8 ≤ threeLines.maxX ∧ (0 ≤ threeLines.padPos ∧
      threeLines.padPos ≤ threeLines.cursorPosition ∧
      threeLines.cursorPosition < threeLines.statusItems.length) ∧
      (∀ row ∈ threeLines.statusItems, (row.length : Int) ≤ threeLines.maxX) ∧
      ∀ row ∈ threeLines.statusItems, Plain ascii row) ∧
    ∃ tr s' rows pad next,
      Session (fun _ _ => True) narrowTerminal tr (.say (.pad threeLines s' rows) next) ∧
      printedOn ascii blankPad rows = some pad ∧ pad.line ⟨1, by decide⟩ = "? b        ?".toList ∧
      ¬ ShowsRows threeLines rows pad := by
  refine ⟨⟨⟨by decide, by decide, by decide, by decide⟩, by decide, by decide, by decide,
    by decide⟩, ?_⟩
  obtain ⟨tr, m, s', rows, next, h, rfl, hpad, hrow⟩ := play_draws (fun _ _ => True) narrowTerminal
    1 [.inr "? a\n? b\n? c\n".toList] (fun m _ rows => m = threeLines ∧
      (printedOn ascii blankPad rows).map (·.line ⟨1, by decide⟩) = some "? b        ?".toList ∧
      rows[1]?.map (·.text) = some "? b         ".toList) (by decide +kernel)
  obtain ⟨pad, hprinted, hline⟩ := Option.map_eq_some_iff.mp hpad
  obtain ⟨d, hd, htext⟩ := Option.map_eq_some_iff.mp hrow
  refine ⟨tr, s', rows, pad, next, h, hprinted, hline, fun hshows => ?_⟩
  obtain ⟨e, he, _, hshown⟩ := (hshows ⟨1, by decide⟩).1 (by decide)
  cases hd.symm.trans he
  rw [hline, htext] at hshown
  revert hshown
  decide

end Screen

end SvnCurses.PadLines
