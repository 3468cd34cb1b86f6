import SvnCurses.Play

namespace SvnCurses.Picture

open Cpp ProgramState Draw Interaction KeyEvent Round Rows Cursor Session Viewport Play

/-- No line of a refresh is wider than the screen. -/
abbrev LinesFit (maxX : Int) : ∀ q, Answer q → Prop :=
  StatusPrints fun _ out => ∀ line ∈ linesOf out, (line.length : Int) ≤ maxX

/-- A line with blanks up to the width of the screen. -/
def widened (maxX : Int) (line : Str) : Str := line.rightpad maxX.toNat ' '

section Widened

variable {maxX : Int} {line row : Str}

theorem padded_widened (hx : maxX ≤ intMax) (h : (line.length : Int) ≤ maxX) :
    padded maxX line = widened maxX line := by
  have hsize : (padSize maxX line).toNat = maxX.toNat - line.length := by
    rw [padSize_of_le hx h]
    omega
  rw [padded, hsize, widened, List.rightpad]

theorem widened_length (h : (line.length : Int) ≤ maxX) :
    ((widened maxX line).length : Int) = maxX := by
  rw [widened, List.length_rightpad]
  omega

theorem widened_of_length (h : (row.length : Int) = maxX) : widened maxX row = row := by
  have hzero : maxX.toNat - row.length = 0 := by omega
  rw [widened, List.rightpad, hzero, List.replicate_zero, List.append_nil]

end Widened

section Storage

variable {env : ∀ q, Answer q → Prop} {t : Terminal} {tr : History} {p next : Prog State}
  {s m s' : State} {v : Window} {rows : List Drawn} {i : Nat} {line row : Str}

theorem allStatusItems_fit (hall : ∀ e ∈ tr, LinesFit t.maxX e.1 e.2)
    (hout : ∃ m out, lastRefresh tr = some (m, out) ∧ execResult out ≠ [] ∧
      s.allStatusItems = linesOf out) :
    ∀ line ∈ s.allStatusItems, (line.length : Int) ≤ t.maxX := by
  obtain ⟨m, out, hlast, _, hlines⟩ := hout
  rw [hlines]
  exact hall _ (lastRefresh_mem hlast) rfl

/-- How the rows are stored: next to the lines of the last refresh, each as it
was printed or widened, and widened from the scroll offset on. -/
structure Stored (tr : History) (s : State) : Prop where
  length : s.statusItems.length = s.allStatusItems.length
  fits : ∀ line ∈ s.allStatusItems, ((widened s.maxX line).length : Int) = s.maxX
  rows : ∀ (i : Nat) (line : Str), s.allStatusItems[i]? = some line →
    s.statusItems[i]? = some line ∨ s.statusItems[i]? = some (widened s.maxX line)
  below : ∀ (i : Nat) (line : Str), s.padPos ≤ (i : Int) → s.allStatusItems[i]? = some line →
    s.statusItems[i]? = some (widened s.maxX line)
  cursor : ∀ item, index s.statusItems s.cursorPosition = .ok item →
    ∃ line, s.allStatusItems[s.cursorPosition.toNat]? = some line ∧ item = widened s.maxX line
  output : ∃ m out, lastRefresh tr = some (m, out) ∧ s.allStatusItems = linesOf out

theorem row_of_line (hs : Lines s) (hi : s.allStatusItems[i]? = some line) :
    ∃ row, s.statusItems[i]? = some row ∧ (row = line ∨ row = padded s.maxX line) := by
  obtain ⟨hlen, hline⟩ := List.getElem?_eq_some_iff.mp hi
  have hlen' : i < s.statusItems.length := by
    rw [← List.Forall₂.length_eq hs]
    exact hlen
  refine ⟨s.statusItems[i], List.getElem?_eq_getElem hlen', ?_⟩
  rw [← hline]
  exact List.Forall₂.get hs hlen hlen'

theorem row_below (hs : PaddedFrom s) (hpos : 0 ≤ s.padPos) (hle : s.padPos ≤ (i : Int))
    (hi : s.allStatusItems[i]? = some line) : s.statusItems[i]? = some (padded s.maxX line) := by
  have hadd : s.padPos.toNat + (i - s.padPos.toNat) = i := by omega
  have hrow : (s.statusItems.drop s.padPos.toNat)[i - s.padPos.toNat]? =
      some (padded s.maxX line) := by
    rw [hs, List.getElem?_map, List.getElem?_drop, hadd, hi]
    rfl
  rwa [List.getElem?_drop, hadd] at hrow

theorem kept_stored (hk : Kept t tr s) (hall : ∀ e ∈ tr, LinesFit t.maxX e.1 e.2) :
    Stored tr s := by
  obtain ⟨v, hv, _⟩ := hk.shows
  have hle := v.top_le
  have hX : s.maxX ≤ intMax := hk.maxX ▸ t.maxX_int.2
  have hfit : ∀ line ∈ s.allStatusItems, (line.length : Int) ≤ s.maxX := by
    rw [hk.maxX]
    exact allStatusItems_fit hall hk.output
  have hwide : ∀ (i : Nat) (line : Str), s.allStatusItems[i]? = some line →
      padded s.maxX line = widened s.maxX line := fun i line hi =>
    padded_widened hX (hfit line (List.mem_of_getElem? hi))
  have hlength := List.Forall₂.length_eq hk.lines
  have hbelow : ∀ (i : Nat) (line : Str), s.padPos ≤ (i : Int) → s.allStatusItems[i]? = some line →
      s.statusItems[i]? = some (widened s.maxX line) := by
    intro i line hi hline
    rw [← hwide i line hline]
    exact row_below hk.below hv.offset.1 hi hline
  refine ⟨hlength.symm, fun line hline => widened_length (hfit line hline), ?_, hbelow, ?_, ?_⟩
  · intro i line hline
    obtain ⟨row, hrow, rfl | rfl⟩ := row_of_line hk.lines hline
    · exact .inl hrow
    · rw [hwide i line hline] at hrow
      exact .inr hrow
  · intro item hitem
    have hcursor := hv.cursor
    have htop := hv.top
    have hget := hv.index_cursor.mp hitem
    obtain ⟨hlt, _⟩ := List.getElem?_eq_some_iff.mp hget
    have hline := List.getElem?_eq_getElem (l := s.allStatusItems) (i := s.cursorPosition.toNat)
      (by omega)
    refine ⟨_, hline, ?_⟩
    exact Option.some.inj (hget.symm.trans (hbelow _ _ (by omega) hline))
  · obtain ⟨m, out, hlast, _, hlines⟩ := hk.output
    exact ⟨m, out, hlast, hlines⟩

theorem ready_rows_fit (hm : Ready t tr m v) (hall : ∀ e ∈ tr, LinesFit t.maxX e.1 e.2) :
    ∀ row ∈ m.statusItems, (row.length : Int) ≤ m.maxX := by
  have hX : m.maxX ≤ intMax := hm.maxX ▸ t.maxX_int.2
  have hfit : ∀ line ∈ m.allStatusItems, (line.length : Int) ≤ m.maxX := by
    rw [hm.maxX]
    exact allStatusItems_fit hall hm.output
  intro row hrow
  obtain ⟨i, hlen, rfl⟩ := List.getElem_of_mem hrow
  have hlen' : i < m.allStatusItems.length := by
    rw [List.Forall₂.length_eq hm.lines]
    exact hlen
  have hline := hfit _ (List.getElem_mem hlen')
  obtain he | he := List.Forall₂.get hm.lines hlen' hlen
  · rw [List.get_eq_getElem, List.get_eq_getElem] at he
    rw [he]
    exact hline
  · rw [List.get_eq_getElem, List.get_eq_getElem] at he
    rw [he, padded_length hX hline]

theorem drawn_length {d : Drawn} {selected : List Str} {cursor maxX : Int} (hx : maxX ≤ intMax)
    (hfit : (row.length : Int) ≤ maxX) (hd : DrawnFor selected cursor maxX row d) :
    (d.text.length : Int) = maxX := by
  have hlen := padded_length hx hfit
  obtain ⟨_, hshift, hsame⟩ := drawItem_ok hd
  by_cases hsel : decide (row ∈ selected) = true
  · rw [shifted_length (hshift hsel)]
    exact hlen
  · rw [hsame (by simpa using hsel)]
    exact hlen

theorem pad_lengths (hm : Ready t tr m v) (hall : ∀ e ∈ tr, LinesFit t.maxX e.1 e.2)
    (hd : printAllStatus m = .ok (s', rows)) : ∀ d ∈ rows, (d.text.length : Int) = t.maxX := by
  obtain ⟨hi, hmax⟩ := hm.shows.offset
  have hX : m.maxX ≤ intMax := hm.maxX ▸ t.maxX_int.2
  obtain ⟨items, hdraw, _⟩ := (printAllStatus_ok hi hmax).mp hd
  intro d hmem
  obtain ⟨k, hk, rfl⟩ := List.getElem_of_mem hmem
  have hall₂ := (drawRows_drawn hdraw).1
  have hk' : k < (m.statusItems.drop m.padPos.toNat).length := by
    rw [List.Forall₂.length_eq hall₂]
    exact hk
  rw [← hm.maxX]
  refine drawn_length hX ?_ (List.Forall₂.get hall₂ hk' hk)
  exact ready_rows_fit hm hall _ (List.mem_of_mem_drop (List.getElem_mem hk'))

theorem row_storage (h : Session (LinesFit t.maxX) t tr p) :
    (∀ site s next, p = .ask (.getch site s) next → Stored tr s) ∧
      ∀ m s' rows next, p = .say (.pad m s' rows) next →
        ∀ d ∈ rows, (d.text.length : Int) = t.maxX := by
  have hall := reaches_allowed h
  constructor
  · rintro site s next rfl
    exact kept_stored (session_reads_kept h) hall
  · rintro m s' rows next rfl
    obtain ⟨hd, v, hm⟩ := session_pad h
    exact pad_lengths hm hall hd

theorem row_storage_refreshed : ∃ tr s next,
    Session (LinesFit narrowTerminal.maxX) narrowTerminal tr (.ask (.getch .topLevel s) next) ∧
      s.statusItems = ["? a".toList, "? b         ".toList, "? c         ".toList] ∧
      Stored tr s := by
  obtain ⟨tr, s, next, h, hrows⟩ := play_reads (LinesFit narrowTerminal.maxX) narrowTerminal 4
    [.inr "? a\n? b\n? c\n".toList, .inl (key 'j'), .inl (key 'j'), .inl (key 'a'), .inl (key 'n'),
      .inr "? a\n? b\n? c\n".toList]
    (fun _ s => s.statusItems = ["? a".toList, "? b         ".toList, "? c         ".toList])
    (by decide +kernel) (by decide +kernel)
  exact ⟨tr, s, next, h, hrows, (row_storage h).1 _ _ _ rfl⟩

end Storage

section Agreement

variable {t : Terminal} {tr : History} {next : Prog State} {m s' : State} {v : Window}
  {rows : List Drawn}

/-- The rows drawn as selected are those whose stored texts are selected. -/
def Agrees (s : State) (rows : List Drawn) : Prop :=
  ∀ d ∈ rows, d.form.isSelected = true ↔
    ∃ item ∈ s.selectedItems, s.statusItems[d.row.toNat]? = some item

instance (s : State) (rows : List Drawn) : Decidable (Agrees s rows) :=
  inferInstanceAs (Decidable (∀ d ∈ rows, d.form.isSelected = true ↔
    ∃ item ∈ s.selectedItems, s.statusItems[d.row.toNat]? = some item))

/-- No row from the scroll offset on still waits to be widened to a selected text. -/
def Settled (s : State) : Prop :=
  ∀ row ∈ s.statusItems.drop s.padPos.toNat, (row.length : Int) < s.maxX →
    widened s.maxX row ∉ s.selectedItems

section Rows

variable {selected items lines : List Str} {cursor maxX i : Int} {ds : List Drawn}

theorem drawRows_get (h : drawRows selected cursor maxX i lines = .ok (items, ds)) {k : Nat}
    {d : Drawn} (hk : ds[k]? = some d) :
    ∃ row, lines[k]? = some row ∧ items[k]? = some (padded maxX row) ∧ d.row = i + k ∧
      (d.form.isSelected = true ↔ row ∈ selected) := by
  induction lines generalizing i items ds k with
  | nil =>
    cases h
    cases hk
  | cons row lines ih =>
    obtain ⟨item, drawn, rest, hitem, hdrawn, _, _, hrest, he⟩ := drawRows_cons.mp h
    obtain ⟨rfl, rfl⟩ := Prod.mk.inj he
    cases k with
    | zero =>
      obtain rfl := Option.some.inj hk
      refine ⟨row, rfl, ?_, (by simp), ?_⟩
      · rw [(append_padded hitem).2]
        rfl
      · rw [(drawItem_ok hdrawn).1, decide_eq_true_eq]
    | succ k =>
      obtain ⟨row', hrow, hstored, hindex, hform⟩ := ih hrest hk
      refine ⟨row', hrow, hstored, ?_, hform⟩
      rw [hindex]
      push_cast
      ring

/-- Drawing twice gives the same picture exactly when no membership changes. -/
theorem drawRows_again_iff (h : drawRows selected cursor maxX i lines = .ok (items, ds)) :
    drawRows selected cursor maxX i items = .ok (items, ds) ↔
      ∀ row ∈ lines, row ∈ selected ↔ padded maxX row ∈ selected := by
  refine ⟨fun hagain row hrow => ?_, drawRows_again h⟩
  obtain ⟨k, hk, rfl⟩ := List.getElem_of_mem hrow
  have hlen := List.Forall₂.length_eq (drawRows_drawn h).1
  have hd := List.getElem?_eq_getElem (l := ds) (i := k) (by omega)
  obtain ⟨row, hline, hitem, _, hform⟩ := drawRows_get h hd
  obtain ⟨row', hline', _, _, hform'⟩ := drawRows_get hagain hd
  rw [List.getElem?_eq_getElem hk] at hline
  obtain rfl := Option.some.inj hline
  obtain rfl := Option.some.inj (hitem.symm.trans hline')
  exact hform.symm.trans hform'

end Rows

theorem padded_selected_iff (hm : Ready t tr m v) {row : Str} (hfit : (row.length : Int) ≤ m.maxX) :
    (row ∈ m.selectedItems ↔ padded m.maxX row ∈ m.selectedItems) ↔
      ((row.length : Int) < m.maxX → widened m.maxX row ∉ m.selectedItems) := by
  have hX : m.maxX ≤ intMax := hm.maxX ▸ t.maxX_int.2
  have hwide : padded m.maxX row = widened m.maxX row := padded_widened hX hfit
  constructor
  · intro hiff hshort hsel
    rw [← hwide] at hsel
    have hsame := (hm.selectable row (hiff.mpr hsel)).2
    have hlen := padded_length hX hfit
    rw [hsame] at hlen
    omega
  · intro hnone
    refine ⟨fun hsel => ?_, fun hsel => ?_⟩
    · rw [(hm.selectable row hsel).2]
      exact hsel
    · rw [hwide] at hsel
      have hfull : (row.length : Int) = m.maxX := by
        by_contra hne
        exact hnone (by omega) hsel
      rwa [widened_of_length hfull] at hsel

theorem settled_iff (hm : Ready t tr m v) (hall : ∀ e ∈ tr, LinesFit t.maxX e.1 e.2) :
    Settled m ↔ ∀ row ∈ m.statusItems.drop m.padPos.toNat,
      row ∈ m.selectedItems ↔ padded m.maxX row ∈ m.selectedItems := by
  apply forall₂_congr
  intro row hrow
  exact (padded_selected_iff hm (ready_rows_fit hm hall row (List.mem_of_mem_drop hrow))).symm

theorem agrees_iff (hm : Ready t tr m v) (hall : ∀ e ∈ tr, LinesFit t.maxX e.1 e.2)
    (hd : printAllStatus m = .ok (s', rows)) : Agrees s' rows ↔ Settled m := by
  obtain ⟨hi, hmax⟩ := hm.shows.offset
  obtain ⟨items, hdraw, rfl⟩ := (printAllStatus_ok hi hmax).mp hd
  have hlen := List.Forall₂.length_eq (drawRows_drawn hdraw).1
  have hget : ∀ (k : Nat) (d : Drawn), rows[k]? = some d → ∃ row,
      (m.statusItems.drop m.padPos.toNat)[k]? = some row ∧
        (m.statusItems.take m.padPos.toNat ++ items)[d.row.toNat]? = some (padded m.maxX row) ∧
        (d.form.isSelected = true ↔ row ∈ m.selectedItems) := by
    intro k d hk
    obtain ⟨row, hrow, hitem, hindex, hform⟩ := drawRows_get hdraw hk
    have hlt := (List.getElem?_eq_some_iff.mp hrow).1
    rw [List.length_drop] at hlt
    have htake : (m.statusItems.take m.padPos.toNat).length = m.padPos.toNat := by
      rw [List.length_take]
      omega
    refine ⟨row, hrow, ?_, hform⟩
    rw [hindex, List.getElem?_append_right (by omega), htake, ← hitem]
    congr 1
    omega
  rw [settled_iff hm hall]
  constructor
  · intro hagrees row hrow
    obtain ⟨k, hk, rfl⟩ := List.getElem_of_mem hrow
    have hd := List.getElem?_eq_getElem (l := rows) (i := k) (by omega)
    obtain ⟨row, hline, hitem, hform⟩ := hget k _ hd
    rw [List.getElem?_eq_getElem hk] at hline
    obtain rfl := Option.some.inj hline
    rw [← hform, hagrees _ (List.getElem_mem _), hitem]
    simp
  · intro hsame d hmem
    obtain ⟨k, hk, rfl⟩ := List.getElem_of_mem hmem
    obtain ⟨row, hline, hitem, hform⟩ := hget k _ (List.getElem?_eq_getElem hk)
    rw [hform, hsame row (List.mem_of_getElem? hline), hitem]
    simp

theorem take_drop_redrawn {k : Nat} {stored items : List Str}
    (hlen : items.length = (stored.drop k).length) :
    (stored.take k ++ items).drop k = items ∧ (stored.take k ++ items).take k = stored.take k := by
  by_cases hk : k ≤ stored.length
  · have htake : (stored.take k).length = k := by simpa using hk
    exact ⟨List.drop_left' htake, List.take_left' htake⟩
  · have hnil : items = [] := by
      rw [List.length_drop] at hlen
      exact List.length_eq_zero_iff.mp (by omega)
    subst hnil
    simp only [List.append_nil, List.take_take, min_self, and_true]
    exact List.drop_eq_nil_of_le (List.length_take_le k stored)

theorem redraw_iff (hm : Ready t tr m v) (hall : ∀ e ∈ tr, LinesFit t.maxX e.1 e.2)
    (hd : printAllStatus m = .ok (s', rows)) :
    printAllStatus s' = .ok (s', rows) ↔ Settled m := by
  obtain ⟨hi, hmax⟩ := hm.shows.offset
  obtain ⟨items, hdraw, hs⟩ := (printAllStatus_ok hi hmax).mp hd
  have hlen : items.length = (m.statusItems.drop m.padPos.toNat).length := by
    rw [(drawRows_items hdraw).1, List.length_map]
  obtain ⟨hdrop, htake⟩ := take_drop_redrawn hlen
  have hi' : 0 ≤ s'.padPos := by rw [hs]; exact hi
  have hmax' : s'.padPos ≤ intMax := by rw [hs]; exact hmax
  rw [settled_iff hm hall, ← drawRows_again_iff hdraw, printAllStatus_ok hi' hmax', hs]
  simp only [hdrop, htake, State.mk.injEq, List.append_cancel_left_eq, true_and, and_true]
  constructor
  · rintro ⟨items', hagain, rfl⟩
    exact hagain
  · intro hagain
    exact ⟨items, hagain, rfl⟩

theorem picture_agrees (h : Session (LinesFit t.maxX) t tr (.say (.pad m s' rows) next)) :
    (Agrees s' rows ↔ Settled m) ∧ (printAllStatus s' = .ok (s', rows) ↔ Settled m) := by
  have hall := reaches_allowed h
  obtain ⟨hd, v, hm⟩ := session_pad h
  exact ⟨agrees_iff hm hall hd, redraw_iff hm hall hd⟩

theorem picture_agrees_selected : ∃ tr m s' rows next,
    Session (LinesFit narrowTerminal.maxX) narrowTerminal tr (.say (.pad m s' rows) next) ∧
      rows.map (fun d => d.form.isSelected) = [true, false] ∧
      (Agrees s' rows ↔ Settled m) ∧ (printAllStatus s' = .ok (s', rows) ↔ Settled m) := by
  obtain ⟨tr, m, s', rows, next, h, hforms⟩ := play_draws (LinesFit narrowTerminal.maxX)
    narrowTerminal 2 [.inr "? a\n? b\n".toList, .inl (key ' ')]
    (fun _ _ rows => rows.map (fun d => d.form.isSelected) = [true, false]) (by decide +kernel)
  exact ⟨tr, m, s', rows, next, h, hforms, picture_agrees h⟩

/-- After a refresh below the top a line above the pad is drawn unselected, once,
although a line with its text is selected. -/
theorem picture_disagrees : ∃ tr m s' rows next,
    Session (LinesFit narrowTerminal.maxX) narrowTerminal tr (.say (.pad m s' rows) next) ∧
      8 ≤ m.maxX ∧ (0 ≤ m.cursorPosition ∧ m.cursorPosition < m.statusItems.length) ∧
      ¬ Agrees s' rows ∧ printAllStatus s' ≠ .ok (s', rows) :=
  play_draws (LinesFit narrowTerminal.maxX) narrowTerminal 7
    [.inr "? a\n? b\n? a\n".toList, .inl (key 'j'), .inl (key 'j'), .inl (key 'a'), .inl (key 'n'),
      .inr "? a\n? b\n? a\n".toList, .inl (key ' '), .inl (key 'k')]
    (fun m s' rows => 8 ≤ m.maxX ∧
      (0 ≤ m.cursorPosition ∧ m.cursorPosition < m.statusItems.length) ∧
      ¬ Agrees s' rows ∧ printAllStatus s' ≠ .ok (s', rows)) (by decide +kernel)

end Agreement

end SvnCurses.Picture
