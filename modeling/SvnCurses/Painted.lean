import SvnCurses.Worklist

namespace SvnCurses.Painted

open Cpp ProgramState Draw Interaction KeyEvent Round Rows Cursor Session Viewport Worklist

section Picture

/-- Padding changes no row's place in the selection. -/
def Stable (m : State) : Prop :=
  ∀ row ∈ m.statusItems.drop m.padPos.toNat,
    row ∈ m.selectedItems ↔ padded m.maxX row ∈ m.selectedItems

def AllPadded (s : State) : Prop := s.statusItems = s.allStatusItems.map (padded s.maxX)

/-- The rows were drawn for the state as it is, up to two members that are not drawn. -/
structure Current (t : Terminal) (tr : History) (s : State) (rows : List Drawn) : Prop where
  drawn : ∃ m s' v, Ready t tr m v ∧ printAllStatus m = .ok (s', rows) ∧ (FromTop tr → Stable m) ∧
    s = { s' with isRunning := s.isRunning, hidden := s.hidden }

/-- What holds of the state and of the rows on the pad. -/
structure Holds (t : Terminal) (tr : History) (s : State) (rows : List Drawn) : Prop where
  kept : Kept t tr s
  board : Represents t (boardOf t tr) s
  current : Current t tr s rows
  stored : FromTop tr → AllPadded s
  inside : (boardOf t tr).window.Inside intMax.toNat (Board.padLines t)

variable {t : Terminal} {tr : History} {s s' m : State} {v : Window} {rows : List Drawn}
  {e : Sigma Answer} {text out : Str} {c : Int}

theorem ready_append (h : Ready t tr m v) (he : refreshOf e = none) : Ready t (tr ++ [e]) m v := by
  have hnone : ∀ x ∈ [e], refreshOf x = none := by simpa using he
  refine ⟨h.usable, h.maxX, h.maxY, h.shows, ?_, h.lines, h.selectable, ?_⟩
  · rw [fromTop_append hnone]
    exact h.fits
  · rw [lastRefresh_append hnone]
    exact h.output

theorem kept_append (h : Kept t tr s) (he : refreshOf e = none)
    (hs : s' = { s with isRunning := s'.isRunning, hidden := s'.hidden }) :
    Kept t (tr ++ [e]) s' := by
  have hnone : ∀ x ∈ [e], refreshOf x = none := by simpa using he
  obtain ⟨v, hv, hfits⟩ := h.shows
  rw [hs]
  refine ⟨h.usable, h.maxX, h.maxY, ⟨v, ?_, ?_⟩, h.lines, h.below, h.selectable, ?_⟩
  · exact ⟨hv.cursor, hv.top, hv.cursor_int, hv.rows_ne, hv.rows_int, hv.maxY_int, hv.pad⟩
  · rw [fromTop_append hnone]
    exact hfits
  · rw [lastRefresh_append hnone]
    exact h.output

/-- An exchange that moves nothing leaves the pad as it should be. -/
theorem Holds.append (h : Holds t tr s rows) (he : refreshOf e = none)
    (hs : s' = { s with isRunning := s'.isRunning, hidden := s'.hidden })
    (hb : Represents t ((boardOf t tr).see t e) s')
    (hw : ((boardOf t tr).see t e).window = (boardOf t tr).window) :
    Holds t (tr ++ [e]) s' rows := by
  have hnone : ∀ x ∈ [e], refreshOf x = none := by simpa using he
  refine ⟨kept_append h.kept he hs, ?_, ?_, ?_, ?_⟩
  · rw [boardOf_concat]
    exact hb
  · obtain ⟨m, s₁, v, hready, hd, hstable, hs₁⟩ := h.current.drawn
    refine ⟨m, s₁, v, ready_append hready he, hd, ?_, ?_⟩
    · rw [fromTop_append hnone]
      exact hstable
    · rw [hs, hs₁]
  · rw [fromTop_append hnone, hs]
    exact h.stored
  · rw [boardOf_concat, hw]
    exact h.inside

theorem stable_of_padded (h : AllPadded m) : Stable m := by
  intro row hrow
  have hmem := List.mem_of_mem_drop hrow
  rw [h] at hmem
  obtain ⟨line, _, rfl⟩ := List.mem_map.mp hmem
  rw [padded_padded]

theorem stable_loaded (m : State) (text : Str) : Stable (loaded m text) := by
  intro row _
  simp [loaded]

theorem allPadded_draw (hv : Shows m v) (hd : printAllStatus m = .ok (s', rows))
    (h : AllPadded m) : AllPadded s' := by
  have hfix : m.statusItems.map (padded m.maxX) = m.statusItems := by
    rw [h, List.map_map]
    apply List.map_congr_left
    intro line _
    exact padded_padded _ line
  rw [hv.redrawn hd, AllPadded, List.map_drop, hfix, List.take_append_drop]
  exact h

theorem allPadded_loaded (hv : Shows (loaded m text) v) (hpos : m.padPos = 0)
    (hd : printAllStatus (loaded m text) = .ok (s', rows)) : AllPadded s' := by
  have htop : (loaded m text).padPos.toNat = 0 := by
    change m.padPos.toNat = 0
    rw [hpos]
    rfl
  rw [hv.redrawn hd, AllPadded, htop]
  rfl

theorem holds_drawn (hready : Ready t tr m v) (hb : Represents t (boardOf t tr) m)
    (hd : printAllStatus m = .ok (s', rows)) (hstable : FromTop tr → Stable m ∧ AllPadded s')
    (hin : (boardOf t tr).window.Inside intMax.toNat (Board.padLines t)) :
    Holds t tr s' rows :=
  ⟨kept_draw hready hd, represents_draw hb hd,
    ⟨m, s', v, hready, hd, fun htop => (hstable htop).1, rfl⟩,
    fun htop => (hstable htop).2, hin⟩

/-- A move keeps the window inside the range of an `int`. -/
theorem holds_moved (h : Holds t tr s rows) (he : refreshOf e = none) {k : Window.Move}
    (hready : Ready t (tr ++ [e]) m v)
    (hrows : m.statusItems = s.statusItems ∧ m.allStatusItems = s.allStatusItems ∧ m.maxX = s.maxX)
    (hb : Represents t ((boardOf t tr).see t e) m)
    (hw : ∀ hh, ((boardOf t tr).see t e).window = (boardOf t tr).window.move
      (boardOf t tr).lines.length (Board.padLines t) t.maxY.toNat hh k)
    {more : List Drawn} (hd : printAllStatus m = .ok (s', more)) : Holds t (tr ++ [e]) s' more := by
  have hnone : ∀ x ∈ [e], refreshOf x = none := by simpa using he
  obtain ⟨hv, hlen, hheight⟩ := represents_shows h.board h.kept
  have hpos : 0 < Board.padLines t := hheight ▸ hv.height_pos
  rw [← boardOf_concat] at hb hw
  refine holds_drawn hready hb hd ?_ ?_
  · rw [fromTop_append hnone]
    intro htop
    have hall : AllPadded m := by
      rw [AllPadded, hrows.1, hrows.2.1, hrows.2.2]
      exact h.stored htop
    exact ⟨stable_of_padded hall, allPadded_draw hready.shows hd hall⟩
  · have hrange := hv.rows_int
    rw [hw hpos]
    apply Window.inside_move hpos _ h.inside
    rw [hlen] at hrange
    simp only [intMax] at *
    omega

/-- The only fault of the space key is an access past the last row. -/
theorem toggleSelected_fault {fault : Fault} (hv : Shows s v)
    (h : toggleSelected s = .error fault) :
    fault = .undefined .vectorIndex ∧ s.statusItems.length ≤ v.cursor := by
  have hcursor : toSize s.cursorPosition = v.cursor := by
    have hint := hv.cursor_int
    rw [hv.cursor, toSize_index (by omega) (by omega)]
    rfl
  obtain h | ⟨item, _, h⟩ := bind_error.mp h
  · unfold index at h
    split at h
    · next hnone =>
      rw [hcursor, List.getElem?_eq_none_iff] at hnone
      cases h
      exact ⟨rfl, hnone⟩
    · cases h
  · split at h <;> cases h

theorem kept_toggled (hk : Kept t tr s) (hm : toggleSelected s = .ok m) : Kept t tr m := by
  have hselectable := selectable_toggle hk hm
  obtain ⟨item, selected, _, _, rfl⟩ := toggleSelected_ok hm
  obtain ⟨v, hv, hfits⟩ := hk.shows
  refine ⟨hk.usable, hk.maxX, hk.maxY, ⟨v, ?_, hfits⟩, hk.lines, hk.below, hselectable, hk.output⟩
  exact ⟨hv.cursor, hv.top, hv.cursor_int, hv.rows_ne, hv.rows_int, hv.maxY_int, hv.pad⟩

/-- A key at the top level that does not move, and leaves the window to its handler. -/
theorem Holds.pressed (h : Holds t tr s rows)
    (hb : (boardOf t tr).press t c = { boardOf t tr with homing := c = key 's' ∨ c = key 'r' }) :
    Holds t (tr ++ [⟨.getch .topLevel s, c⟩]) s rows := by
  have hsee : (boardOf t tr).see t ⟨.getch .topLevel s, c⟩ =
      { boardOf t tr with homing := c = key 's' ∨ c = key 'r' } := hb
  refine h.append rfl rfl ?_ ?_
  · rw [hsee]
    exact h.board
  · rw [hsee]

/-- An exchange that is neither a refresh nor a key of its own. -/
theorem Holds.inner (h : Holds t tr s rows) (he : refreshOf e = none)
    (hsee : (boardOf t tr).see t e = boardOf t tr) : Holds t (tr ++ [e]) s rows := by
  refine h.append he rfl ?_ ?_
  · rw [hsee]
    exact h.board
  · rw [hsee]

/-- The state that is refreshed is on the board of the refresh. -/
def Refreshes (t : Terminal) (tr : History) (s m : State) : Prop :=
  m = s ∧ (boardOf t tr).homing = false ∨ m = atTop s ∧ (boardOf t tr).homing = true

theorem holds_loaded {text out : Str} {s' : State} {more : List Drawn} (h : Holds t tr s rows)
    (hm : Refreshes t tr s m) (htext : popBack (execResult out) = .ok text)
    (hd : printAllStatus (loaded m text) = .ok (s', more)) :
    Holds t (tr ++ [⟨.popen statusCommand (cleared m), some out⟩]) s' more := by
  have hplace : m = s ∨ m = atTop s := hm.imp (·.1) (·.1)
  obtain ⟨v, hready⟩ := ready_refresh (r := []) h.kept hplace htext hd
  refine holds_drawn hready ?_ hd ?_ ?_
  · have hloading : Represents t (boardOf t tr).loading (cleared m) := by
      obtain ⟨rfl, hb⟩ | ⟨rfl, hb⟩ := hm
      · exact represents_cleared h.board hb
      · exact represents_cleared_home h.board hb
    rw [boardOf_concat]
    exact represents_loaded hloading htext
  · rintro ⟨e, he, hcursor, hpos⟩
    rw [lastRefresh_status] at he
    cases he
    exact ⟨stable_loaded m text, allPadded_loaded hready.shows hpos hd⟩
  · have hwindow : (boardOf t (tr ++ [⟨.popen statusCommand (cleared m), some out⟩])).window =
        if (boardOf t tr).homing then .home else (boardOf t tr).window := by
      rw [boardOf_concat]
      rfl
    rw [hwindow]
    split
    · exact .inl rfl
    · exact h.inside

end Picture

end SvnCurses.Painted
