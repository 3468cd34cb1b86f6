import SvnCurses.Round
import SvnCurses.Rows
import SvnCurses.Viewport

namespace SvnCurses.Cursor

open Cpp ProgramState Draw KeyEvent Round Rows Viewport

/-- The number of lines of the pad. -/
def height (s : State) : Nat := (s.maxY - bottomWindowSize).toNat

/-- The cursor and the scroll offset are those of the window, and every size the
movement keys compute with is in the range of an `int`. -/
structure Shows (s : State) (v : Window) : Prop where
  cursor : s.cursorPosition = v.cursor
  top : s.padPos = v.top
  cursor_int : (v.cursor : Int) ≤ intMax
  rows_ne : s.statusItems ≠ []
  rows_int : (s.statusItems.length : Int) ≤ intMax
  maxY_int : s.maxY ≤ intMax
  pad : 0 < s.maxY - bottomWindowSize

def placed (s : State) (v : Window) : State :=
  { s with cursorPosition := v.cursor, padPos := v.top }

variable {s m : State} {v : Window}

theorem Shows.height_pos (h : Shows s v) : 0 < height s := by
  have := h.pad
  simp only [height]
  omega

theorem Shows.rows_pos (h : Shows s v) : 0 < s.statusItems.length :=
  List.length_pos_iff.mpr h.rows_ne

theorem Shows.placed_self (h : Shows s v) : s = placed s v := by
  rw [placed, ← h.cursor, ← h.top]

/-- The comparison of the cursor with `size() - 1`, both as `size_t`. -/
theorem Shows.below_last (h : Shows s v) :
    toSize s.cursorPosition < toSize (s.statusItems.length - 1) ↔
      v.cursor + 1 < s.statusItems.length := by
  have hpos := h.rows_pos
  have hlen := h.rows_int
  have hint := h.cursor_int
  simp only [intMax] at hlen hint
  have hcursor := toSize_of_nonneg (x := s.cursorPosition) (by rw [h.cursor]; omega)
    (by rw [h.cursor]; omega)
  have hlast := toSize_of_nonneg (x := (s.statusItems.length : Int) - 1) (by omega) (by omega)
  rw [h.cursor] at hcursor ⊢
  omega

theorem cursorUp_placed (h : Shows s v) (hm : cursorUp s = .ok m) : m = placed s v.up := by
  simp only [cursorUp] at hm
  split at hm
  · next hpos =>
    rw [h.cursor] at hpos
    obtain ⟨cursor, hcursor, hm⟩ := bind_ok.mp hm
    obtain ⟨rfl, _⟩ := checked_ok.mp hcursor
    split at hm
    · next hle =>
      obtain ⟨above, habove, hm⟩ := bind_ok.mp hm
      obtain ⟨rfl, _⟩ := checked_ok.mp habove
      cases hm
      rw [h.cursor, h.top] at hle
      simp only [placed, Window.up, h.cursor, h.top, State.mk.injEq, true_and, and_true]
      rw [if_pos (by omega)]
      omega
    · next hgt =>
      cases hm
      rw [h.cursor, h.top] at hgt
      simp only [placed, Window.up, h.cursor, h.top, State.mk.injEq, true_and, and_true]
      rw [if_neg (by omega)]
      omega
  · next hzero =>
    cases hm
    have hle := v.top_le
    rw [h.cursor] at hzero
    conv_lhs => rw [h.placed_self]
    simp only [placed, Window.up, State.mk.injEq, true_and, and_true]
    split <;> omega

theorem cursorDown_placed (h : Shows s v) (hm : cursorDown s = .ok m) :
    m = placed s (v.down s.statusItems.length (height s)) := by
  have hheight : ((height s : Nat) : Int) = s.maxY - bottomWindowSize := by
    have := h.pad
    simp only [height]
    omega
  simp only [cursorDown] at hm
  split at hm
  · next hlt =>
    rw [h.below_last] at hlt
    obtain ⟨cursor, hcursor, hm⟩ := bind_ok.mp hm
    obtain ⟨rfl, _⟩ := checked_ok.mp hcursor
    obtain ⟨lines, hlines, hm⟩ := bind_ok.mp hm
    obtain ⟨rfl, _⟩ := checked_ok.mp hlines
    obtain ⟨edge, hedge, hm⟩ := bind_ok.mp hm
    obtain ⟨rfl, _⟩ := checked_ok.mp hedge
    rw [← hheight, h.cursor, h.top] at hm
    split at hm
    · next hle =>
      obtain ⟨below, hbelow, hm⟩ := bind_ok.mp hm
      obtain ⟨rfl, _⟩ := checked_ok.mp hbelow
      cases hm
      simp only [placed, Window.down, State.mk.injEq, true_and, and_true]
      rw [if_pos hlt, if_pos ⟨hlt, by omega⟩]
      omega
    · next hgt =>
      cases hm
      simp only [placed, Window.down, State.mk.injEq, true_and, and_true]
      rw [if_pos hlt, if_neg (by omega)]
      omega
  · next hge =>
    cases hm
    rw [h.below_last] at hge
    conv_lhs => rw [h.placed_self]
    simp only [placed, Window.down, State.mk.injEq, true_and, and_true]
    rw [if_neg hge, if_neg (by omega)]
    exact ⟨rfl, rfl⟩

theorem cursorLast_placed (h : Shows s v) :
    cursorLast s =
      placed s (v.last s.statusItems.length (height s) s.maxY.toNat h.height_pos) := by
  have hpos := h.rows_pos
  have hlen := h.rows_int
  have hmax := h.maxY_int
  have hpad := h.pad
  simp only [intMax, bottomWindowSize] at hlen hmax hpad
  have hlast := toSize_of_nonneg (x := (s.statusItems.length : Int) - 1) (by omega) (by omega)
  have hscreen := toSize_of_nonneg (x := s.maxY) (by omega) (by omega)
  have hcursor : narrow (toSize ((s.statusItems.length : Int) - 1)) = s.statusItems.length - 1 := by
    rw [narrow_toSize]
    exact bmod_of_inRange (by simp only [intMin]; omega) (by simp only [intMax]; omega)
  simp only [cursorLast]
  by_cases hlt : v.cursor + 1 < s.statusItems.length
  · rw [if_pos (h.below_last.mpr hlt)]
    by_cases hfar : s.maxY.toNat + 1 < s.statusItems.length
    · have htop : narrow (toSize (s.statusItems.length - s.maxY + bottomWindowSize)) =
          s.statusItems.length - s.maxY + bottomWindowSize := by
        rw [narrow_toSize]
        refine bmod_of_inRange ?_ ?_ <;> simp only [intMin, intMax, bottomWindowSize] <;> omega
      rw [if_pos (by omega), hcursor, htop]
      simp only [placed, Window.last, State.mk.injEq, true_and, and_true]
      rw [if_pos hlt, if_pos ⟨hlt, hfar⟩]
      simp only [height, bottomWindowSize]
      omega
    · rw [if_neg (by omega), hcursor]
      simp only [placed, Window.last, h.top, State.mk.injEq, true_and, and_true]
      rw [if_pos hlt, if_neg (by omega)]
      omega
  · rw [if_neg (mt h.below_last.mp hlt)]
    conv_lhs => rw [h.placed_self]
    simp only [placed, Window.last, State.mk.injEq, true_and, and_true]
    rw [if_neg hlt, if_neg (by omega)]
    exact ⟨rfl, rfl⟩

theorem cursorUp_total (h : Shows s v) : ∃ m, cursorUp s = .ok m := by
  have hint := h.cursor_int
  have hle := v.top_le
  simp only [intMax] at hint
  simp only [cursorUp, h.cursor, h.top]
  split
  · have hcursor : checked ((v.cursor : Int) - 1) = .ok ((v.cursor : Int) - 1) :=
      checked_ok.mpr ⟨rfl, by simp only [intMin]; omega, by simp only [intMax]; omega⟩
    have habove : checked ((v.top : Int) - 1) = .ok ((v.top : Int) - 1) :=
      checked_ok.mpr ⟨rfl, by simp only [intMin]; omega, by simp only [intMax]; omega⟩
    simp only [bind_ok, hcursor, Except.ok.injEq, exists_eq_left']
    split
    · exact ⟨_, bind_ok.mpr ⟨_, habove, rfl⟩⟩
    · exact ⟨_, rfl⟩
  · exact ⟨_, rfl⟩

/-- No sum of the `j` key overflows while the window is inside the range of an `int`. -/
theorem cursorDown_total (h : Shows s v) (hin : v.Inside intMax.toNat (height s)) :
    ∃ m, cursorDown s = .ok m := by
  have hlen := h.rows_int
  have hY := h.maxY_int
  have hpad := h.pad
  have hheight : ((height s : Nat) : Int) = s.maxY - bottomWindowSize := by
    simp only [height]
    omega
  have hmax : ((intMax.toNat : Nat) : Int) = intMax := rfl
  simp only [Window.Inside] at hin
  unfold cursorDown
  by_cases hlt : v.cursor + 1 < s.statusItems.length
  · rw [if_pos (h.below_last.mpr hlt), ← hheight, h.cursor, h.top]
    have hcursor : checked ((v.cursor : Int) + 1) = .ok ((v.cursor : Int) + 1) :=
      checked_ok.mpr ⟨rfl, by simp only [intMin]; omega, by omega⟩
    have hlines : checked (height s : Int) = .ok (height s : Int) := by
      refine checked_ok.mpr ⟨rfl, by simp only [intMin]; omega, ?_⟩
      simp only [bottomWindowSize] at hheight
      omega
    have hedge : checked ((height s : Int) + v.top) = .ok ((height s : Int) + v.top) := by
      refine checked_ok.mpr ⟨rfl, by simp only [intMin]; omega, ?_⟩
      simp only [bottomWindowSize] at hheight
      omega
    have hbelow : checked ((v.top : Int) + 1) = .ok ((v.top : Int) + 1) := by
      have hle := v.top_le
      exact checked_ok.mpr ⟨rfl, by simp only [intMin]; omega, by omega⟩
    simp only [bind_ok, hcursor, hlines, hedge, Except.ok.injEq, exists_eq_left']
    split
    · exact ⟨_, bind_ok.mpr ⟨_, hbelow, rfl⟩⟩
    · exact ⟨_, rfl⟩
  · rw [if_neg (mt h.below_last.mp hlt)]
    exact ⟨_, rfl⟩

/-- The movement keys of the program are the moves of the window. Only the `G`
key jumps to the last row. -/
theorem moves_placed (h : Shows s v) {c : Int} (hm : Moves s c m) :
    ∃ k, m = placed s (v.move s.statusItems.length (height s) s.maxY.toNat h.height_pos k) ∧
      (k = .last → c = key 'G') := by
  cases hm with
  | up hm => exact ⟨.up, cursorUp_placed h hm, nofun⟩
  | down hm => exact ⟨.down, cursorDown_placed h hm, nofun⟩
  | last => exact ⟨.last, cursorLast_placed h, fun _ => rfl⟩
  | top => exact ⟨.home, rfl, nofun⟩

theorem Shows.move (h : Shows s v) (k : Window.Move) :
    Shows (placed s (v.move s.statusItems.length (height s) s.maxY.toNat h.height_pos k))
      (v.move s.statusItems.length (height s) s.maxY.toNat h.height_pos k) := by
  have hle : (v.move s.statusItems.length (height s) s.maxY.toNat h.height_pos k).cursor ≤
      max v.cursor (s.statusItems.length - 1) := Window.move_cursor_le h.height_pos
  have hlen := h.rows_int
  have hint := h.cursor_int
  exact ⟨rfl, rfl, by omega, h.rows_ne, h.rows_int, h.maxY_int, h.pad⟩

theorem Shows.offset (h : Shows s v) : 0 ≤ s.padPos ∧ s.padPos ≤ intMax := by
  have hle := v.top_le
  have hint := h.cursor_int
  rw [h.top]
  omega

/-- The access of the space key. -/
theorem Shows.index_cursor (h : Shows s v) {item : Str} :
    index s.statusItems s.cursorPosition = .ok item ↔
      s.statusItems[s.cursorPosition.toNat]? = some item := by
  have hcursor := h.cursor
  have hint := h.cursor_int
  have hsize : toSize s.cursorPosition = s.cursorPosition.toNat :=
    toSize_index (by omega) (by omega)
  rw [index_ok, hsize]

section Redraw

variable {s' : State} {rows : List Drawn}

theorem Shows.redrawn (h : Shows m v) (hd : printAllStatus m = .ok (s', rows)) :
    s' = { m with statusItems := m.statusItems.take m.padPos.toNat ++
      (m.statusItems.drop m.padPos.toNat).map (padded m.maxX) } :=
  draw_state h.offset.1 h.offset.2 hd

theorem Shows.redrawn_length (h : Shows m v) (hd : printAllStatus m = .ok (s', rows)) :
    s'.statusItems.length = m.statusItems.length := draw_length h.offset.1 h.offset.2 hd

theorem Shows.draw (h : Shows m v) (hd : printAllStatus m = .ok (s', rows)) : Shows s' v := by
  have hlen := h.redrawn_length hd
  have hs := h.redrawn hd
  refine ⟨?_, ?_, h.cursor_int, ?_, ?_, ?_, ?_⟩
  · rw [hs]; exact h.cursor
  · rw [hs]; exact h.top
  · rw [← List.length_pos_iff, hlen]
    exact h.rows_pos
  · rw [hlen]; exact h.rows_int
  · rw [hs]; exact h.maxY_int
  · rw [hs]; exact h.pad

end Redraw

end SvnCurses.Cursor
