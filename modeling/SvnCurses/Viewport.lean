import Mathlib.Tactic.Common

namespace SvnCurses.Viewport

/-- A window that scrolls over a list: the row under the cursor and the first
row shown, which is never below it. -/
@[ext] structure Window where
  top : Nat
  cursor : Nat
  top_le : top ≤ cursor

namespace Window

def home : Window := ⟨0, 0, Nat.le_refl 0⟩

/-- One row up. The window follows when the cursor comes to its first row. -/
def up (v : Window) : Window where
  top := if v.cursor - 1 ≤ v.top then v.top - 1 else v.top
  cursor := v.cursor - 1
  top_le := by
    have := v.top_le
    split <;> omega

/-- One row down in a list of `n` rows, the window being `height` rows high. -/
def down (n height : Nat) (v : Window) : Window where
  top := if v.cursor + 1 < n ∧ height + v.top ≤ v.cursor + 1 then v.top + 1 else v.top
  cursor := if v.cursor + 1 < n then v.cursor + 1 else v.cursor
  top_le := by
    have := v.top_le
    split_ifs <;> omega

/-- To the last of `n` rows. The window moves to the end of the list only when
the list has more than `threshold + 1` rows. -/
def last (n height threshold : Nat) (hh : 0 < height) (v : Window) : Window where
  top := if v.cursor + 1 < n ∧ threshold + 1 < n then n - height else v.top
  cursor := if v.cursor + 1 < n then n - 1 else v.cursor
  top_le := by
    have := v.top_le
    split_ifs <;> omega

/-- The cursor is on a row of the list. -/
def InList (n : Nat) (v : Window) : Prop := v.cursor < n

/-- The cursor is on a row that the window shows. -/
def Visible (height : Nat) (v : Window) : Prop := v.cursor < v.top + height

/-- The window has not run past the end of the list. -/
def Fits (n height : Nat) (v : Window) : Prop := v.top ≤ n - height

variable {n height threshold : Nat} {v : Window}

theorem inList_up (h : v.InList n) : v.up.InList n := by
  simp only [InList, up] at *
  omega

theorem inList_down (h : v.InList n) : (v.down n height).InList n := by
  simp only [InList, down] at *
  split <;> omega

theorem inList_last (hh : 0 < height) (h : v.InList n) :
    (v.last n height threshold hh).InList n := by
  simp only [InList, last] at *
  split <;> omega

theorem visible_home (hh : 0 < height) : home.Visible height := by
  simpa [home, Visible] using hh

theorem visible_up (h : v.Visible height) : v.up.Visible height := by
  have hle := v.top_le
  simp only [Visible, up] at *
  split <;> omega

theorem visible_down (h : v.Visible height) : (v.down n height).Visible height := by
  simp only [Visible, down] at *
  split_ifs <;> omega

/-- From a visible cursor in the list, the jump loses sight of it exactly when
the last row was below the window and the window is left where it was. -/
theorem visible_last_iff (hh : 0 < height) (hin : v.InList n) (h : v.Visible height) :
    (v.last n height threshold hh).Visible height ↔ n ≤ v.top + height ∨ threshold + 1 < n := by
  simp only [Visible, InList, last] at *
  split_ifs <;> omega

theorem fits_home : home.Fits n height := Nat.zero_le _

theorem fits_up (h : v.Fits n height) : v.up.Fits n height := by
  simp only [Fits, up] at *
  split <;> omega

theorem fits_down (h : v.Fits n height) : (v.down n height).Fits n height := by
  simp only [Fits, down] at *
  split <;> omega

theorem fits_last (hh : 0 < height) (h : v.Fits n height) :
    (v.last n height threshold hh).Fits n height := by
  simp only [Fits, last] at *
  split <;> omega

inductive Move
  | up
  | down
  | last
  | home

def move (n height threshold : Nat) (hh : 0 < height) (v : Window) : Move → Window
  | .up => v.up
  | .down => v.down n height
  | .last => v.last n height threshold hh
  | .home => home

variable {k : Move}

theorem inList_move (hh : 0 < height) (h : v.InList n) :
    (v.move n height threshold hh k).InList n := by
  cases k with
  | up => exact inList_up h
  | down => exact inList_down h
  | last => exact inList_last hh h
  | home => exact Nat.zero_lt_of_lt h

theorem visible_move (hh : 0 < height) (hin : v.InList n) (h : v.Visible height)
    (hlast : k = .last → n ≤ v.top + height ∨ threshold + 1 < n) :
    (v.move n height threshold hh k).Visible height := by
  cases k with
  | up => exact visible_up h
  | down => exact visible_down h
  | last => exact (visible_last_iff hh hin h).mpr (hlast rfl)
  | home => exact visible_home hh

theorem fits_move (hh : 0 < height) (h : v.Fits n height) :
    (v.move n height threshold hh k).Fits n height := by
  cases k with
  | up => exact fits_up h
  | down => exact fits_down h
  | last => exact fits_last hh h
  | home => exact fits_home

/-- The window is at the top, or its last row is numbered up to the limit. -/
def Inside (limit height : Nat) (v : Window) : Prop := v.top = 0 ∨ v.top + height ≤ limit

theorem inside_move {limit : Nat} (hh : 0 < height) (hn : n ≤ limit) (h : v.Inside limit height) :
    (v.move n height threshold hh k).Inside limit height := by
  cases k with
  | up => simp only [Inside, move, up] at *; split <;> omega
  | down => simp only [Inside, move, down] at *; split <;> omega
  | last => simp only [Inside, move, last] at *; split <;> omega
  | home => exact .inl rfl

/-- A move takes the cursor up, or down within the list. -/
theorem move_cursor_le (hh : 0 < height) :
    (v.move n height threshold hh k).cursor ≤ max v.cursor (n - 1) := by
  cases k with
  | up => simp only [move, up]; omega
  | down => simp only [move, down]; split <;> omega
  | last => simp only [move, last]; split <;> omega
  | home => simp only [move, home]; omega

end Window

end SvnCurses.Viewport
