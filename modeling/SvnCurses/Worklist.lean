import SvnCurses.Picture
import SvnCurses.Toggle

namespace SvnCurses.Worklist

open Cpp ProgramState Draw Interaction KeyEvent Round Rows Cursor Session Viewport Picture Toggle

/-- What the program is for: a list of lines with a window that scrolls over it,
and the lines that have been selected. Nothing is known here of stored rows, of
drawing or of prompts. -/
structure Board where
  lines : List Str
  window : Window
  selection : Selection Str
  hidden : Bool
  running : Bool
  -- whether the next refresh goes back to the top
  homing : Bool

namespace Board

def opening : Board := ⟨[], .home, .empty, false, true, false⟩

def padLines (t : Terminal) : Nat := (t.maxY - bottomWindowSize).toNat

/-- The line under the cursor, as wide as the screen. -/
def here (t : Terminal) (b : Board) : Option Str :=
  b.lines[b.window.cursor]?.map (padded t.maxX)

def toggled (t : Terminal) (b : Board) : Board :=
  match b.here t with
  | none => b
  | some text => { b with selection := b.selection.toggle text }

def down (t : Terminal) (b : Board) : Board :=
  { b with window := b.window.down b.lines.length (padLines t) }

def up (b : Board) : Board := { b with window := b.window.up }

def last (t : Terminal) (b : Board) : Board :=
  if h : 0 < padLines t then
    { b with window := b.window.last b.lines.length (padLines t) t.maxY.toNat h }
  else b

/-- The space key selects, and `G` moves. Neither does anything else. -/
theorem toggled_frame (t : Terminal) (b : Board) :
    b.toggled t = { b with selection := (b.toggled t).selection } := by
  unfold toggled
  split <;> rfl

theorem last_frame (t : Terminal) (b : Board) :
    b.last t = { b with window := (b.last t).window } := by
  unfold last
  split <;> rfl

def home (b : Board) : Board := { b with window := .home }

/-- A key at the top level. -/
def press (t : Terminal) (b : Board) (c : Int) : Board :=
  if c = key 'q' ∨ c = key 'Q' then { b with running := false }
  else if c = key 'j' then b.down t
  else if c = key 'k' then b.up
  else if c = key 'G' then b.last t
  else if c = key ' ' then (b.toggled t).down t
  else if c = key '.' then { b with hidden := !b.hidden }
  else { b with homing := c = key 's' ∨ c = key 'r' }

def refreshed (b : Board) (out : Str) : Board :=
  { b with
    lines := linesOf out
    selection := .empty
    window := if b.homing then .home else b.window
    homing := false }

/-- What an exchange does to the board. Only `svn st`, keys at the top level and
the second key of `gg` do anything at all. -/
def see (t : Terminal) (b : Board) : Sigma Answer → Board
  | ⟨.getch .topLevel _, c⟩ => b.press t c
  | ⟨.getch .secondG _, c⟩ => if c = key 'g' then b.home else b
  | ⟨.getch _ _, _⟩ => b
  | ⟨.popen cmd _, some out⟩ => if cmd = statusCommand then b.refreshed out else b
  | ⟨.popen _ _, none⟩ => b

/-- The state that goes with the board, given how the rows are stored. -/
def state (t : Terminal) (b : Board) (rows : List Str) : State where
  isRunning := b.running
  statusItems := rows
  allStatusItems := b.lines
  selectedItems := b.selection.items
  cursorPosition := b.window.cursor
  maxX := t.maxX
  maxY := t.maxY
  padPos := b.window.top
  add := (.add, false)
  hidden := (.hidden, b.hidden)
  rm := (.rm, false)

end Board

/-- The board after some exchanges. -/
def boardOf (t : Terminal) (tr : History) : Board := tr.foldl (Board.see t) .opening

variable {t : Terminal} {tr : History} {s s' m : State} {b : Board} {rows : List Drawn}

theorem boardOf_concat (e : Sigma Answer) : boardOf t (tr ++ [e]) = (boardOf t tr).see t e := by
  rw [boardOf, List.foldl_append]
  rfl

/-- The state is that of the board. -/
def Represents (t : Terminal) (b : Board) (s : State) : Prop := s = b.state t s.statusItems

section Moves

theorem represents_draw (h : Represents t b m) (hd : printAllStatus m = .ok (s', rows)) :
    Represents t b s' := by
  obtain ⟨stored, rfl⟩ := printFrom_frame hd
  rw [Represents, h]
  rfl

theorem represents_placed (h : Represents t b s) (v : Window) :
    Represents t { b with window := v } (placed s v) := by
  rw [Represents, h]
  rfl

/-- Between two rounds the window of the board is that of the state, and there are
as many rows as lines. -/
theorem represents_shows (h : Represents t b s) (hk : Kept t tr s) :
    Shows s b.window ∧ s.statusItems.length = b.lines.length ∧ height s = Board.padLines t := by
  obtain ⟨v, hv, _⟩ := hk.shows
  have hcursor := hv.cursor
  have htop := hv.top
  have hlength := List.Forall₂.length_eq hk.lines
  rw [Represents] at h
  rw [h] at hcursor htop hlength
  have hwindow : b.window = v := by
    apply Window.ext
    · exact Int.ofNat_inj.mp htop
    · exact Int.ofNat_inj.mp hcursor
  refine ⟨hwindow ▸ hv, hlength.symm, ?_⟩
  rw [height, hk.maxY, Board.padLines]

theorem represents_down (h : Represents t b s) (hk : Kept t tr s) (hm : cursorDown s = .ok m) :
    Represents t (b.down t) m := by
  obtain ⟨hv, hlen, hheight⟩ := represents_shows h hk
  rw [cursorDown_placed hv hm, hlen, hheight]
  exact represents_placed h _

theorem represents_up (h : Represents t b s) (hk : Kept t tr s) (hm : cursorUp s = .ok m) :
    Represents t b.up m := by
  obtain ⟨hv, _, _⟩ := represents_shows h hk
  rw [cursorUp_placed hv hm]
  exact represents_placed h _

theorem represents_last (h : Represents t b s) (hk : Kept t tr s) :
    Represents t (b.last t) (cursorLast s) := by
  obtain ⟨hv, hlen, hheight⟩ := represents_shows h hk
  have hpos : 0 < Board.padLines t := hheight ▸ hv.height_pos
  have hmax : s.maxY.toNat = t.maxY.toNat := by rw [hk.maxY]
  rw [cursorLast_placed hv, Board.last, dif_pos hpos]
  simp only [hlen, hheight, hmax]
  exact represents_placed h _

theorem represents_home (h : Represents t b s) : Represents t b.home (atTop s) := by
  rw [Represents, h]
  rfl

theorem represents_quit (h : Represents t b s) :
    Represents t { b with running := false } { s with isRunning := false } := by
  rw [Represents, h]
  rfl

theorem represents_hidden (h : Represents t b s) :
    Represents t { b with hidden := !b.hidden } (s.toggleMode .hidden) := by
  rw [Represents, h]
  rfl

/-- What the space key takes from the stored rows is the line under the cursor of
the board. -/
theorem represents_here (h : Represents t b s) (hk : Kept t tr s) {item : Str}
    (hitem : index s.statusItems s.cursorPosition = .ok item) : b.here t = some item := by
  obtain ⟨hv, hlen, _⟩ := represents_shows h hk
  have hget := hv.index_cursor.mp hitem
  obtain ⟨hlt, _⟩ := List.getElem?_eq_some_iff.mp hget
  have hcursor : s.cursorPosition.toNat = b.window.cursor := by
    rw [hv.cursor]
    rfl
  have hlines : s.allStatusItems = b.lines := by
    rw [h]
    rfl
  rw [hcursor] at hget hlt
  obtain ⟨line, hline⟩ : ∃ line, s.allStatusItems[b.window.cursor]? = some line :=
    ⟨_, List.getElem?_eq_getElem (by rw [hlines, ← hlen]; exact hlt)⟩
  have hle : s.padPos ≤ (b.window.cursor : Int) := by
    have := b.window.top_le
    rw [hv.top]
    omega
  have hrow := row_below hk.below hv.offset.1 hle hline
  rw [hget] at hrow
  obtain rfl := Option.some.inj hrow
  rw [Board.here, ← hlines, hline, hk.maxX]
  rfl

theorem represents_toggled (h : Represents t b s) (hk : Kept t tr s)
    (hm : toggleSelected s = .ok m) : Represents t (b.toggled t) m := by
  obtain ⟨item, selected, hitem, hsel, rfl⟩ := toggleSelected_ok hm
  have hitems : s.selectedItems = b.selection.items := by
    rw [h]
    rfl
  have htoggle : selected = (b.selection.toggle item).items := by
    rw [hsel, hitems]
    by_cases hmem : item ∈ b.selection.items
    · rw [if_pos hmem, toggle_of_mem hmem]
    · rw [if_neg hmem, toggle_of_not_mem hmem]
  rw [Board.toggled, represents_here h hk hitem, htoggle, Represents]
  conv_lhs => rw [h]
  rfl

end Moves

section Refresh

/-- The board while `svn st` runs. -/
def Board.loading (b : Board) : Board :=
  { b with selection := .empty, window := if b.homing then .home else b.window }

theorem represents_cleared (h : Represents t b s) (hb : b.homing = false) :
    Represents t b.loading (cleared s) := by
  rw [Represents, Board.loading, hb, h]
  rfl

theorem represents_cleared_home (h : Represents t b s) (hb : b.homing = true) :
    Represents t b.loading (cleared (atTop s)) := by
  rw [Represents, Board.loading, hb, h]
  rfl

theorem represents_loaded {out text : Str} (h : Represents t b.loading (cleared m))
    (htext : popBack (execResult out) = .ok text) :
    Represents t (b.refreshed out) (loaded m text) := by
  obtain ⟨_, rfl⟩ := popBack_ok.mp htext
  have hm : loaded m (execResult out).dropLast = loaded (cleared m) (execResult out).dropLast := rfl
  rw [hm, Represents, h]
  rfl

end Refresh

end SvnCurses.Worklist
