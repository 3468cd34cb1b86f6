import SvnCurses.Consent
import SvnCurses.Loop
import SvnCurses.Selected

namespace SvnCurses.Reach

open Cpp ProgramState Draw Interaction KeyEvent Round Rows Cursor Session Viewport Play Toggle
open Worklist Display Painted Watching Shown Ending Selected Consent

section Keys

variable {t : Terminal} {b : Board} {i k : Nat} {x : Str} {xs : List Str}

/-- Keys at the top level, one after the other. -/
def presses (t : Terminal) (b : Board) (ks : List Int) : Board := ks.foldl (Board.press t) b

/-- The keys that move by one row, and the one that selects. -/
def Simple (ks : List Int) : Prop := ∀ c ∈ ks, c = key 'j' ∨ c = key 'k' ∨ c = key ' '

theorem Simple.append {ks more : List Int} (h : Simple ks) (hmore : Simple more) :
    Simple (ks ++ more) := by
  intro c hc
  obtain hc | hc := List.mem_append.mp hc
  · exact h c hc
  · exact hmore c hc

/-- The text is that of a line of the board. -/
def Offers (t : Terminal) (b : Board) (x : Str) : Prop := ∃ line ∈ b.lines, padded t.maxX line = x

end Keys

section Runs

variable {env : ∀ q, Answer q → Prop} {t : Terminal} {tr r : History} {s : State} {c : Int}
  {ks : List Int} {b : Board} {i : Nat} {xs : List Str}

/-- The new lines of the board are those of the state. -/
theorem board_offers (h : Session env t tr (.done s))
    (hxs : ∀ x ∈ xs, ∃ line ∈ s.allStatusItems, padded t.maxX line = x) :
    ∀ x ∈ xs, Offers t (boardOf t tr) x := by
  have hb := board_done h
  rw [Represents] at hb
  rw [hb] at hxs
  exact hxs

/-- What is selected is the text of a line. -/
theorem selection_offers (h : Session env t tr (.done s)) :
    ∀ x ∈ (boardOf t tr).selection.items, Offers t (boardOf t tr) x := by
  have hk := session_kept h
  have hb := board_done h
  have hsel : s.selectedItems = (boardOf t tr).selection.items := by rw [hb]; rfl
  rw [← hsel]
  apply board_offers h
  intro x hx
  obtain ⟨hstored, hpadded⟩ := hk.selectable x hx
  obtain ⟨k, hlt, rfl⟩ := List.getElem_of_mem hstored
  have hlen := List.Forall₂.length_eq hk.lines
  have hlt' : k < s.allStatusItems.length := by omega
  refine ⟨s.allStatusItems[k], List.getElem_mem hlt', ?_⟩
  rw [← hk.maxX]
  obtain hrow | hrow := List.Forall₂.get hk.lines hlt' hlt
  · simp only [List.get_eq_getElem] at hrow
    rw [← hrow]
    exact hpadded
  · exact hrow.symm

end Runs

end SvnCurses.Reach
