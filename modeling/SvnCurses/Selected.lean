import SvnCurses.Picture
import SvnCurses.Toggle

namespace SvnCurses.Selected

open Cpp ProgramState Draw Interaction KeyEvent Round Rows Cursor Session Viewport Play
open Picture Toggle

/-- The widened text of the row that a space key was pressed on. -/
def pressed : Sigma Answer → Option Str
  | ⟨.getch .topLevel s, c⟩ =>
      if c = key ' ' then s.statusItems[s.cursorPosition.toNat]?.map (widened s.maxX) else none
  | _ => none

/-- The rows that space was pressed on since the last refresh. -/
def pressedSince (tr : History) : List Str := (sinceRefresh tr).filterMap pressed

/-- The selection is that of a set of texts toggled by each press. -/
structure Selects (xs : List Str) (s : State) : Prop where
  nodup : s.selectedItems.Nodup
  stored : ∀ item ∈ s.selectedItems, item ∈ s.statusItems
  odd : ∀ item, item ∈ s.selectedItems ↔ pressCount xs item % 2 = 1
  order : s.selectedItems.Pairwise (LastBefore xs)

variable {env : ∀ q, Answer q → Prop} {t : Terminal} {tr r : History} {p : Prog State}
  {s s' m : State}

theorem pressed_inner {q : Call} (hq : Inner s q) (a : Answer q) : pressed ⟨q, a⟩ = none := by
  cases hq with
  | @read site h =>
    cases site with
    | topLevel => exact absurd rfl h
    | _ => rfl
  | run h => rfl

theorem pressed_opened (hr : Opened s r) : r.filterMap pressed = [] := by
  obtain ⟨c, mid, hc, hmid, rfl⟩ := hr
  apply List.filterMap_eq_nil_iff.mpr
  intro e he
  obtain rfl | he := List.mem_cons.mp he
  · exact if_neg hc
  · exact pressed_inner (hmid e he) e.2

theorem pressedSince_append (hr : ∀ e ∈ r, refreshOf e = none) :
    pressedSince (tr ++ r) = pressedSince tr ++ r.filterMap pressed := by
  rw [pressedSince, pressedSince, sinceRefresh_append hr, List.filterMap_append]

theorem pressedSince_opened (hr : Opened s r) : pressedSince (tr ++ r) = pressedSince tr := by
  rw [pressedSince_append (refreshOf_opened hr), pressed_opened hr, List.append_nil]

theorem pressed_space (hs : Stored tr s) (hk : Kept t tr s) {item : Str}
    (hitem : index s.statusItems s.cursorPosition = .ok item) :
    pressed ⟨.getch .topLevel s, key ' '⟩ = some item := by
  obtain ⟨v, hv, _⟩ := hk.shows
  have hget := hv.index_cursor.mp hitem
  obtain ⟨line, hline, rfl⟩ := hs.cursor item hitem
  have hlen := hs.fits line (List.mem_of_getElem? hline)
  simp only [pressed, ↓reduceIte, hget, Option.map_some, widened_of_length hlen]

theorem selected_toggle {xs : List Str} {item : Str} (h : s.selectedItems = (presses xs).items) :
    (if item ∈ s.selectedItems then s.selectedItems.filter (· ≠ item)
      else s.selectedItems ++ [item]) = (presses (xs ++ [item])).items := by
  rw [h, presses_concat]
  by_cases hmem : item ∈ (presses xs).items
  · rw [if_pos hmem, toggle_of_mem hmem]
  · rw [if_neg hmem, toggle_of_not_mem hmem]

theorem selected_draw {v : Window} {rows : List Drawn} (hm : Shows m v)
    (hd : printAllStatus m = .ok (s', rows)) : s'.selectedItems = m.selectedItems := by
  rw [hm.redrawn hd]

/-- The state refines the toggled set. -/
def Refines (tr : History) (s : State) : Prop := s.selectedItems = (presses (pressedSince tr)).items

theorem refines_draws (hs : Stored tr s) (hk : Kept t tr s) (h : Refines tr s) (hm : Draws s r m) :
    Refines (tr ++ r) m := by
  obtain ⟨v, hv, _⟩ := hk.shows
  cases hm with
  | moved hc hmid hm =>
    obtain ⟨k, rfl, _⟩ := moves_placed hv hm
    rw [Refines, pressedSince_opened ⟨_, _, hc, hmid, rfl⟩]
    exact h
  | @toggled m _ hm hm' =>
    rw [toggle_placed hv hm hm', Refines, pressedSince_append (refreshOf_space s)]
    obtain ⟨item, selected, hitem, hsel, rfl⟩ := toggleSelected_ok hm
    have hpress : [(⟨.getch .topLevel s, key ' '⟩ : Sigma Answer)].filterMap pressed = [item] := by
      rw [List.filterMap_cons, pressed_space hs hk hitem]
      rfl
    rw [hpress, ← selected_toggle h]
    exact hsel
  | refreshed hr hm htext =>
    rw [Refines, pressedSince, ← List.append_assoc, sinceRefresh_status]
    rfl

theorem refines_round (hs : Stored tr s) (hk : Kept t tr s) (h : Refines tr s) (he : Ends s r s') :
    Refines (tr ++ r) s' := by
  cases he with
  | idle hr hs' =>
    rw [Refines, pressedSince_opened hr, hs']
    exact h
  | drawn hm hd =>
    obtain ⟨v, hready⟩ := ready_draws hk hm hd
    rw [Refines, selected_draw hready.shows hd]
    exact refines_draws hs hk h hm

theorem refines_main (h : MainEnds t r s) : Refines r s := by
  cases h with
  | drawn hm hd =>
    have hready := ready_main hm hd
    rw [Refines, selected_draw hready.shows hd]
    cases hm with
    | refreshed ht htext => rfl

theorem session_refines (h : Session (LinesFit t.maxX) t tr (.done s)) : Refines tr s :=
  session_done (fun _ _ hm _ => refines_main hm)
    (fun _ _ _ _ hp hi he _ =>
      refines_round (kept_stored (session_kept hp) (reaches_allowed hp)) (session_kept hp) hi he) h

theorem refines_selects (hk : Kept t tr s) (h : Refines tr s) : Selects (pressedSince tr) s := by
  have hitems : s.selectedItems = (presses (pressedSince tr)).items := h
  refine ⟨?_, fun item hitem => (hk.selectable item hitem).1, fun item => ?_, ?_⟩
  · rw [hitems]
    exact (presses (pressedSince tr)).nodup
  · rw [hitems]
    exact mem_presses _ item
  · rw [hitems]
    exact presses_pairwise (pressedSince tr)

theorem selects_opened {past : History} (hp : Session (LinesFit t.maxX) t past (.done s))
    (hr : r = [] ∨ Opened s r) : Selects (pressedSince (past ++ r)) s := by
  have hpressed : pressedSince (past ++ r) = pressedSince past := by
    obtain rfl | hr := hr
    · rw [List.append_nil]
    · exact pressedSince_opened hr
  rw [hpressed]
  exact refines_selects (session_kept hp) (session_refines hp)

/-- The texts that a command takes over: without their first seven characters,
with blanks between them. -/
def operandText (items : List Str) : Str := join (items.map (List.drop 7)) [' ']

/-- Whatever the run, the selection is that of the texts pressed since the last
refresh, and a confirmed command takes over just these. -/
theorem selection_toggles (h : Session (LinesFit t.maxX) t tr p) :
    (∀ site s next, p = .ask (.getch site s) next → Selects (pressedSince tr) s) ∧
      ∀ cmd s next, p = .ask (.popen cmd s) next → cmd ≠ statusCommand → cmd ≠ updateCommand →
        Selects (pressedSince tr) s ∧
          ∃ verb ∈ ["svn add ".toList, "svn rm ".toList, "svn rm --keep-local ".toList],
            cmd = verb ++ operandText s.selectedItems := by
  constructor
  · rintro site s next rfl
    obtain ⟨past, r, hp, rfl, hr⟩ := session_reads h
    exact selects_opened hp hr
  · rintro cmd s next rfl hst hup
    obtain ⟨⟨past, r, hp, rfl, hr⟩, hcmd⟩ := session_command h hst hup
    refine ⟨selects_opened hp hr, ?_⟩
    obtain rfl | ⟨k, rfl⟩ := hcmd
    · exact ⟨_, .head _, rfl⟩
    · by_cases hk : k = key 'y'
      · subst hk
        exact ⟨_, .tail _ (.tail _ (.head _)), removeCommand_keep s⟩
      · exact ⟨_, .tail _ (.head _), removeCommand_delete s hk⟩

theorem selection_toggles_add : ∃ tr s next,
    Session (LinesFit narrowTerminal.maxX) narrowTerminal tr
        (.ask (.popen "svn add  b     a   ".toList s) next) ∧
      keysOf tr = [key ' ', key ' ', key 'k', key ' ', key 'k', key ' ', key 'a', key 'y'] ∧
      Selects (pressedSince tr) s := by
  obtain ⟨tr, s, next, h, hkeys⟩ := play_runs (LinesFit narrowTerminal.maxX) narrowTerminal 9
    [.inr "?       a\n?       b\n".toList, .inl (key ' '), .inl (key ' '), .inl (key 'k'),
      .inl (key ' '), .inl (key 'k'), .inl (key ' '), .inl (key 'a'), .inl (key 'y')]
    "svn add  b     a   ".toList
    (fun tr _ =>
      keysOf tr = [key ' ', key ' ', key 'k', key ' ', key 'k', key ' ', key 'a', key 'y'])
    (by decide +kernel) (by decide +kernel)
  exact ⟨tr, s, next, h, hkeys, ((selection_toggles h).2 _ _ _ rfl (by decide) (by decide)).1⟩

end SvnCurses.Selected
