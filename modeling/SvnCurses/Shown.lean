import SvnCurses.Watching

namespace SvnCurses.Shown

open Cpp ProgramState Draw Interaction KeyEvent Round Rows Cursor Session Viewport Play Observer
open Worklist Display Console Painted Watching

variable {env : ∀ q, Answer q → Prop} {t : Terminal} {tr : History} {p : Prog State} {q : Call}
  {s m : State} {scr : Screen} {site : Site}

theorem displays_asks {next : Answer q → Prog State} (h : Displays env t scr tr (.ask q next)) :
    Presents t scr tr q := (displays_shown h).1

theorem session_displays (h : Session env t tr p) : ∃ scr, Displays env t scr tr p :=
  reaches_observed (display t) Screen.fresh h

section TopLevel

/-- A key is only read at the top level where a round begins. -/
theorem top_round {next : Int → Prog State}
    (h : Displays env t scr tr (.ask (.getch .topLevel s) next)) :
    Displays env t scr tr (.done s) ∧ s.isRunning = true ∧
      keyEvent s = .ask (.getch .topLevel s) next := by
  obtain hw | ⟨past, m, r, scr', hp, hs, hw, rfl, hfirst⟩ :=
    observed_rounds (fun m => ⟨_, _, rfl⟩) h
  · have hsafe := within_safe main_safe hw
    cases hsafe.1.2
  · have hr : r = [] := by
      cases (within_safe keyEvent_round hw).1 with
      | top => rfl
      | prompt _ hsite => exact absurd rfl hsite
    obtain ⟨rfl, hbegin⟩ := hfirst hr
    cases hbegin
    rw [hr, List.append_nil]
    exact ⟨hp, hs, rfl⟩

theorem session_top {next : Int → Prog State}
    (h : Session env t tr (.ask (.getch .topLevel s) next)) :
    Session env t tr (.done s) ∧ s.isRunning = true ∧
      keyEvent s = .ask (.getch .topLevel s) next := by
  obtain ⟨scr, hd⟩ := session_displays h
  obtain ⟨hdone, hs, hkey⟩ := top_round hd
  exact ⟨observed_reaches hdone, hs, hkey⟩

end TopLevel

section State

theorem board_asked {next : Answer q → Prog State} (h : Session env t tr (.ask q next)) :
    Represents t (boardAt t tr q) q.state := by
  obtain ⟨scr, hd⟩ := session_displays h
  exact (displays_asks hd).board

theorem board_done (h : Session env t tr (.done s)) : Represents t (boardOf t tr) s := by
  obtain ⟨scr, hd⟩ := session_displays h
  exact (displays_shown hd).holds.board

theorem outdated_since {past later : History} {e : Sigma Answer}
    (h : outdated (past ++ e :: later) = false) (he : seeOutdated (outdated past) e = true) :
    ∃ m out, ⟨.popen statusCommand m, some out⟩ ∈ later := by
  induction later using List.reverseRecOn with
  | nil =>
    rw [outdated_concat, he] at h
    cases h
  | append_singleton later x ih =>
    rw [← List.cons_append, ← List.append_assoc, outdated_concat] at h
    obtain ⟨q, a⟩ := x
    have hrest : seeOutdated (outdated (past ++ e :: later)) ⟨q, a⟩ =
        outdated (past ++ e :: later) →
          ∃ m out, ⟨.popen statusCommand m, some out⟩ ∈ later ++ [⟨q, a⟩] := by
      intro hsame
      obtain ⟨m, out, hmem⟩ := ih (hsame ▸ h)
      exact ⟨m, out, List.mem_append_left _ hmem⟩
    cases q with
    | getch site s => exact hrest rfl
    | popen cmd m =>
      cases a with
      | none => exact hrest rfl
      | some out =>
        have hcmd : cmd = statusCommand := by simpa [seeOutdated] using h
        rw [hcmd]
        exact ⟨m, out, by simp⟩

/-- After a command that may change the working copy, `svn st` is run before the
next command and before the next key, except for the one that dismisses the output
of `svn up`. -/
theorem lines_up_to_date {next : Answer q → Prog State} (h : Session env t tr (.ask q next))
    (hq : actsOn q = true) {past later : History} {cmd : Str} {out : Str}
    (htr : tr = past ++ ⟨.popen cmd s, some out⟩ :: later) (hcmd : cmd ≠ statusCommand) :
    ∃ m out, ⟨.popen statusCommand m, some out⟩ ∈ later := by
  obtain ⟨scr, hd⟩ := session_displays h
  have hfresh := (displays_asks hd).fresh hq
  rw [htr] at hfresh
  exact outdated_since hfresh (decide_eq_true hcmd)

theorem lines_up_to_date_added : ∃ tr s next past cmd m out later,
    Session (fun _ _ => True) narrowTerminal tr (.ask (.getch .topLevel s) next) ∧
      tr = past ++ ⟨.popen cmd m, some out⟩ :: later ∧ cmd ≠ statusCommand ∧
      ∃ m out, ⟨.popen statusCommand m, some out⟩ ∈ later := by
  obtain ⟨tr, s, next, h, hran⟩ := play_reads (fun _ _ => True) narrowTerminal 3
    [.inr "?       a\n".toList, .inl (key ' '), .inl (key 'a'), .inl (key 'y'), .inr [],
      .inr "A       a\n".toList]
    (fun tr _ => tr.any (fun e => actsOn e.1 && seeOutdated false e) = true) (fun _ _ => trivial)
    (by decide +kernel)
  obtain ⟨⟨q, a⟩, hmem, hq⟩ := List.any_eq_true.mp hran
  obtain ⟨past, later, htr⟩ := List.append_of_mem hmem
  cases q with
  | getch site m => simp [seeOutdated] at hq
  | popen cmd m =>
    cases a with
    | none => simp [seeOutdated] at hq
    | some out =>
      have hcmd : cmd ≠ statusCommand := by simpa [actsOn, seeOutdated] using hq
      exact ⟨tr, s, next, past, cmd, m, out, later, h, htr, hcmd, lines_up_to_date h rfl htr hcmd⟩

end State

section View

/-- The branch that draws a row. -/
def formOf (selected underCursor : Bool) (text : Str) : Form :=
  if selected then if underCursor then .selectedUnderCursor else .selected
  else if underCursor then .underCursor
  else .plain (colorPair (text.headD ' '))

/-- A selected row has a blank before its path. -/
def marked (text : Str) : Str := (text.take 8 ++ [' '] ++ text.drop 8).dropLast

/-- How a line of the board is drawn. -/
def drawLine (selected : List Str) (cursor maxX : Int) (line : Str) (k : Int) : Drawn :=
  let text := padded maxX line
  ⟨k, formOf (text ∈ selected) (k = cursor) text, if text ∈ selected then marked text else text⟩

/-- What should be on the pad: the lines from the top of the window on. -/
def view (t : Terminal) (b : Board) : List Drawn :=
  ((b.lines.drop b.window.top).zipIdx b.window.top).map fun x =>
    drawLine b.selection.items b.window.cursor t.maxX x.1 x.2

variable {selected items rows lines : List Str} {cursor maxX i : Int} {ds : List Drawn}

theorem shifted_marked {item text : Str} (h : shifted item = .ok text) : text = marked item := by
  obtain ⟨u, hu, he⟩ := bind_ok.mp h
  obtain ⟨_, _, rfl⟩ := insertAt_ok.mp hu
  cases he
  rfl

theorem drawItem_form {b u : Bool} {item text : Str} {form : Form}
    (h : drawItem b u item = .ok (form, text)) :
    form = formOf b u item ∧ text = if b then marked item else item := by
  cases b <;> cases u <;> simp only [drawItem, Bool.false_and, Bool.true_and, Bool.not_true,
    Bool.not_false, Bool.false_eq_true, ↓reduceIte, bind_ok, Except.ok.injEq, Prod.mk.injEq] at h
  · obtain ⟨c, hc, rfl, rfl⟩ := h
    cases item with
    | nil => cases hc
    | cons d item =>
      cases hc
      exact ⟨rfl, rfl⟩
  · obtain ⟨rfl, rfl⟩ := h
    exact ⟨rfl, rfl⟩
  · obtain ⟨u, hu, rfl, rfl⟩ := h
    exact ⟨rfl, shifted_marked hu⟩
  · obtain ⟨u, hu, rfl, rfl⟩ := h
    exact ⟨rfl, shifted_marked hu⟩

theorem drawRows_view (h : drawRows selected cursor maxX i rows = .ok (items, ds))
    (hrows : rows.map (padded maxX) = lines.map (padded maxX))
    (hstable : ∀ row ∈ rows, row ∈ selected ↔ padded maxX row ∈ selected) {k : Nat} (hk : i = k) :
    ds = (lines.zipIdx k).map fun x => drawLine selected cursor maxX x.1 x.2 := by
  induction rows generalizing i items ds lines k with
  | nil =>
    cases h
    obtain rfl : lines = [] := by simpa using hrows.symm
    rfl
  | cons row rows ih =>
    obtain ⟨item, drawn, rest, hitem, hdrawn, _, _, hrest, he⟩ := drawRows_cons.mp h
    obtain ⟨rfl, rfl⟩ := Prod.mk.inj he
    cases lines with
    | nil => cases hrows
    | cons line lines =>
      obtain ⟨hline, hrows⟩ := List.cons.inj hrows
      have hmore := ih hrest hrows (fun r hr => hstable r (List.mem_cons_of_mem row hr))
        (k := k + 1) (by omega)
      obtain ⟨hform, htext⟩ := drawItem_form hdrawn
      have hsel := hstable row List.mem_cons_self
      rw [(append_padded hitem).2, hline] at hform htext
      rw [hline] at hsel
      rw [List.zipIdx_cons, List.map_cons, ← hmore, drawLine, hform, htext, hk]
      simp only [hsel, decide_eq_true_eq]

theorem stable_of_nodup {v : Window} (hm : Ready t tr m v)
    (hnodup : (m.allStatusItems.map (padded m.maxX)).Nodup) : Stable m := by
  intro row hrow
  constructor
  · intro hsel
    rw [(hm.selectable row hsel).2]
    exact hsel
  · intro hsel
    rw [← lines_map hm.lines] at hnodup
    have hstored := (hm.selectable _ hsel).1
    have hsame := List.inj_on_of_nodup_map hnodup (List.mem_of_mem_drop hrow) hstored
      (padded_padded m.maxX row).symm
    rw [hsame]
    exact hsel

theorem current_view {rows : List Drawn} (h : Holds t tr s rows)
    (hlines : FromTop tr ∨ ((boardOf t tr).lines.map (padded t.maxX)).Nodup) :
    rows = view t (boardOf t tr) := by
  obtain ⟨m, s', v, hready, hd, hstable, hs⟩ := h.current.drawn
  obtain ⟨hi, hmax⟩ := hready.shows.offset
  have hb := h.board
  obtain ⟨items, hdraw, rfl⟩ := (printAllStatus_ok hi hmax).mp hd
  rw [hs] at hb
  simp only [Represents, Board.state, State.mk.injEq] at hb
  obtain ⟨-, -, hall, hsel, hcursor, hmaxX, -, hpos, -⟩ := hb
  have htop : m.padPos.toNat = (boardOf t tr).window.top := by
    rw [hpos]
    rfl
  have hst : Stable m := by
    obtain hfrom | hnodup := hlines
    · exact hstable hfrom
    · apply stable_of_nodup hready
      rw [hall, hmaxX]
      exact hnodup
  have hrows : (m.statusItems.drop m.padPos.toNat).map (padded m.maxX) =
      (m.allStatusItems.drop m.padPos.toNat).map (padded m.maxX) := by
    rw [List.map_drop, List.map_drop, lines_map hready.lines]
  rw [drawRows_view hdraw hrows hst (k := (boardOf t tr).window.top) hpos, htop, hall, hsel,
    hcursor, hmaxX, view]

/-- Whenever a key is read, the pad has what the board says it should have, if the
list was last read at the top or its lines differ. -/
theorem pad_is_view {next : Int → Prog State}
    (h : Displays env t scr tr (.ask (.getch site s) next))
    (hlines : FromTop tr ∨ ((boardOf t tr).lines.map (padded t.maxX)).Nodup) :
    scr.pad.map Printed.drawn = view t (boardOf t tr) :=
  current_view ((displays_asks h).reading _ _ rfl) hlines

theorem pad_is_view_selected : ∃ scr tr s next,
    Displays (fun _ _ => True) narrowTerminal scr tr (.ask (.getch .topLevel s) next) ∧
      keysOf tr = [key ' ', key 'j', key '.', key 'k'] ∧
      scr.pad.map Printed.drawn = view narrowTerminal (boardOf narrowTerminal tr) := by
  obtain ⟨tr, s, next, h, hkeys, htop⟩ := play_reads (fun _ _ => True) narrowTerminal 5
    [.inr "? a\n? b\n? c\n".toList, .inl (key ' '), .inl (key 'j'), .inl (key '.'), .inl (key 'k')]
    (fun tr _ => keysOf tr = [key ' ', key 'j', key '.', key 'k'] ∧ FromTop tr) (fun _ _ => trivial)
    (by decide +kernel)
  obtain ⟨scr, hd⟩ := session_displays h
  exact ⟨scr, tr, s, next, hd, hkeys, pad_is_view hd (.inl htop)⟩

end View

section Bottom

/-- Whenever the program waits, the bottom window has its own question on it, or
else what the last round has left there. -/
theorem bottom_window {next : Answer q → Prog State} (h : Displays env t scr tr (.ask q next)) :
    scr.notes = notesAt t tr q := (displays_asks h).notes

theorem bottom_window_hidden : ∃ scr tr s next,
    Displays (fun _ _ => True) narrowTerminal scr tr (.ask (.getch .topLevel s) next) ∧
      scr.notes = [.plain "HIDDEN = true".toList] := by
  obtain ⟨tr, s, next, h, hnotes⟩ := play_reads (fun _ _ => True) narrowTerminal 4
    [.inr "? a\n".toList, .inl (key '.'), .inl (key 's'), .inr "? a\n".toList]
    (fun tr s => notesAt narrowTerminal tr (.getch .topLevel s) = [.plain "HIDDEN = true".toList])
    (fun _ _ => trivial) (by decide +kernel)
  obtain ⟨scr, hd⟩ := session_displays h
  exact ⟨scr, tr, s, next, hd, (bottom_window hd).trans hnotes⟩

/-- Questions set the delay, and nothing sets it back. -/
theorem key_delay {next : Answer q → Prog State} (h : Displays env t scr tr (.ask q next)) :
    scr.delay = delayAt tr q := (displays_asks h).delay

theorem key_delay_declined : ∃ scr tr s next,
    Displays (fun _ _ => True) narrowTerminal scr tr (.ask (.getch .topLevel s) next) ∧
      scr.delay = 12000 := by
  obtain ⟨tr, s, next, h, hdelay⟩ := play_reads (fun _ _ => True) narrowTerminal 4
    [.inr "? a\n".toList, .inl (key 'a'), .inl (key 'n'), .inr "? a\n".toList, .inl (key 'j')]
    (fun tr s => delayAt tr (.getch .topLevel s) = 12000) (fun _ _ => trivial) (by decide +kernel)
  obtain ⟨scr, hd⟩ := session_displays h
  exact ⟨scr, tr, s, next, hd, (key_delay hd).trans hdelay⟩

end Bottom

end SvnCurses.Shown
