import SvnCurses.Play

namespace SvnCurses.CursorBounds

open Cpp ProgramState Draw Interaction KeyEvent Round Rows Cursor Session Viewport Play

variable {env : ∀ q, Answer q → Prop} {t : Terminal} {tr r : History} {p : Prog State}
  {s s' m : State} {v : Window}

section ScrollOffset

theorem session_window (h : Session env t tr p) (ha : At p s) :
    ∃ v : Window, s.cursorPosition = v.cursor ∧ s.padPos = v.top ∧
      (FromTop tr → v.Fits s.statusItems.length (height s)) := by
  obtain ⟨rfl, rfl⟩ | ⟨past, r, m, hp, rfl, hr, hs⟩ := session_at h ha
  · exact ⟨Window.home, rfl, rfl, fun _ => Window.fits_home⟩
  · obtain ⟨v, hv, hfits⟩ := (kept_opened (session_kept hp) hr).shows
    obtain rfl | rfl | rfl := hs
    · exact ⟨v, hv.cursor, hv.top, hfits⟩
    · exact ⟨v, hv.cursor, hv.top, hfits⟩
    · exact ⟨Window.home, rfl, rfl, fun _ => Window.fits_home⟩

theorem padPos_bounds (h : Session env t tr p) (ha : At p s) :
    (0 ≤ s.padPos ∧ s.padPos ≤ s.cursorPosition) ∧
      (FromTop tr → s.padPos ≤ max 0 (s.statusItems.length - (s.maxY - bottomWindowSize))) := by
  obtain ⟨v, hcursor, htop, hfits⟩ := session_window h ha
  have hle := v.top_le
  refine ⟨by omega, fun hfrom => ?_⟩
  have hfit : v.top ≤ s.statusItems.length - height s := hfits hfrom
  simp only [height] at hfit
  omega

theorem padPos_bounds_scrolled : ∃ tr s next,
    Session (fun _ _ => True) narrowTerminal tr (.ask (.getch .topLevel s) next) ∧
      (FromTop tr ∧ s.padPos = 1) ∧ (0 ≤ s.padPos ∧ s.padPos ≤ s.cursorPosition) ∧
      s.padPos ≤ max 0 (s.statusItems.length - (s.maxY - bottomWindowSize)) := by
  obtain ⟨tr, s, next, h, htop, hpad⟩ := play_reads (fun _ _ => True) narrowTerminal 3
    [.inr "? a\n? b\n? c\n".toList, .inl (key 'j'), .inl (key 'j')]
    (fun tr s => FromTop tr ∧ s.padPos = 1) (fun _ _ => trivial) (by decide +kernel)
  obtain ⟨hle, hmax⟩ := padPos_bounds h .reading
  exact ⟨tr, s, next, h, ⟨htop, hpad⟩, hle, hmax htop⟩

end ScrollOffset

section Visible

/-- The states in which `G` keeps the cursor on the pad: its last line is on the
pad already, or there are enough rows for `G` to scroll. -/
def ShowsLast (s : State) : Prop :=
  s.statusItems.length ≤ s.padPos + (s.maxY - bottomWindowSize) ∨
    s.maxY + 1 < s.statusItems.length

instance (s : State) : Decidable (ShowsLast s) :=
  inferInstanceAs (Decidable (s.statusItems.length ≤ s.padPos + (s.maxY - bottomWindowSize) ∨
    s.maxY + 1 < s.statusItems.length))

/-- Since the last refresh `G` was only pressed where it keeps the cursor on the pad. -/
def JumpsSafely (tr : History) : Prop :=
  ∀ m, ⟨.getch .topLevel m, key 'G'⟩ ∈ sinceRefresh tr → ShowsLast m

/-- The cursor is on a row of the list that the pad shows. -/
def OnPad (s : State) : Prop :=
  s.cursorPosition < s.statusItems.length ∧
    s.cursorPosition < s.padPos + (s.maxY - bottomWindowSize)

theorem onPad_iff (h : Shows s v) :
    OnPad s ↔ v.InList s.statusItems.length ∧ v.Visible (height s) := by
  have hpad := h.pad
  simp only [OnPad, Window.InList, Window.Visible, height, h.cursor, h.top]
  omega

theorem jumpsSafely_append (hr : ∀ e ∈ r, refreshOf e = none) (h : JumpsSafely (tr ++ r)) :
    JumpsSafely tr := by
  intro m hm
  apply h m
  rw [sinceRefresh_append hr]
  exact List.mem_append_left _ hm

theorem onPad_move (h : Shows s v) (hpad : OnPad s) {k : Window.Move}
    (hlast : k = .last → ShowsLast s) :
    OnPad (placed s (v.move s.statusItems.length (height s) s.maxY.toNat h.height_pos k)) := by
  obtain ⟨hin, hvis⟩ := (onPad_iff h).mp hpad
  refine (onPad_iff (h.move k)).mpr ⟨Window.inList_move h.height_pos hin, ?_⟩
  apply Window.visible_move h.height_pos hin hvis
  intro hk
  have hpos := h.pad
  have htop := h.top
  obtain hshown | hmany := hlast hk
  · apply Or.inl
    simp only [height]
    omega
  · apply Or.inr
    simp only [bottomWindowSize] at hpos
    omega

theorem onPad_draw (hm : Shows m v) {rows : List Drawn} (hd : printAllStatus m = .ok (s', rows))
    (h : OnPad m) : OnPad s' := by
  have hlen := hm.redrawn_length hd
  have hs := hm.redrawn hd
  simp only [OnPad, hlen]
  rw [hs]
  exact h

theorem onPad_loaded {text : Str} (hY : 0 < m.maxY - bottomWindowSize)
    (hcursor : m.cursorPosition = 0) (htop : m.padPos = 0) : OnPad (loaded m text) := by
  have hrows : 0 < (split text '\n').length := List.length_pos_iff.mpr (split_ne_nil _ _)
  simp only [OnPad, loaded, hcursor, htop]
  omega

theorem onPad_main (h : MainEnds t r s) : OnPad s := by
  cases h with
  | drawn hm hd =>
    have hready := ready_main hm hd
    cases hm with
    | refreshed ht _ => exact onPad_draw hready.shows hd (onPad_loaded ht.1 rfl rfl)

theorem onPad_draws (hk : Kept t tr s) (hold : (∀ e ∈ r, refreshOf e = none) → OnPad s)
    (h : Draws s r m) (htop : FromTop (tr ++ r)) (hjumps : JumpsSafely (tr ++ r)) : OnPad m := by
  obtain ⟨v, hv, _⟩ := hk.shows
  cases h with
  | @moved c mid m hc hmid hm =>
    have hnone := refreshOf_opened ⟨c, mid, hc, hmid, rfl⟩
    obtain ⟨k, rfl, hkey⟩ := moves_placed hv hm
    refine onPad_move hv (hold hnone) fun hlast => hjumps s ?_
    rw [sinceRefresh_append hnone, hkey hlast]
    simp
  | toggled hm hm' =>
    rw [toggle_placed hv hm hm']
    exact onPad_move (k := .down) hv (hold (refreshOf_space s)) nofun
  | @refreshed r m out text hr hm htext =>
    obtain ⟨e, hlast, hcursor, hpos⟩ := htop
    rw [← List.append_assoc, lastRefresh_status] at hlast
    cases hlast
    refine onPad_loaded ?_ hcursor hpos
    obtain rfl | rfl := hm
    · exact hv.pad
    · exact hv.pad

theorem onPad_round (hk : Kept t tr s) (hpad : FromTop tr → JumpsSafely tr → OnPad s)
    (h : Ends s r s') (htop : FromTop (tr ++ r)) (hjumps : JumpsSafely (tr ++ r)) : OnPad s' := by
  have hold : (∀ e ∈ r, refreshOf e = none) → OnPad s := fun hnone =>
    hpad ((fromTop_append hnone).mp htop) (jumpsSafely_append hnone hjumps)
  cases h with
  | idle hr hs =>
    rw [hs]
    exact hold (refreshOf_opened hr)
  | drawn hm hd =>
    obtain ⟨v, hready⟩ := ready_draws hk hm hd
    exact onPad_draw hready.shows hd (onPad_draws hk hold hm htop hjumps)

theorem session_onPad (h : Session env t tr (.done s)) : FromTop tr → JumpsSafely tr → OnPad s :=
  session_done (fun _ _ hm _ _ _ => onPad_main hm)
    (fun _ _ _ _ hp hi he _ => onPad_round (session_kept hp) hi he) h

theorem cursor_on_pad (h : Session env t tr p) (ha : At p s) (htop : FromTop tr)
    (hjumps : JumpsSafely tr) :
    s.padPos ≤ s.cursorPosition ∧ s.cursorPosition < s.padPos + (s.maxY - bottomWindowSize) := by
  have hbelow := (padPos_bounds h ha).1.2
  refine ⟨hbelow, ?_⟩
  obtain ⟨rfl, rfl⟩ | ⟨past, r, m, hp, rfl, hr, hs⟩ := session_at h ha
  · obtain ⟨e, he, _⟩ := htop
    cases he
  · have hnone : ∀ e ∈ r, refreshOf e = none := by
      obtain rfl | hr := hr
      · simp
      · exact refreshOf_opened hr
    have hpad := session_onPad hp ((fromTop_append hnone).mp htop) (jumpsSafely_append hnone hjumps)
    obtain ⟨v, hv, _⟩ := (session_kept hp).shows
    obtain rfl | rfl | rfl := hs
    · exact hpad.2
    · exact hpad.2
    · have hpos := hv.pad
      simp only [cleared, atTop]
      omega

theorem cursor_on_pad_jumped : ∃ tr s next,
    Session (fun _ _ => True) narrowTerminal tr (.ask (.getch .topLevel s) next) ∧
      keysOf (sinceRefresh tr) = [key 'j', key 'G'] ∧
      s.padPos ≤ s.cursorPosition ∧ s.cursorPosition < s.padPos + (s.maxY - bottomWindowSize) := by
  obtain ⟨tr, s, next, h, htop, hkeys, hjumps⟩ := play_reads (fun _ _ => True) narrowTerminal 3
    [.inr "? a\n? b\n".toList, .inl (key 'j'), .inl (key 'G')]
    (fun tr s => FromTop tr ∧ keysOf (sinceRefresh tr) = [key 'j', key 'G'] ∧
      ∀ e ∈ sinceRefresh tr, ShowsLast (e.1.state)) (fun _ _ => trivial) (by decide +kernel)
  exact ⟨tr, s, next, h, hkeys, cursor_on_pad h .reading htop fun m hm => hjumps _ hm⟩

/-- A list that is longer than the pad, but not longer than the screen, is not
scrolled by `G`. -/
theorem cursor_off_pad : ∃ tr s next,
    Session (fun _ _ => True) narrowTerminal tr (.ask (.getch .topLevel s) next) ∧ FromTop tr ∧
      keysOf (sinceRefresh tr) = [key 'G'] ∧ 1 ≤ s.maxY - bottomWindowSize ∧
      ¬ s.cursorPosition < s.padPos + (s.maxY - bottomWindowSize) :=
  play_reads (fun _ _ => True) narrowTerminal 2
    [.inr "? a\n? b\n? c\n".toList, .inl (key 'G')]
    (fun tr s => FromTop tr ∧ keysOf (sinceRefresh tr) = [key 'G'] ∧
      1 ≤ s.maxY - bottomWindowSize ∧
      ¬ s.cursorPosition < s.padPos + (s.maxY - bottomWindowSize))
    (fun _ _ => trivial) (by decide +kernel)

end Visible

section InList

/-- `svn st` prints more lines than there are above the cursor. -/
abbrev PrintsEnough : ∀ q, Answer q → Prop :=
  StatusPrints fun m out => m.cursorPosition ≤ (execResult out).dropLast.count '\n'

def InList (s : State) : Prop := s.cursorPosition < s.statusItems.length

theorem inList_iff (h : Shows s v) : InList s ↔ v.InList s.statusItems.length := by
  simp only [InList, Window.InList, h.cursor]
  omega

theorem inList_draw (hm : Shows m v) {rows : List Drawn} (hd : printAllStatus m = .ok (s', rows))
    (h : InList m) : InList s' := by
  have hcursor : s'.cursorPosition = m.cursorPosition := by rw [hm.redrawn hd]
  simp only [InList, hcursor, hm.redrawn_length hd]
  exact h

theorem inList_loaded {out text : Str} (htext : popBack (execResult out) = .ok text)
    (henv : PrintsEnough (.popen statusCommand (cleared m)) (some out)) :
    InList (loaded m text) := by
  obtain ⟨_, rfl⟩ := popBack_ok.mp htext
  have hcursor : m.cursorPosition ≤ (execResult out).dropLast.count '\n' := henv rfl
  simp only [InList, loaded, split_length]
  omega

theorem inList_main (h : MainEnds t r s) (henv : ∀ e ∈ r, PrintsEnough e.1 e.2) : InList s := by
  cases h with
  | drawn hm hd =>
    have hready := ready_main hm hd
    cases hm with
    | refreshed ht htext =>
      exact inList_draw hready.shows hd
        (inList_loaded (m := opening t) htext (henv _ (List.mem_singleton.mpr rfl)))

theorem inList_draws (hk : Kept t tr s) (hin : InList s) (h : Draws s r m)
    (henv : ∀ e ∈ r, PrintsEnough e.1 e.2) : InList m := by
  obtain ⟨v, hv, _⟩ := hk.shows
  have hlist := (inList_iff hv).mp hin
  cases h with
  | moved hc hmid hm =>
    obtain ⟨k, rfl, _⟩ := moves_placed hv hm
    exact (inList_iff (hv.move k)).mpr (Window.inList_move hv.height_pos hlist)
  | toggled hm hm' =>
    rw [toggle_placed hv hm hm']
    exact (inList_iff (hv.move .down)).mpr (Window.inList_down hlist)
  | refreshed hr hm htext =>
    exact inList_loaded htext (henv _ (List.mem_append_right _ (List.mem_singleton.mpr rfl)))

theorem inList_round (hk : Kept t tr s) (hin : InList s) (h : Ends s r s')
    (henv : ∀ e ∈ r, PrintsEnough e.1 e.2) : InList s' := by
  cases h with
  | idle hr hs =>
    rw [hs]
    exact hin
  | drawn hm hd =>
    obtain ⟨v, hready⟩ := ready_draws hk hm hd
    exact inList_draw hready.shows hd (inList_draws hk hin hm henv)

theorem session_inList (h : Session PrintsEnough t tr (.done s)) : InList s :=
  session_done (fun _ _ hm henv => inList_main hm henv)
    (fun _ _ _ _ hp hi he henv => inList_round (session_kept hp) hi he henv) h

theorem cursor_in_list {site : Site} {next : Int → Prog State}
    (h : Session PrintsEnough t tr (.ask (.getch site s) next)) :
    0 ≤ s.cursorPosition ∧ s.cursorPosition < s.statusItems.length ∧
      ∃ item, index s.statusItems s.cursorPosition = .ok item := by
  obtain ⟨past, r, hp, rfl, hr⟩ := session_reads h
  have hin : s.cursorPosition < s.statusItems.length := session_inList hp
  obtain ⟨v, hv, _⟩ := (session_kept hp).shows
  have hnonneg : 0 ≤ s.cursorPosition := by
    rw [hv.cursor]
    omega
  have hrow : s.cursorPosition.toNat < s.statusItems.length := by omega
  refine ⟨hnonneg, hin, s.statusItems[s.cursorPosition.toNat], ?_⟩
  rw [hv.index_cursor, List.getElem?_eq_getElem hrow]

theorem cursor_in_list_refreshed : ∃ tr s next,
    Session PrintsEnough narrowTerminal tr (.ask (.getch .topLevel s) next) ∧
      keysOf tr = [key 'j', key 'a', key 'n'] ∧ s.statusItems.length = 2 ∧
      0 ≤ s.cursorPosition ∧ s.cursorPosition < s.statusItems.length ∧
        ∃ item, index s.statusItems s.cursorPosition = .ok item := by
  obtain ⟨tr, s, next, h, hkeys, hrows⟩ := play_reads PrintsEnough narrowTerminal 3
    [.inr "? a\n? b\n? c\n".toList, .inl (key 'j'), .inl (key 'a'), .inl (key 'n'),
      .inr "? b\n? c\n".toList]
    (fun tr s => keysOf tr = [key 'j', key 'a', key 'n'] ∧ s.statusItems.length = 2)
    (by decide +kernel) (by decide +kernel)
  exact ⟨tr, s, next, h, hkeys, hrows, cursor_in_list h⟩

/-- Some text is printed at each refresh. -/
abbrev PrintsText : ∀ q, Answer q → Prop := StatusPrints fun _ out => out ≠ []

/-- After `a` the cursor stays where it was, in a list that has become shorter. -/
theorem cursor_past_list : ∃ tr s next,
    Session PrintsText narrowTerminal tr (.ask (.getch .topLevel s) next) ∧
      keysOf tr = [key 'j', key 'a', key 'n'] ∧
      ¬ (0 ≤ s.cursorPosition ∧ s.cursorPosition < s.statusItems.length) :=
  play_reads PrintsText narrowTerminal 3
    [.inr "? a\n? b\n".toList, .inl (key 'j'), .inl (key 'a'), .inl (key 'n'),
      .inr "? a\n".toList]
    (fun tr s => keysOf tr = [key 'j', key 'a', key 'n'] ∧
      ¬ (0 ≤ s.cursorPosition ∧ s.cursorPosition < s.statusItems.length))
    (by decide +kernel) (by decide +kernel)

end InList

end SvnCurses.CursorBounds
