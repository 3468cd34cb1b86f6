import SvnCurses.Cursor
import Mathlib.Data.List.DropRight

namespace SvnCurses.Session

open Cpp ProgramState Draw Interaction KeyEvent Round Rows Cursor Viewport

/-- The state that `main` refreshes for the first time. -/
def opening (t : Terminal) : State :=
  { State.initial with isRunning := true, maxY := t.maxY, maxX := t.maxX }

def Usable (t : Terminal) : Prop := 0 < t.maxY - bottomWindowSize ∧ 0 < t.maxX

section Main

variable {env : ∀ q, Answer q → Prop} {t : Terminal} {r : History} {p : Prog State} {s : State}

inductive MainDraws (t : Terminal) : History → State → Prop
  | refreshed {out text} (ht : Usable t) (htext : popBack (execResult out) = .ok text) :
      MainDraws t [⟨.popen statusCommand (opening t), some out⟩] (loaded (opening t) text)

inductive MainTells (t : Terminal) : History → Output → Prop
  | pad {r m s' rows} (hm : MainDraws t r m) (hd : printAllStatus m = .ok (s', rows)) :
      MainTells t r (.pad m s' rows)
  | timeout {r delay} : MainTells t r (.timeout delay)
  | mvwprintw {r y x text} : MainTells t r (.mvwprintw y x text)

inductive MainEnds (t : Terminal) : History → State → Prop
  | drawn {r m s' rows} (hm : MainDraws t r m) (hd : printAllStatus m = .ok (s', rows)) :
      MainEnds t r s'

def mainContract (t : Terminal) : Contract Answer Output Stop :=
  ⟨fun r q => r = [] ∧ q = .popen statusCommand (opening t), MainTells t, Stops⟩

theorem main_safe : Safe env (mainContract t) (MainEnds t) (main t) [] := by
  apply safe_tell MainTells.timeout
  change Safe env _ _ (if newpad (t.maxY - bottomWindowSize) t.maxX then
    refreshStatusItems (opening t) else .stop .noPad) []
  by_cases hpad : newpad (t.maxY - bottomWindowSize) t.maxX = true
  · have ht : Usable t := by
      simp only [newpad, decide_eq_true_eq] at hpad
      exact hpad
    rw [if_pos hpad]
    refine safe_refresh ⟨rfl, rfl⟩ (fun _ _ _ _ => .mvwprintw) stops_runtimeError ?_ ?_ ?_
    · intro out hnil _
      exact ⟨[], opening t, out, rfl, hnil⟩
    · intro out text fault hf
      exact stops_of_neverPops (neverPops_printFrom _ _ _) _ fault hf
    · intro out text s' rows htext hd
      exact ⟨.pad (.refreshed ht htext) hd, .drawn (.refreshed ht htext) hd⟩
  · rw [if_neg hpad]
    exact stops_other (by simp [popBackFault])

end Main

section Refreshes

/-- The state in which an exchange ran `svn st`, and what it printed. -/
def refreshOf : Sigma Answer → Option (State × Str)
  | ⟨.popen cmd s, out⟩ => if cmd = statusCommand then out.map (s, ·) else none
  | ⟨.getch _ _, _⟩ => none

/-- `svn st` prints only what is allowed in the state it is run in. -/
def StatusPrints (P : State → Str → Prop) : ∀ q, Answer q → Prop
  | .popen cmd m, some out => cmd = statusCommand → P m out
  | _, _ => True

instance (P : State → Str → Prop) [∀ m out, Decidable (P m out)] :
    ∀ q a, Decidable (StatusPrints P q a)
  | .popen cmd m, some out => inferInstanceAs (Decidable (cmd = statusCommand → P m out))
  | .popen _ _, none | .getch _ _, _ => .isTrue trivial

def lastRefresh (tr : History) : Option (State × Str) := (tr.filterMap refreshOf).getLast?

/-- The exchanges after the last refresh. -/
def sinceRefresh (tr : History) : History := tr.rtakeWhile (fun e => (refreshOf e).isNone)

/-- The last refresh was made with cursor and scroll offset at the top. -/
def FromTop (tr : History) : Prop :=
  ∃ e ∈ lastRefresh tr, e.1.cursorPosition = 0 ∧ e.1.padPos = 0

instance (tr : History) : Decidable (FromTop tr) :=
  inferInstanceAs (Decidable (∃ e ∈ lastRefresh tr, e.1.cursorPosition = 0 ∧ e.1.padPos = 0))

variable {s m : State} {tr r : History}

theorem refreshOf_inner {q : Call} (hq : Inner s q) (a : Answer q) : refreshOf ⟨q, a⟩ = none := by
  cases hq with
  | read h => rfl
  | run h => exact if_neg h

theorem refreshOf_opened (hr : Opened s r) : ∀ e ∈ r, refreshOf e = none := by
  obtain ⟨c, mid, _, hmid, rfl⟩ := hr
  intro e he
  obtain rfl | he := List.mem_cons.mp he
  · rfl
  · exact refreshOf_inner (hmid e he) e.2

theorem refreshOf_space (s : State) :
    ∀ e ∈ [(⟨.getch .topLevel s, key ' '⟩ : Sigma Answer)], refreshOf e = none := by
  simp [refreshOf]

theorem lastRefresh_append (hr : ∀ e ∈ r, refreshOf e = none) :
    lastRefresh (tr ++ r) = lastRefresh tr := by
  have hnone : r.filterMap refreshOf = [] := List.filterMap_eq_nil_iff.mpr hr
  rw [lastRefresh, lastRefresh, List.filterMap_append, hnone, List.append_nil]

theorem sinceRefresh_append (hr : ∀ e ∈ r, refreshOf e = none) :
    sinceRefresh (tr ++ r) = sinceRefresh tr ++ r := by
  induction r using List.reverseRecOn with
  | nil => simp
  | append_singleton r e ih =>
    have hrest : sinceRefresh (tr ++ r) = sinceRefresh tr ++ r := ih fun x hx => hr x (by simp [hx])
    have hlast : (refreshOf e).isNone = true := by rw [hr e (by simp)]; rfl
    rw [← List.append_assoc, sinceRefresh, List.rtakeWhile_concat_pos _ _ e hlast,
      ← List.append_assoc, ← hrest, sinceRefresh]

theorem lastRefresh_status (out : Str) (tr : History) :
    lastRefresh (tr ++ [⟨.popen statusCommand m, some out⟩]) = some (m, out) := by
  simp [lastRefresh, refreshOf]

theorem refreshOf_some {e : Sigma Answer} {out : Str} (h : refreshOf e = some (m, out)) :
    e = ⟨.popen statusCommand m, some out⟩ := by
  obtain ⟨q, a⟩ := e
  cases q with
  | getch site s => cases h
  | popen cmd s =>
    simp only [refreshOf] at h
    split at h
    · next hcmd =>
      obtain ⟨out', rfl, he⟩ := Option.map_eq_some_iff.mp h
      cases he
      rw [hcmd]
    · cases h

theorem lastRefresh_mem {out : Str} (h : lastRefresh tr = some (m, out)) :
    ⟨.popen statusCommand m, some out⟩ ∈ tr := by
  obtain ⟨e, he, hrefresh⟩ := List.mem_filterMap.mp (List.mem_of_getLast? h)
  rwa [← refreshOf_some hrefresh]

theorem sinceRefresh_status (out : Str) :
    sinceRefresh (tr ++ [⟨.popen statusCommand m, some out⟩]) = [] :=
  List.rtakeWhile_concat_neg _ _ _ (by simp [refreshOf])

theorem fromTop_append (hr : ∀ e ∈ r, refreshOf e = none) : FromTop (tr ++ r) ↔ FromTop tr := by
  simp only [FromTop, lastRefresh_append hr]

end Refreshes

/-- The lines of an output, as a refresh takes them over. -/
def linesOf (out : Str) : List Str := split (execResult out).dropLast '\n'

/-- What holds in every state that is drawn, given the run so far and the window. -/
structure Ready (t : Terminal) (tr : History) (m : State) (v : Window) : Prop where
  usable : Usable t
  maxX : m.maxX = t.maxX
  maxY : m.maxY = t.maxY
  shows : Shows m v
  fits : FromTop tr → v.Fits m.statusItems.length (height m)
  lines : Lines m
  selectable : Selectable m
  output : ∃ m' out, lastRefresh tr = some (m', out) ∧ execResult out ≠ [] ∧
    m.allStatusItems = linesOf out

/-- What holds in every state between two rounds, given the run so far. -/
structure Kept (t : Terminal) (tr : History) (s : State) : Prop where
  usable : Usable t
  maxX : s.maxX = t.maxX
  maxY : s.maxY = t.maxY
  shows : ∃ v, Shows s v ∧ (FromTop tr → v.Fits s.statusItems.length (height s))
  lines : Lines s
  below : PaddedFrom s
  selectable : Selectable s
  output : ∃ m out, lastRefresh tr = some (m, out) ∧ execResult out ≠ [] ∧
    s.allStatusItems = linesOf out

section Invariant

variable {env : ∀ q, Answer q → Prop} {t : Terminal} {tr r : History} {s s' m m' : State}
  {v : Window} {rows : List Drawn} {text out : Str}

/-- A redraw brings the invariant about. -/
theorem kept_draw (hm : Ready t tr m v) (hd : printAllStatus m = .ok (s', rows)) :
    Kept t tr s' := by
  obtain ⟨hi, hmax⟩ := hm.shows.offset
  have hs := hm.shows.redrawn hd
  have hheight : height s' = height m := by rw [hs]; rfl
  refine ⟨hm.usable, ?_, ?_, ⟨v, hm.shows.draw hd, ?_⟩, hm.lines.draw hi hmax hd,
    hm.lines.paddedFrom hi hmax hd, hm.selectable.draw hi hmax hd, ?_⟩
  · rw [hs]; exact hm.maxX
  · rw [hs]; exact hm.maxY
  · rw [hm.shows.redrawn_length hd, hheight]
    exact hm.fits
  · rw [hs]; exact hm.output

theorem lines_loaded (m : State) (text : Str) : Lines (loaded m text) :=
  List.forall₂_same.mpr fun _ _ => .inl rfl

theorem selectable_loaded (m : State) (text : Str) : Selectable (loaded m text) := by
  intro item hitem
  cases hitem

/-- After a refresh the window is where the refreshed state had it. -/
theorem ready_loaded (ht : Usable t) (hX : m.maxX = t.maxX) (hY : m.maxY = t.maxY)
    (hcursor : m.cursorPosition = v.cursor) (htop : m.padPos = v.top)
    (hint : (v.cursor : Int) ≤ intMax) (hlast : lastRefresh tr = some (cleared m, out))
    (htext : popBack (execResult out) = .ok text)
    (hd : printAllStatus (loaded m text) = .ok (s', rows)) : Ready t tr (loaded m text) v := by
  have hle := v.top_le
  have hi : 0 ≤ (loaded m text).padPos := by simp only [loaded]; omega
  have hmax : (loaded m text).padPos ≤ intMax := by simp only [loaded]; omega
  obtain ⟨hne, rfl⟩ := popBack_ok.mp htext
  refine ⟨ht, hX, hY, ⟨hcursor, htop, hint, split_ne_nil _ _, draw_rows_int hi hmax hd, ?_, ?_⟩,
    ?_, lines_loaded m _, selectable_loaded m _, cleared m, out, hlast, hne, rfl⟩
  · exact hY ▸ t.maxY_int.2
  · exact hY ▸ ht.1
  · rintro ⟨e, hlast', _, hpad⟩
    obtain rfl := Option.some.inj (hlast.symm.trans hlast')
    have hzero : v.top = 0 := by
      simp only [cleared] at hpad
      omega
    simp [Window.Fits, hzero]

theorem ready_main (h : MainDraws t r m) (hd : printAllStatus m = .ok (s', rows)) :
    Ready t r m Window.home := by
  cases h with
  | @refreshed out text ht htext =>
    have hlast := lastRefresh_status (m := opening t) out
    exact ready_loaded (m := opening t) ht rfl rfl rfl rfl (by simp [Window.home, intMax])
      (hlast []) htext hd

theorem cursor_row {item : Str} (hk : Kept t tr s)
    (hitem : index s.statusItems s.cursorPosition = .ok item) :
    item ∈ s.statusItems ∧ padded s.maxX item = item := by
  obtain ⟨v, hv, _⟩ := hk.shows
  have hle := v.top_le
  have hget := hv.index_cursor.mp hitem
  refine ⟨List.mem_of_getElem? hget, ?_⟩
  have hdrop : item ∈ s.statusItems.drop s.padPos.toNat := by
    apply List.mem_of_getElem? (i := s.cursorPosition.toNat - s.padPos.toNat)
    rw [List.getElem?_drop, ← hget]
    congr 1
    rw [hv.cursor, hv.top]
    omega
  rw [hk.below] at hdrop
  obtain ⟨line, _, rfl⟩ := List.mem_map.mp hdrop
  exact padded_padded _ _

theorem toggleSelected_ok (h : toggleSelected s = .ok m) :
    ∃ item selected, index s.statusItems s.cursorPosition = .ok item ∧
      (selected = if item ∈ s.selectedItems then s.selectedItems.filter (· ≠ item)
        else s.selectedItems ++ [item]) ∧ m = { s with selectedItems := selected } := by
  obtain ⟨item, hitem, hm⟩ := bind_ok.mp h
  refine ⟨item, _, hitem, rfl, ?_⟩
  split at hm
  · next hmem =>
    cases hm
    rw [if_pos hmem]
  · next hmem =>
    cases hm
    rw [if_neg hmem]

theorem ready_move (hk : Kept t tr s) (hv : Shows s v)
    (hfits : FromTop tr → v.Fits s.statusItems.length (height s))
    (hnone : ∀ e ∈ r, refreshOf e = none) (k : Window.Move) :
    Ready t (tr ++ r)
      (placed s (v.move s.statusItems.length (height s) s.maxY.toNat hv.height_pos k))
      (v.move s.statusItems.length (height s) s.maxY.toNat hv.height_pos k) := by
  refine ⟨hk.usable, hk.maxX, hk.maxY, hv.move k, ?_, hk.lines, hk.selectable, ?_⟩
  · rw [fromTop_append hnone]
    exact fun htop => Window.fits_move hv.height_pos (hfits htop)
  · rw [lastRefresh_append hnone]
    exact hk.output

/-- The space key changes the selection, and the cursor moves down. -/
theorem toggle_placed (hv : Shows s v) (hm : toggleSelected s = .ok m)
    (hm' : cursorDown m = .ok m') :
    m' = { placed s (v.down s.statusItems.length (height s)) with
        selectedItems := m.selectedItems } := by
  obtain ⟨item, selected, _, _, rfl⟩ := toggleSelected_ok hm
  exact cursorDown_placed (s := { s with selectedItems := selected })
    ⟨hv.cursor, hv.top, hv.cursor_int, hv.rows_ne, hv.rows_int, hv.maxY_int, hv.pad⟩ hm'

theorem selectable_toggle (hk : Kept t tr s) (hm : toggleSelected s = .ok m) : Selectable m := by
  obtain ⟨item, selected, hitem, hsel, rfl⟩ := toggleSelected_ok hm
  have hrow := cursor_row hk hitem
  intro x hx
  have hx' : x ∈ selected := hx
  rw [hsel] at hx'
  split at hx'
  · exact hk.selectable x (List.mem_of_mem_filter hx')
  · obtain hx' | hx' := List.mem_append.mp hx'
    · exact hk.selectable x hx'
    · rw [List.mem_singleton.mp hx']
      exact hrow

theorem ready_toggle (hk : Kept t tr s) (hv : Shows s v)
    (hfits : FromTop tr → v.Fits s.statusItems.length (height s))
    (hm : toggleSelected s = .ok m) (hm' : cursorDown m = .ok m') :
    Ready t (tr ++ [⟨.getch .topLevel s, key ' '⟩]) m'
      (v.down s.statusItems.length (height s)) := by
  have hmove := ready_move hk hv hfits (refreshOf_space s) .down
  have hshows := hmove.shows
  have hsel := selectable_toggle hk hm
  obtain ⟨item, selected, _, _, rfl⟩ := toggleSelected_ok hm
  obtain rfl := toggle_placed hv hm hm'
  exact ⟨hk.usable, hk.maxX, hk.maxY, ⟨rfl, rfl, hshows.cursor_int, hv.rows_ne, hv.rows_int,
    hv.maxY_int, hv.pad⟩, hmove.fits, hk.lines, hsel, hmove.output⟩

theorem ready_refresh (hk : Kept t tr s) (hm : m = s ∨ m = atTop s)
    (htext : popBack (execResult out) = .ok text)
    (hd : printAllStatus (loaded m text) = .ok (s', rows)) :
    ∃ v, Ready t (tr ++ (r ++ [⟨.popen statusCommand (cleared m), some out⟩]))
      (loaded m text) v := by
  obtain ⟨v, hv, _⟩ := hk.shows
  rw [← List.append_assoc]
  obtain rfl | rfl := hm
  · exact ⟨v, ready_loaded hk.usable hk.maxX hk.maxY hv.cursor hv.top hv.cursor_int
      (lastRefresh_status out _) htext hd⟩
  · exact ⟨Window.home, ready_loaded (m := atTop s) hk.usable hk.maxX hk.maxY rfl rfl
      (by simp [Window.home, intMax]) (lastRefresh_status out _) htext hd⟩

theorem ready_draws (hk : Kept t tr s) (h : Draws s r m) (hd : printAllStatus m = .ok (s', rows)) :
    ∃ v, Ready t (tr ++ r) m v := by
  obtain ⟨v, hv, hfits⟩ := hk.shows
  cases h with
  | moved hc hmid hm =>
    obtain ⟨k, rfl, _⟩ := moves_placed hv hm
    exact ⟨_, ready_move hk hv hfits (refreshOf_opened ⟨_, _, hc, hmid, rfl⟩) k⟩
  | toggled hm hm' => exact ⟨_, ready_toggle hk hv hfits hm hm'⟩
  | refreshed hr hm htext => exact ready_refresh hk hm htext hd

/-- The step lemma of the invariant. -/
theorem kept_round (hk : Kept t tr s) (h : Ends s r s') : Kept t (tr ++ r) s' := by
  cases h with
  | idle hr hs =>
    have hnone := refreshOf_opened hr
    obtain ⟨v, hv, hfits⟩ := hk.shows
    rw [hs]
    refine ⟨hk.usable, hk.maxX, hk.maxY, ⟨v, ?_, ?_⟩, hk.lines, hk.below, hk.selectable, ?_⟩
    · exact ⟨hv.cursor, hv.top, hv.cursor_int, hv.rows_ne, hv.rows_int, hv.maxY_int, hv.pad⟩
    · rw [fromTop_append hnone]
      exact hfits
    · rw [lastRefresh_append hnone]
      exact hk.output
  | drawn hm hd =>
    obtain ⟨v, hready⟩ := ready_draws hk hm hd
    exact kept_draw hready hd

theorem kept_main (h : MainEnds t r s) : Kept t r s := by
  cases h with
  | drawn hm hd => exact kept_draw (ready_main hm hd) hd

end Invariant

section Runs

variable {env : ∀ q, Answer q → Prop} {t : Terminal} {tr : History} {p : Prog State}
  {s : State}

/-- Where a run is: still at its start, or in a round begun in some state. -/
theorem in_round (h : Session env t tr p) :
    Within env (main t) tr p ∨ ∃ past s r, Session env t past (.done s) ∧
      Safe env (contract s) (Ends s) p r ∧ tr = past ++ r := by
  have hrounds := @reaches_rounds _ _ _ _ _ env keyEvent (fun s => s.isRunning = true) (main t) p tr
    (fun _ _ => True) (fun _ _ _ => trivial) (fun _ _ _ _ _ _ _ _ => trivial) h
  obtain hw | ⟨past, s, r, hp, _, _, hw, rfl⟩ := hrounds
  · exact .inl hw
  · exact .inr ⟨past, s, r, hp, within_safe keyEvent_round hw, rfl⟩

theorem session_done {inv : History → State → Prop}
    (hstart : ∀ r s, MainEnds t r s → (∀ e ∈ r, env e.1 e.2) → inv r s)
    (hround : ∀ past s r s', Session env t past (.done s) → inv past s → Ends s r s' →
      (∀ e ∈ r, env e.1 e.2) → inv (past ++ r) s')
    (h : Session env t tr (.done s)) : inv tr s :=
  reaches_done (fun r s hw => hstart r s (within_safe main_safe hw) (reaches_allowed hw))
    (fun past s r s' hp hi _ hw =>
      hround past s r s' hp hi (within_safe keyEvent_round hw) (reaches_allowed hw)) h

theorem session_kept (h : Session env t tr (.done s)) : Kept t tr s :=
  session_done (fun _ _ hm _ => kept_main hm) (fun _ _ _ _ _ hk he _ => kept_round hk he) h

/-- While a key is read the state is the one the round began in. -/
theorem session_reads {site : Site} {next : Int → Prog State}
    (h : Session env t tr (.ask (.getch site s) next)) :
    ∃ past r, Session env t past (.done s) ∧ tr = past ++ r ∧ (r = [] ∨ Opened s r) := by
  obtain hw | ⟨past, s', r, hp, hs, rfl⟩ := in_round h
  · have hsafe := within_safe main_safe hw
    cases hsafe.1.2
  · have hr := hs.1.opened
    cases hs.1 with
    | top | prompt => exact ⟨past, _, hp, rfl, hr⟩

/-- Apart from `svn st` and `svn up`, the only commands are those that take
operands. -/
theorem session_command {cmd : Str} {next : Option Str → Prog State}
    (h : Session env t tr (.ask (.popen cmd s) next)) (hst : cmd ≠ statusCommand)
    (hup : cmd ≠ updateCommand) :
    (∃ past r, Session env t past (.done s) ∧ tr = past ++ r ∧ (r = [] ∨ Opened s r)) ∧
      (cmd = addCommand s ∨ ∃ k, cmd = removeCommand s k) := by
  obtain hw | ⟨past, m, r, hp, hs, rfl⟩ := in_round h
  · cases (within_safe main_safe hw).1.2
    exact absurd rfl hst
  · have hr := hs.1.opened
    cases hs.1 with
    | add => exact ⟨⟨past, _, hp, rfl, hr⟩, .inl rfl⟩
    | @remove k => exact ⟨⟨past, _, hp, rfl, hr⟩, .inr ⟨k, rfl⟩⟩
    | update => exact absurd rfl hup
    | status => exact absurd rfl hst

/-- A state that is drawn is ready for it. -/
theorem session_pad {m s' : State} {rows : List Drawn} {next : Prog State}
    (h : Session env t tr (.say (.pad m s' rows) next)) :
    printAllStatus m = .ok (s', rows) ∧ ∃ v, Ready t tr m v := by
  obtain hw | ⟨past, s, r, hp, hs, rfl⟩ := in_round h
  · have hsafe := within_safe main_safe hw
    cases hsafe.1 with
    | pad hm hd => exact ⟨hd, Window.home, ready_main hm hd⟩
  · cases hs.1 with
    | pad hm hd => exact ⟨hd, ready_draws (session_kept hp) hm hd⟩

/-- The states of the program: between two rounds, and while it waits for a key
or for a command. -/
inductive At : Prog State → State → Prop
  | between {m : State} : At (.done m) m
  | reading {site m next} : At (.ask (.getch site m) next) m
  | running {cmd m next} : At (.ask (.popen cmd m) next) m

theorem session_at (h : Session env t tr p) (ha : At p s) :
    (s = opening t ∧ tr = []) ∨ ∃ past r m, Session env t past (.done m) ∧ tr = past ++ r ∧
      (r = [] ∨ Opened m r) ∧ (s = m ∨ s = cleared m ∨ s = cleared (atTop m)) := by
  cases ha with
  | between => exact .inr ⟨tr, [], s, h, (List.append_nil tr).symm, .inl rfl, .inl rfl⟩
  | reading =>
    obtain ⟨past, r, hp, rfl, hr⟩ := session_reads h
    exact .inr ⟨past, r, s, hp, rfl, hr, .inl rfl⟩
  | running =>
    obtain hw | ⟨past, m, r, hp, hs, rfl⟩ := in_round h
    · have hsafe := within_safe main_safe hw
      cases hsafe.1.2
      exact .inl ⟨rfl, hsafe.1.1⟩
    · refine .inr ⟨past, r, m, hp, rfl, hs.1.opened, ?_⟩
      cases hs.1 with
      | add | remove | update => exact .inl rfl
      | status _ hm =>
        obtain rfl | rfl := hm
        · exact .inr (.inl rfl)
        · exact .inr (.inr rfl)

theorem kept_opened (hk : Kept t tr s) {r : History} (hr : r = [] ∨ Opened s r) :
    Kept t (tr ++ r) s := by
  obtain rfl | hr := hr
  · rwa [List.append_nil]
  · exact kept_round hk (idle_round hr)

/-- The invariant holds whenever a key is read. -/
theorem session_reads_kept {site : Site} {next : Int → Prog State}
    (h : Session env t tr (.ask (.getch site s) next)) : Kept t tr s := by
  obtain ⟨past, r, hp, rfl, hr⟩ := session_reads h
  exact kept_opened (session_kept hp) hr

end Runs

end SvnCurses.Session
