import SvnCurses.Console
import SvnCurses.Painted

namespace SvnCurses.Watching

open Cpp ProgramState Draw Interaction KeyEvent Round Rows Cursor Session Viewport Observer
open RefreshText Worklist Display Console Painted

section Rules

/-- What may have happened when the program stops, given the exchanges before. -/
inductive Diagnosed (t : Terminal) : History → Stop → Prop
  | pad (h : ¬ Usable t) : Diagnosed t [] .noPad
  | popen {tr cmd s} : Diagnosed t (tr ++ [⟨.popen cmd s, none⟩])
      (.fault (.thrown (.runtimeError "popen() failed!".toList)))
  | empty {tr s out} (h : ¬ SaysSomething out) :
      Diagnosed t (tr ++ [⟨.popen statusCommand s, some out⟩]) popBackFault
  | space {tr s} (h : (boardOf t tr).lines.length ≤ (boardOf t tr).window.cursor) :
      Diagnosed t (tr ++ [⟨.getch .topLevel s, key ' '⟩]) (.fault (.undefined .vectorIndex))
  | redraw {tr m fault} (ht : Usable t) (hb : Represents t (boardOf t tr) m) (hl : Lines m)
      (hmax : m.padPos ≤ intMax) (hd : printAllStatus m = .error fault) :
      Diagnosed t tr (.fault fault)

/-- What holds whenever the program waits. -/
structure Presents (t : Terminal) (scr : Screen) (tr : History) (q : Call) : Prop where
  notes : scr.notes = notesAt t tr q
  delay : scr.delay = delayAt tr q
  board : Represents t (boardAt t tr q) q.state
  fresh : actsOn q = true → outdated tr = false
  reading : ∀ site s, q = .getch site s → Holds t tr s (scr.pad.map Printed.drawn)

def duties (t : Terminal) : Duties Answer Output Stop Screen :=
  ⟨Presents t, fun _ _ _ => True, fun _ tr f => Diagnosed t tr f⟩

/-- What holds between two rounds. -/
structure Between (t : Terminal) (scr : Screen) (tr : History) (s : State) : Prop where
  holds : Holds t tr s (scr.pad.map Printed.drawn)
  notes : scr.notes = idle t tr
  delay : scr.delay = delayOf tr
  fresh : outdated tr = false

variable {env : ∀ q, Answer q → Prop} {t : Terminal} {tr : History} {s m : State} {scr : Screen}
  {rows : List Drawn} {α β : Type} {post : Screen → History → α → Prop}

theorem watched_pure {a : α} (h : post scr tr a) :
    Watched env (display t) (duties t) post (pure a : Prog α) scr tr := h

theorem watched_tell (o : Output) {f : Unit → Prog α}
    (hf : Watched env (display t) (duties t) post (f ()) (scr.heard t o) tr) :
    Watched env (display t) (duties t) post (tell o >>= f) scr tr := ⟨trivial, hf⟩

theorem watched_getch {site : Site} {f : Int → Prog α} (hq : Presents t scr tr (.getch site s))
    (hf : ∀ c : Int, Watched env (display t) (duties t) post (f c) scr
      (tr ++ [⟨.getch site s, c⟩])) :
    Watched env (display t) (duties t) post (getch site s >>= f) scr tr :=
  ⟨hq, fun c _ => hf c⟩

theorem watched_exec {cmd : Str} {f : Str → Prog α} (hq : Presents t scr tr (.popen cmd s))
    (hf : ∀ out, Watched env (display t) (duties t) post (f (execResult out)) scr
      (tr ++ [⟨.popen cmd s, some out⟩])) :
    Watched env (display t) (duties t) post (exec cmd s >>= f) scr tr := by
  refine ⟨hq, fun a _ => ?_⟩
  cases a with
  | none => exact Diagnosed.popen
  | some out => exact hf out

theorem watched_lift {e : Except Fault β} {f : β → Prog α}
    (hstop : ∀ fault, e = .error fault → Diagnosed t tr (.fault fault))
    (hf : ∀ b, e = .ok b → Watched env (display t) (duties t) post (f b) scr tr) :
    Watched env (display t) (duties t) post (lift e >>= f) scr tr := by
  cases e with
  | error fault => exact hstop fault rfl
  | ok b => exact hf b rfl

theorem watched_show (ht : Usable t) (hb : Represents t (boardOf t tr) m) (hl : Lines m)
    (hmax : m.padPos ≤ intMax)
    (hd : ∀ s' rows, printAllStatus m = .ok (s', rows) → Holds t tr s' rows) :
    Watched env (display t) (duties t) (fun scr' tr' s' => tr' = tr ∧ scr'.notes = scr.notes ∧
      scr'.delay = scr.delay ∧ Holds t tr s' (scr'.pad.map Printed.drawn))
      (showAllStatus m) scr tr := by
  refine watched_lift (fun fault hf => .redraw ht hb hl hmax hf) fun r hr => watched_tell _ ?_
  refine watched_pure ⟨rfl, rfl, rfl, ?_⟩
  change Holds t tr r.1 ((printRows scr.pen r.2).map Printed.drawn)
  rw [printRows_drawn]
  exact hd _ _ hr

theorem watched_refresh (ht : Usable t) (hY : m.maxY = t.maxY) (hmax : m.padPos ≤ intMax)
    (hq : Presents t scr tr (.popen statusCommand (cleared m)))
    (hd : ∀ out text s' rows, popBack (execResult out) = .ok text →
      printAllStatus (loaded m text) = .ok (s', rows) →
      Holds t (tr ++ [⟨.popen statusCommand (cleared m), some out⟩]) s' rows) :
    Watched env (display t) (duties t) (fun scr' tr' s' =>
      (∃ out, tr' = tr ++ [⟨.popen statusCommand (cleared m), some out⟩]) ∧
        scr'.notes = scr.notes ∧ scr'.delay = scr.delay ∧
        Holds t tr' s' (scr'.pad.map Printed.drawn)) (refreshStatusItems m) scr tr := by
  have hboard := hq.board
  apply watched_tell
  change Watched _ _ _ _ _ (scr.heard t (.mvwprintw (m.maxY - 1) 0 "...".toList)) tr
  rw [heard_message ht hY]
  refine watched_exec hq fun out => watched_lift ?_ fun text htext => ?_
  · intro fault hf
    simp only [popBack] at hf
    split at hf
    · next hnil =>
      cases hf
      exact .empty (execResult_eq_nil.mp hnil)
    · cases hf
  · have hloaded : Represents t (boardOf t (tr ++ [⟨.popen statusCommand (cleared m), some out⟩]))
        (loaded m text) := by
      rw [boardOf_concat]
      exact represents_loaded hboard htext
    refine (watched_show ht hloaded (lines_loaded m text) hmax
      (fun s' rows => hd out text s' rows htext)).bind ?_
    rintro scr' tr' s' ⟨rfl, hnotes, hdelay, hholds⟩
    apply watched_tell
    rw [heard_message ht hholds.kept.maxY]
    exact watched_pure ⟨⟨out, rfl⟩, hnotes, hdelay, hholds⟩

end Rules

section Moves

variable {env : ∀ q, Answer q → Prop} {t : Terminal} {tr : History} {s m : State} {scr : Screen}
  {v : Window} {e : Sigma Answer}

theorem Between.append {s' : State} (h : Between t scr tr s) (hquiet : Quiet t tr e)
    (hholds : Holds t (tr ++ [e]) s' (scr.pad.map Printed.drawn)) : Between t scr (tr ++ [e]) s' :=
  ⟨hholds, h.notes.trans hquiet.idle.symm, h.delay.trans hquiet.delay.symm,
    hquiet.outdated.trans h.fresh⟩

/-- A round that only moves, from its last exchange on. -/
theorem moved_shown (h : Between t scr tr s) (he : refreshOf e = none) {k : Window.Move}
    (hready : Ready t (tr ++ [e]) m v)
    (hrows : m.statusItems = s.statusItems ∧ m.allStatusItems = s.allStatusItems ∧ m.maxX = s.maxX)
    (hb : Represents t ((boardOf t tr).see t e) m)
    (hw : ∀ hh, ((boardOf t tr).see t e).window = (boardOf t tr).window.move
      (boardOf t tr).lines.length (Board.padLines t) t.maxY.toNat hh k)
    (hquiet : Quiet t tr e) :
    Watched env (display t) (duties t) (Between t) (showAllStatus m) scr (tr ++ [e]) := by
  have hshow : Represents t (boardOf t (tr ++ [e])) m := by
    rw [boardOf_concat]
    exact hb
  refine (watched_show h.holds.kept.usable hshow hready.lines hready.shows.offset.2
    (fun _ _ hd => holds_moved h.holds he hready hrows hb hw hd)).mono ?_
  rintro scr' tr' s' ⟨rfl, hnotes, hdelay', hholds⟩
  refine ⟨hholds, ?_, ?_, ?_⟩
  · rw [hnotes, hquiet.idle]
    exact h.notes
  · rw [hdelay', hquiet.delay]
    exact h.delay
  · rw [hquiet.outdated]
    exact h.fresh

theorem keyJ_shown (h : Between t scr tr s) :
    Watched env (display t) (duties t) (Between t) (moveOneRowDown s) scr
      (tr ++ [⟨.getch .topLevel s, key 'j'⟩]) := by
  obtain ⟨hv, hlen, hheight⟩ := represents_shows h.holds.board h.holds.kept
  obtain ⟨v', hv', hfits⟩ := h.holds.kept.shows
  obtain ⟨m, hm⟩ := cursorDown_total hv (by rw [hheight]; exact h.holds.inside)
  refine watched_lift (fun fault hf => ?_) fun m' hm' => ?_
  · rw [hm] at hf
    cases hf
  · have hplaced := cursorDown_placed hv' hm'
    refine moved_shown (k := .down) h rfl
      (hplaced ▸ ready_move h.holds.kept hv' hfits (by simp [refreshOf]) .down) ?_ ?_ ?_ ?_
    · rw [hplaced]
      exact ⟨rfl, rfl, rfl⟩
    · exact represents_down h.holds.board h.holds.kept hm'
    · exact fun _ => rfl
    · exact quiet_key (by decide) (by decide) (by decide) rfl

theorem keyK_shown (h : Between t scr tr s) :
    Watched env (display t) (duties t) (Between t) (moveOneRowUp s) scr
      (tr ++ [⟨.getch .topLevel s, key 'k'⟩]) := by
  obtain ⟨v', hv', hfits⟩ := h.holds.kept.shows
  obtain ⟨m, hm⟩ := cursorUp_total hv'
  refine watched_lift (fun fault hf => ?_) fun m' hm' => ?_
  · rw [hm] at hf
    cases hf
  · have hplaced := cursorUp_placed hv' hm'
    refine moved_shown (k := .up) h rfl
      (hplaced ▸ ready_move h.holds.kept hv' hfits (by simp [refreshOf]) .up) ?_ ?_ ?_ ?_
    · rw [hplaced]
      exact ⟨rfl, rfl, rfl⟩
    · exact represents_up h.holds.board h.holds.kept hm'
    · exact fun _ => rfl
    · exact quiet_key (by decide) (by decide) (by decide) rfl

theorem keyG_shown (h : Between t scr tr s) :
    Watched env (display t) (duties t) (Between t) (showAllStatus (cursorLast s)) scr
      (tr ++ [⟨.getch .topLevel s, key 'G'⟩]) := by
  obtain ⟨v', hv', hfits⟩ := h.holds.kept.shows
  have hplaced := cursorLast_placed hv'
  have hsee : ∀ b : Board, b.see t ⟨.getch .topLevel s, key 'G'⟩ = b.last t := fun _ => rfl
  refine moved_shown (k := .last) h rfl
    (hplaced ▸ ready_move h.holds.kept hv' hfits (by simp [refreshOf]) .last) ?_ ?_ ?_ ?_
  · rw [hplaced]
    exact ⟨rfl, rfl, rfl⟩
  · exact represents_last h.holds.board h.holds.kept
  · intro hh
    rw [hsee, Board.last, dif_pos hh]
    rfl
  · refine quiet_key (by decide) (by decide) (by decide) ?_
    change ((boardOf t tr).last t).hidden = _
    rw [Board.last_frame]

theorem keySpace_shown (h : Between t scr tr s) :
    Watched env (display t) (duties t) (Between t) (keySpace s) scr
      (tr ++ [⟨.getch .topLevel s, key ' '⟩]) := by
  obtain ⟨hv, hlen, _⟩ := represents_shows h.holds.board h.holds.kept
  obtain ⟨v', hv', hfits⟩ := h.holds.kept.shows
  refine watched_lift (fun fault hf => ?_) fun m hm => ?_
  · obtain ⟨rfl, hpast⟩ := toggleSelected_fault hv hf
    exact .space (hlen ▸ hpast)
  have hb := represents_toggled h.holds.board h.holds.kept hm
  have hk := kept_toggled h.holds.kept hm
  have hframe := Board.toggled_frame t (boardOf t tr)
  obtain ⟨hvm, _, hheight⟩ := represents_shows hb hk
  have hin : ((boardOf t tr).toggled t).window.Inside intMax.toNat (height m) := by
    rw [hheight, hframe]
    exact h.holds.inside
  obtain ⟨m', hm'⟩ := cursorDown_total hvm hin
  refine watched_lift (fun fault hf => ?_) fun m₁ hm₁ => ?_
  · rw [hm'] at hf
    cases hf
  have hplaced := toggle_placed hv' hm hm₁
  have hsee : (boardOf t tr).see t ⟨.getch .topLevel s, key ' '⟩ =
      ((boardOf t tr).toggled t).down t := rfl
  refine moved_shown (k := .down) h rfl (ready_toggle h.holds.kept hv' hfits hm hm₁) ?_ ?_ ?_ ?_
  · rw [hplaced]
    exact ⟨rfl, rfl, rfl⟩
  · exact represents_down hb hk hm₁
  · intro _
    rw [hsee, hframe]
    rfl
  · refine quiet_key (by decide) (by decide) (by decide) ?_
    change (((boardOf t tr).toggled t).down t).hidden = _
    rw [hframe]
    rfl

theorem keyDot_shown (h : Between t scr tr s) :
    Watched env (display t) (duties t) (Between t) (keyDot s) scr
      (tr ++ [⟨.getch .topLevel s, key '.'⟩]) := by
  refine watched_tell _ (watched_tell _ (watched_pure ?_))
  refine ⟨h.holds.append rfl rfl (represents_hidden h.holds.board) rfl, ?_, ?_, ?_⟩
  · have hhidden : s.hidden.2 = (boardOf t tr).hidden := by
      rw [h.holds.board]
      rfl
    rw [idle_concat]
    change [Note.plain ("HIDDEN = ".toList ++
      if !s.hidden.2 then "true".toList else "false".toList)] = _
    rw [hhidden]
    rfl
  · rw [delayOf_concat]
    exact h.delay
  · rw [outdated_concat]
    exact h.fresh

end Moves

section Prompts

variable {env : ∀ q, Answer q → Prop} {t : Terminal} {tr : History} {s m : State} {scr : Screen}
  {rows : List Drawn} {e : Sigma Answer} {c : Int}

theorem presents_getch {site : Site} (h : Holds t tr s rows)
    (hpad : scr.pad.map Printed.drawn = rows) (hnotes : scr.notes = notesAt t tr (.getch site s))
    (hdelay : scr.delay = delayAt tr (.getch site s))
    (hfresh : actsOn (.getch site s) = true → outdated tr = false) :
    Presents t scr tr (.getch site s) := by
  refine ⟨hnotes, hdelay, h.board, hfresh, ?_⟩
  rintro _ _ ⟨rfl, rfl⟩
  rw [hpad]
  exact h

theorem presents_run {cmd : Str} (h : Holds t tr s rows)
    (hcmd : cmd ≠ statusCommand) (hnotes : scr.notes = []) (hdelay : scr.delay = delayOf tr)
    (hfresh : outdated tr = false) : Presents t scr tr (.popen cmd s) := by
  refine ⟨?_, hdelay, ?_, fun _ => hfresh, ?_⟩
  · rw [hnotes, notesAt, if_neg hcmd]
  · rw [boardAt, if_neg hcmd]
    exact h.board
  · intro site m hm
    cases hm

theorem keyGg_shown (h : Between t scr tr s) :
    Watched env (display t) (duties t) (Between t) (keyGg s) scr
      (tr ++ [⟨.getch .topLevel s, key 'g'⟩]) := by
  have hopen : Between t scr (tr ++ [⟨.getch .topLevel s, key 'g'⟩]) s :=
    h.append (quiet_key (by decide) (by decide) (by decide) rfl) (h.holds.pressed rfl)
  refine watched_getch (presents_getch hopen.holds rfl hopen.notes hopen.delay fun _ => hopen.fresh)
    fun c => ?_
  by_cases hc : c = key 'g'
  · rw [if_pos hc, hc]
    obtain ⟨v, hv, hfits⟩ := hopen.holds.kept.shows
    refine moved_shown (k := .home) hopen rfl
      (ready_move hopen.holds.kept hv hfits (by simp [refreshOf]) .home) ?_ ?_ ?_ ?_
    · exact ⟨rfl, rfl, rfl⟩
    · exact represents_home hopen.holds.board
    · exact fun _ => rfl
    · exact ⟨idle_concat t _ _, delayOf_concat _ _, outdated_concat _ _⟩
  · rw [if_neg hc]
    have hsee : (boardOf t (tr ++ [⟨.getch .topLevel s, key 'g'⟩])).see t ⟨.getch .secondG s, c⟩ =
        boardOf t (tr ++ [⟨.getch .topLevel s, key 'g'⟩]) := if_neg hc
    refine watched_pure (hopen.append ⟨?_, delayOf_concat _ _, outdated_concat _ _⟩
      (hopen.holds.inner rfl hsee))
    rw [idle_concat, hsee]
    rfl

theorem refresh_shown (h : Holds t tr s (scr.pad.map Printed.drawn)) (hm : Refreshes t tr s m)
    (hnotes : scr.notes = notesAt t tr (.popen statusCommand (cleared m)))
    (hdelay : scr.delay = delayOf tr) :
    Watched env (display t) (duties t) (fun scr' tr' s' =>
      (∃ out, tr' = tr ++ [⟨.popen statusCommand (cleared m), some out⟩]) ∧
        scr'.notes = scr.notes ∧ scr'.delay = scr.delay ∧
        Holds t tr' s' (scr'.pad.map Printed.drawn)) (refreshStatusItems m) scr tr := by
  obtain ⟨v, hv, _⟩ := h.kept.shows
  have hplace : m.maxY = t.maxY ∧ m.padPos ≤ intMax := by
    obtain ⟨rfl, _⟩ | ⟨rfl, _⟩ := hm
    · exact ⟨h.kept.maxY, hv.offset.2⟩
    · exact ⟨h.kept.maxY, show (0 : Int) ≤ intMax by decide⟩
  refine watched_refresh h.kept.usable hplace.1 hplace.2 ⟨hnotes, hdelay, ?_, nofun, ?_⟩
    fun out text s' rows htext hd => holds_loaded h hm htext hd
  · obtain ⟨rfl, hb⟩ | ⟨rfl, hb⟩ := hm
    · exact represents_cleared h.board hb
    · exact represents_cleared_home h.board hb
  · intro site s hs
    cases hs

theorem refresh_between (h : Holds t tr s (scr.pad.map Printed.drawn)) (hm : Refreshes t tr s m)
    (hnotes : scr.notes = idle t tr) (hdelay : scr.delay = delayOf tr)
    (hdeclined : declined tr = false) :
    Watched env (display t) (duties t) (Between t) (refreshStatusItems m) scr tr := by
  have hcall : scr.notes = notesAt t tr (.popen statusCommand (cleared m)) := by
    rw [hnotes, notesAt, if_pos rfl, hdeclined]
    rfl
  refine (refresh_shown h hm hcall hdelay).mono ?_
  rintro scr' tr' s' ⟨⟨out, rfl⟩, hnotes', hdelay', hholds⟩
  refine ⟨hholds, ?_, ?_, outdated_status tr _ out⟩
  · rw [hnotes', idle_status]
    exact hnotes
  · rw [hdelay', delayOf_status]
    exact hdelay

theorem keyS_shown (h : Between t scr tr s) :
    Watched env (display t) (duties t) (Between t) (refreshStatusItems (atTop s)) scr
      (tr ++ [⟨.getch .topLevel s, key 's'⟩]) := by
  have hquiet : Quiet t tr ⟨.getch .topLevel s, key 's'⟩ :=
    quiet_key (by decide) (by decide) (by decide) rfl
  refine refresh_between (h.holds.pressed rfl) (.inr ⟨rfl, ?_⟩) ?_ ?_ (declined_concat _ _)
  · rw [boardOf_concat]
    rfl
  · rw [hquiet.idle]
    exact h.notes
  · rw [hquiet.delay]
    exact h.delay

theorem keyU_shown (h : Between t scr tr s) :
    Watched env (display t) (duties t) (Between t) (keyU s) scr
      (tr ++ [⟨.getch .topLevel s, key 'u'⟩]) := by
  have ht := h.holds.kept.usable
  have hquiet : Quiet t tr ⟨.getch .topLevel s, key 'u'⟩ :=
    quiet_key (by decide) (by decide) (by decide) rfl
  have hopen : Between t scr (tr ++ [⟨.getch .topLevel s, key 'u'⟩]) s :=
    h.append hquiet (h.holds.pressed rfl)
  apply watched_tell
  rw [heard_question ht]
  refine watched_tell _ (watched_getch (presents_getch hopen.holds rfl ?_ rfl fun _ => hopen.fresh)
    fun c => ?_)
  · rw [notesAt, ← hopen.notes]
    rfl
  have hasked := hopen.holds.inner (e := ⟨.getch .updatePrompt s, c⟩) rfl rfl
  have hfresh := (outdated_concat _ ⟨.getch .updatePrompt s, c⟩).trans hopen.fresh
  have hdelay : delayOf (tr ++ [⟨.getch .topLevel s, key 'u'⟩] ++ [⟨.getch .updatePrompt s, c⟩]) =
      8000 := delayOf_concat _ _
  by_cases hy : c = key 'y'
  · subst hy
    rw [if_pos rfl]
    refine watched_tell _ (watched_exec (presents_run hasked (by decide) rfl hdelay.symm hfresh)
      fun out => watched_tell _ ?_)
    have hran := hasked.inner (e := ⟨.popen updateCommand s, some out⟩) rfl rfl
    have hresult : idle t (tr ++ [⟨.getch .topLevel s, key 'u'⟩] ++
        [⟨.getch .updatePrompt s, key 'y'⟩] ++ [⟨.popen updateCommand s, some out⟩]) =
        [.plain (execResult out)] := idle_concat t _ _
    have hdelay' := (delayOf_concat _ ⟨.popen updateCommand s, some out⟩).trans hdelay
    refine watched_getch (presents_getch hran rfl hresult.symm hdelay'.symm nofun) fun k => ?_
    have hread := hran.inner (e := ⟨.getch .updateResult s, k⟩) rfl rfl
    refine refresh_between hread (.inl ⟨rfl, ?_⟩) ?_ ?_ (declined_concat _ _)
    · simp only [boardOf_concat]
      rfl
    · rw [idle_concat]
      exact hresult.symm
    · rw [delayOf_concat]
      exact hdelay'.symm
  · rw [if_neg hy]
    refine watched_tell _ (watched_pure ⟨hasked, ?_, hdelay.symm, hfresh⟩)
    rw [idle_concat]
    change [] = Caption.notes _ (if c = key 'y' then _ else .none)
    rw [if_neg hy]
    rfl

/-- The end of `a`, which clears the window after the refresh. -/
theorem keyA_refresh (h : Holds t tr s (scr.pad.map Printed.drawn))
    (hb : (boardOf t tr).homing = false) (hidle : idle t tr = [])
    (hnotes : scr.notes = if declined tr then [addQuestion] else [])
    (hdelay : scr.delay = delayOf tr) :
    Watched env (display t) (duties t) (Between t)
      (refreshStatusItems s >>= fun s => tell .wclear >>= fun _ => pure s) scr tr := by
  have hcall : scr.notes = notesAt t tr (.popen statusCommand (cleared s)) := by
    rw [hnotes, notesAt, if_pos rfl, hidle]
  refine (refresh_shown h (.inl ⟨rfl, hb⟩) hcall hdelay).bind ?_
  rintro scr' tr' s' ⟨⟨out, rfl⟩, _, hdelay', hholds⟩
  refine watched_tell _ (watched_pure ⟨hholds, ?_, ?_, outdated_status tr _ out⟩)
  · rw [idle_status, hidle]
    rfl
  · rw [delayOf_status, ← hdelay]
    exact hdelay'

theorem keyA_shown (h : Between t scr tr s) :
    Watched env (display t) (duties t) (Between t) (keyA s) scr
      (tr ++ [⟨.getch .topLevel s, key 'a'⟩]) := by
  have ht := h.holds.kept.usable
  have hopen : Holds t (tr ++ [⟨.getch .topLevel s, key 'a'⟩]) s (scr.pad.map Printed.drawn) :=
    h.holds.pressed rfl
  have hidle : idle t (tr ++ [⟨.getch .topLevel s, key 'a'⟩]) = [] := idle_concat t tr _
  have hfresh := (outdated_concat tr ⟨.getch .topLevel s, key 'a'⟩).trans h.fresh
  have hhoming : (boardOf t (tr ++ [⟨.getch .topLevel s, key 'a'⟩])).homing = false := by
    rw [boardOf_concat]
    rfl
  apply watched_tell
  apply watched_tell
  rw [heard_question ht]
  refine watched_tell _ (watched_getch (presents_getch hopen rfl rfl rfl fun _ => hfresh)
    fun c => ?_)
  have hasked := hopen.inner (e := ⟨.getch .addPrompt s, c⟩) rfl rfl
  have hfresh' := (outdated_concat _ ⟨.getch .addPrompt s, c⟩).trans hfresh
  by_cases hy : c = key 'y'
  · subst hy
    rw [yes_eq, Interaction.bind_assoc]
    apply watched_tell
    rw [Interaction.bind_assoc]
    refine watched_exec (presents_run hasked (addCommand_ne s).1 rfl ?_ hfresh') fun out => ?_
    · rw [delayOf_concat]
      rfl
    refine keyA_refresh (hasked.inner ?_ (see_command (addCommand_ne s).1 _ _ _)) ?_ ?_ ?_ ?_
    · exact refreshOf_inner inner_add _
    · rw [boardOf_concat, see_command (addCommand_ne s).1, boardOf_concat]
      exact hhoming
    · rw [idle_concat, see_command (addCommand_ne s).1, caption_command (addCommand_ne s).2]
      exact (idle_concat t _ _).trans hidle
    · rw [declined_concat]
      rfl
    · rw [delayOf_concat, delayOf_concat]
      rfl
  · rw [no_eq hy]
    refine keyA_refresh hasked ?_ ?_ ?_ ?_
    · rw [boardOf_concat]
      exact hhoming
    · exact (idle_concat t _ _).trans hidle
    · rw [declined_concat, declines, if_pos (by simpa using hy)]
      rfl
    · rw [delayOf_concat]
      rfl

theorem keyR_shown (h : Between t scr tr s) :
    Watched env (display t) (duties t) (Between t) (keyR s) scr
      (tr ++ [⟨.getch .topLevel s, key 'r'⟩]) := by
  have ht := h.holds.kept.usable
  have hopen : Holds t (tr ++ [⟨.getch .topLevel s, key 'r'⟩]) s (scr.pad.map Printed.drawn) :=
    h.holds.pressed rfl
  have hidle : idle t (tr ++ [⟨.getch .topLevel s, key 'r'⟩]) = [] := idle_concat t tr _
  have hfresh := (outdated_concat tr ⟨.getch .topLevel s, key 'r'⟩).trans h.fresh
  have hhoming : (boardOf t (tr ++ [⟨.getch .topLevel s, key 'r'⟩])).homing = true := by
    rw [boardOf_concat]
    rfl
  apply watched_tell
  apply watched_tell
  rw [heard_question ht]
  refine watched_tell _ (watched_getch (presents_getch hopen rfl rfl rfl fun _ => hfresh)
    fun c => ?_)
  have hasked := hopen.inner (e := ⟨.getch .deletePrompt s, c⟩) rfl rfl
  have hfresh' := (outdated_concat _ ⟨.getch .deletePrompt s, c⟩).trans hfresh
  have hdelay : delayOf (tr ++ [⟨.getch .topLevel s, key 'r'⟩] ++ [⟨.getch .deletePrompt s, c⟩]) =
      12000 := delayOf_concat _ _
  by_cases hy : c = key 'y'
  · subst hy
    rw [yes_eq, Interaction.bind_assoc]
    apply watched_tell
    rw [Interaction.bind_assoc]
    apply watched_tell
    rw [heard_question ht, Interaction.bind_assoc]
    refine watched_getch (presents_getch hasked rfl rfl hdelay.symm fun _ => hfresh')
      fun k => ?_
    have hkept := hasked.inner (e := ⟨.getch .keepLocalPrompt s, k⟩) rfl rfl
    rw [Interaction.bind_assoc]
    apply watched_tell
    rw [Interaction.bind_assoc]
    have hdelay' := (delayOf_concat _ ⟨.getch .keepLocalPrompt s, k⟩).trans hdelay
    have hkeptIdle : idle t (tr ++ [⟨.getch .topLevel s, key 'r'⟩] ++
        [⟨.getch .deletePrompt s, key 'y'⟩] ++ [⟨.getch .keepLocalPrompt s, k⟩]) = [] := by
      rw [idle_concat]
      exact (idle_concat t _ _).trans hidle
    have hfresh'' := (outdated_concat _ ⟨.getch .keepLocalPrompt s, k⟩).trans hfresh'
    refine watched_exec (presents_run hkept (removeCommand_ne s k).1 rfl hdelay'.symm hfresh'')
      fun out => ?_
    have hran := hkept.inner (e := ⟨.popen (removeCommand s k) s, some out⟩)
      (refreshOf_inner (inner_remove k) _) (see_command (removeCommand_ne s k).1 _ _ _)
    refine watched_tell _ (refresh_between hran (.inr ⟨rfl, ?_⟩) ?_ ?_ (declined_concat _ _))
    · rw [boardOf_concat, see_command (removeCommand_ne s k).1, boardOf_concat, boardOf_concat]
      exact hhoming
    · rw [idle_concat, see_command (removeCommand_ne s k).1,
        caption_command (removeCommand_ne s k).2]
      exact hkeptIdle.symm
    · rw [delayOf_concat]
      exact hdelay'.symm
  · rw [no_eq hy]
    refine watched_tell _ (refresh_between hasked (.inr ⟨rfl, ?_⟩) ?_ hdelay.symm
      (declined_concat _ _))
    · rw [boardOf_concat]
      exact hhoming
    · rw [idle_concat]
      exact hidle.symm

end Prompts

section Rounds

variable {env : ∀ q, Answer q → Prop} {t : Terminal} {tr : History} {s : State} {scr : Screen}
  {p : Prog State} {c : Int}

/-- Each round of the loop shows what it should. -/
theorem keyEvent_shown (h : Between t scr tr s) :
    Watched env (display t) (duties t) (Between t) (keyEvent s) scr tr := by
  refine watched_getch (presents_getch h.holds rfl h.notes h.delay fun _ => h.fresh) fun c => ?_
  by_cases hq : c = key 'q' ∨ c = key 'Q'
  · rw [if_pos hq]
    have hsee : (boardOf t tr).see t ⟨.getch .topLevel s, c⟩ =
        { boardOf t tr with running := false } := if_pos hq
    refine watched_pure (h.append ?_ (h.holds.append rfl rfl ?_ ?_))
    · obtain rfl | rfl := hq
      · exact quiet_key (by decide) (by decide) (by decide) rfl
      · exact quiet_key (by decide) (by decide) (by decide) rfl
    · rw [hsee]
      exact represents_quit h.holds.board
    · rw [hsee]
  rw [if_neg hq]
  by_cases hj : c = key 'j'
  · rw [if_pos hj, hj]
    exact keyJ_shown h
  rw [if_neg hj]
  by_cases hk : c = key 'k'
  · rw [if_pos hk, hk]
    exact keyK_shown h
  rw [if_neg hk]
  by_cases hG : c = key 'G'
  · rw [if_pos hG, hG]
    exact keyG_shown h
  rw [if_neg hG]
  by_cases hg : c = key 'g'
  · rw [if_pos hg, hg]
    exact keyGg_shown h
  rw [if_neg hg]
  by_cases hs : c = key 's'
  · rw [if_pos hs, hs]
    exact keyS_shown h
  rw [if_neg hs]
  by_cases ha : c = key 'a'
  · rw [if_pos ha, ha]
    exact keyA_shown h
  rw [if_neg ha]
  by_cases hr : c = key 'r'
  · rw [if_pos hr, hr]
    exact keyR_shown h
  rw [if_neg hr]
  by_cases hu : c = key 'u'
  · rw [if_pos hu, hu]
    exact keyU_shown h
  rw [if_neg hu]
  by_cases hsp : c = key ' '
  · rw [if_pos hsp, hsp]
    exact keySpace_shown h
  rw [if_neg hsp]
  by_cases hd : c = key '.'
  · rw [if_pos hd, hd]
    exact keyDot_shown h
  rw [if_neg hd]
  have hb : (boardOf t tr).press t c =
      { boardOf t tr with homing := c = key 's' ∨ c = key 'r' } := by
    rw [Board.press, if_neg hq, if_neg hj, if_neg hk, if_neg hG, if_neg hsp, if_neg hd]
  refine watched_pure (h.append (quiet_key ha hr hd ?_) (h.holds.pressed hb))
  rw [hb]

theorem main_shown :
    Watched env (display t) (duties t) (Between t) (main t) Screen.fresh [] := by
  apply watched_tell
  change Watched env _ _ _ (if newpad (t.maxY - bottomWindowSize) t.maxX then
    refreshStatusItems (opening t) else .stop .noPad) _ []
  by_cases hpad : newpad (t.maxY - bottomWindowSize) t.maxX = true
  · have ht : Usable t := by
      simp only [newpad, decide_eq_true_eq] at hpad
      exact hpad
    rw [if_pos hpad]
    have hq : Presents t (Screen.fresh.heard t (.timeout 1000)) []
        (.popen statusCommand (cleared (opening t))) := by
      refine ⟨rfl, rfl, rfl, fun _ => rfl, ?_⟩
      intro site s hs
      cases hs
    refine (watched_refresh ht rfl (show (0 : Int) ≤ intMax by decide) hq ?_).mono ?_
    · intro out text s' rows htext hd
      have hready := ready_main (.refreshed ht htext) hd
      refine holds_drawn hready ?_ hd ?_ ?_
      · exact represents_loaded (m := opening t) rfl htext
      · exact fun _ => ⟨stable_loaded _ _, allPadded_loaded hready.shows rfl hd⟩
      · exact .inl rfl
    · rintro scr' tr' s' ⟨⟨out, rfl⟩, hnotes, hdelay, hholds⟩
      exact ⟨hholds, hnotes, hdelay, rfl⟩
  · rw [if_neg hpad]
    apply Diagnosed.pad
    simpa [newpad, Usable] using hpad

/-- In every run, from its first step on. -/
theorem displays_shown (h : Displays env t scr tr p) :
    Watched env (display t) (duties t) (Between t) p scr tr :=
  observed_watched main_shown (fun _ _ _ _ hi _ => keyEvent_shown hi) h

end Rounds

end SvnCurses.Watching
