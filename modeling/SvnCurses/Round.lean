import SvnCurses.KeyEvent

namespace SvnCurses.Round

open Cpp ProgramState Draw Interaction KeyEvent

/-- What a handler may ask between the key that starts it and its refresh. -/
inductive Inner (s : State) : Call → Prop
  | read {site} (h : site ≠ .topLevel) : Inner s (.getch site s)
  | run {cmd} (h : cmd ≠ statusCommand) : Inner s (.popen cmd s)

/-- A handler's exchanges up to some point: its key, which is not the space key,
and then its own questions. -/
def Opened (s : State) (r : History) : Prop :=
  ∃ (c : Int) (mid : History), c ≠ key ' ' ∧ (∀ e ∈ mid, Inner s e.1) ∧
    r = ⟨.getch .topLevel s, c⟩ :: mid

/-- Where a key other than the space key puts the cursor and the scroll offset. -/
inductive Moves (s : State) : Int → State → Prop
  | up {m} (h : cursorUp s = .ok m) : Moves s (key 'k') m
  | down {m} (h : cursorDown s = .ok m) : Moves s (key 'j') m
  | last : Moves s (key 'G') (cursorLast s)
  | top : Moves s (key 'g') (atTop s)

/-- The state in which `svn st` is run, and the one with its output taken over. -/
def cleared (s : State) : State := { s with selectedItems := [] }

def loaded (s : State) (text : Str) : State :=
  { s with
    selectedItems := []
    statusItems := split text '\n'
    allStatusItems := split text '\n' }

/-- The states a round may draw, after its exchanges so far. -/
inductive Draws (s : State) : History → State → Prop
  | moved {c mid m} (hc : c ≠ key ' ') (hmid : ∀ e ∈ mid, Inner s e.1) (hm : Moves s c m) :
      Draws s (⟨.getch .topLevel s, c⟩ :: mid) m
  | toggled {m m'} (hm : toggleSelected s = .ok m) (hm' : cursorDown m = .ok m') :
      Draws s [⟨.getch .topLevel s, key ' '⟩] m'
  | refreshed {r m out text} (hr : Opened s r) (hm : m = s ∨ m = atTop s)
      (htext : popBack (execResult out) = .ok text) :
      Draws s (r ++ [⟨.popen statusCommand (cleared m), some out⟩]) (loaded m text)

/-- One round of the loop from a state: its exchanges and the state it ends in. -/
inductive Ends (s : State) : History → State → Prop
  | idle {r s'} (hr : Opened s r)
      (hs : s' = { s with isRunning := s'.isRunning, hidden := s'.hidden }) : Ends s r s'
  | drawn {r m s' rows} (hm : Draws s r m) (hd : printAllStatus m = .ok (s', rows)) : Ends s r s'

/-- What a round may ask, given its exchanges so far. -/
inductive Asks (s : State) : History → Call → Prop
  | top : Asks s [] (.getch .topLevel s)
  | prompt {r site} (hr : Opened s r) (h : site ≠ .topLevel) : Asks s r (.getch site s)
  | add : Asks s [⟨.getch .topLevel s, key 'a'⟩, ⟨.getch .addPrompt s, key 'y'⟩]
      (.popen (addCommand s) s)
  | remove {k : Int} : Asks s [⟨.getch .topLevel s, key 'r'⟩, ⟨.getch .deletePrompt s, key 'y'⟩,
      ⟨.getch .keepLocalPrompt s, k⟩] (.popen (removeCommand s k) s)
  | update : Asks s [⟨.getch .topLevel s, key 'u'⟩, ⟨.getch .updatePrompt s, key 'y'⟩]
      (.popen updateCommand s)
  | status {r m} (hr : Opened s r) (hm : m = s ∨ m = atTop s) :
      Asks s r (.popen statusCommand (cleared m))

inductive Tells (s : State) : History → Output → Prop
  | pad {r m s' rows} (hm : Draws s r m) (hd : printAllStatus m = .ok (s', rows)) :
      Tells s r (.pad m s' rows)
  | timeout {r delay} : Tells s r (.timeout delay)
  | wclear {r} : Tells s r .wclear
  | wprintw {r text} : Tells s r (.wprintw text)
  | mvwprintw {r y x text} : Tells s r (.mvwprintw y x text)

def popBackFault : Stop := .fault (.undefined .popBackOnEmpty)

/-- A round takes back a character of an empty string only right after `svn st`
gave an output from which `exec` makes none. -/
def Stops (r : History) (f : Stop) : Prop :=
  f = popBackFault → ∃ past m out, r = past ++ [⟨.popen statusCommand m, some out⟩] ∧
    execResult out = []

def contract (s : State) : Contract Answer Output Stop :=
  ⟨Asks s, Tells s, Stops⟩

section Rules

variable {env : ∀ q, Answer q → Prop} {C : Contract Answer Output Stop}
  {post : History → State → Prop} {α β : Type} {goal : History → β → Prop} {r : History}

theorem safe_pure {a : β} (h : goal r a) : Safe env C goal (pure a : Prog β) r := h

theorem safe_tell {o : Output} {f : Unit → Prog β} (ho : C.tells r o)
    (hf : Safe env C goal (f ()) r) : Safe env C goal (tell o >>= f) r := ⟨ho, hf⟩

theorem safe_getch {site : Site} {s : State} {f : Int → Prog β}
    (hq : C.asks r (.getch site s))
    (hf : ∀ c : Int, Safe env C goal (f c) (r ++ [⟨.getch site s, c⟩])) :
    Safe env C goal (getch site s >>= f) r := ⟨hq, fun c _ => hf c⟩

theorem safe_exec {cmd : Str} {s : State} {f : Str → Prog β} (hq : C.asks r (.popen cmd s))
    (hstop : ∀ r what, C.stops r (.fault (.thrown (.runtimeError what))))
    (hf : ∀ out, Safe env C goal (f (execResult out)) (r ++ [⟨.popen cmd s, some out⟩])) :
    Safe env C goal (exec cmd s >>= f) r := by
  refine ⟨hq, fun a _ => ?_⟩
  cases a with
  | none => exact hstop _ _
  | some out => exact hf out

theorem safe_lift {e : Except Fault α} {f : α → Prog β}
    (hstop : ∀ fault, e = .error fault → C.stops r (.fault fault))
    (hf : ∀ a, e = .ok a → Safe env C goal (f a) r) : Safe env C goal (lift e >>= f) r := by
  cases e with
  | error fault => exact hstop fault rfl
  | ok a => exact hf a rfl

theorem safe_showAllStatus {s : State}
    (hstop : ∀ fault, printAllStatus s = .error fault → C.stops r (.fault fault))
    (hf : ∀ s' rows, printAllStatus s = .ok (s', rows) →
      C.tells r (.pad s s' rows) ∧ post r s') : Safe env C post (showAllStatus s) r :=
  safe_lift hstop fun _ hd => safe_tell (hf _ _ hd).1 (hf _ _ hd).2

theorem safe_refresh {m : State} (hq : C.asks r (.popen statusCommand (cleared m)))
    (hmessage : ∀ r y x text, C.tells r (.mvwprintw y x text))
    (hstop : ∀ r what, C.stops r (.fault (.thrown (.runtimeError what))))
    (hempty : ∀ out, execResult out = [] →
      C.stops (r ++ [⟨.popen statusCommand (cleared m), some out⟩]) popBackFault)
    (hfault : ∀ out text fault, printAllStatus (loaded m text) = .error fault →
      C.stops (r ++ [⟨.popen statusCommand (cleared m), some out⟩]) (.fault fault))
    (hdraw : ∀ out text s' rows, popBack (execResult out) = .ok text →
      printAllStatus (loaded m text) = .ok (s', rows) →
      C.tells (r ++ [⟨.popen statusCommand (cleared m), some out⟩]) (.pad (loaded m text) s' rows) ∧
        post (r ++ [⟨.popen statusCommand (cleared m), some out⟩]) s') :
    Safe env C post (refreshStatusItems m) r := by
  apply safe_tell (hmessage _ _ _ _)
  refine safe_exec hq hstop fun out => safe_lift ?_ fun text htext => ?_
  · intro fault hf
    have hnil : execResult out = [] ∧ fault = .undefined .popBackOnEmpty := by
      simp only [popBack] at hf
      split at hf
      · next hnil => exact ⟨hnil, by simpa using hf.symm⟩
      · cases hf
    rw [hnil.2]
    exact hempty out hnil.1
  · have hshow : Safe env C (fun r' s' =>
        r' = r ++ [⟨.popen statusCommand (cleared m), some out⟩] ∧
          ∃ rows, printAllStatus (loaded m text) = .ok (s', rows)) (showAllStatus (loaded m text))
        (r ++ [⟨.popen statusCommand (cleared m), some out⟩]) :=
      safe_showAllStatus (hfault out text) fun s' rows hd =>
        ⟨(hdraw out text s' rows htext hd).1, rfl, rows, hd⟩
    apply hshow.bind
    intro r' s' h
    obtain ⟨rfl, rows, hd⟩ := h
    exact safe_tell (hmessage _ _ _ _) (hdraw out text s' rows htext hd).2

end Rules

section Faults

variable {α β : Type}

/-- The evaluation does not take a character back from an empty string. -/
def NeverPops (e : Except Fault α) : Prop := e ≠ .error (.undefined .popBackOnEmpty)

theorem neverPops_bind {e : Except Fault α} {f : α → Except Fault β} (he : NeverPops e)
    (hf : ∀ a, NeverPops (f a)) : NeverPops (e >>= f) := by
  cases e with
  | error fault => exact fun h => he (by rw [Except.error.inj h])
  | ok a => exact hf a

theorem neverPops_ok (a : α) : NeverPops (.ok a) := nofun

theorem neverPops_checked (x : Int) : NeverPops (checked x) := by
  simp only [NeverPops, checked]
  split <;> simp

theorem neverPops_index (v : List α) (i : Int) : NeverPops (index v i) := by
  simp only [NeverPops, index]
  split <;> simp

theorem neverPops_append (s : Str) (count : Int) (c : Char) : NeverPops (append s count c) := by
  simp only [NeverPops, append]
  split <;> simp

theorem neverPops_shifted (item : Str) : NeverPops (shifted item) := by
  refine neverPops_bind ?_ fun _ => neverPops_ok _
  simp only [NeverPops, insertAt]
  split_ifs <;> simp

theorem neverPops_drawItem (isItemSelected underCursor : Bool) (item : Str) :
    NeverPops (drawItem isItemSelected underCursor item) := by
  simp only [drawItem]
  split_ifs
  · exact neverPops_bind (neverPops_shifted item) fun _ => neverPops_ok _
  · exact neverPops_bind (neverPops_shifted item) fun _ => neverPops_ok _
  · exact neverPops_ok _
  · refine neverPops_bind ?_ fun _ => neverPops_ok _
    simp only [NeverPops, front]
    split <;> simp

theorem neverPops_printFrom (fuel : Nat) (s : State) (i : Int) :
    NeverPops (printFrom fuel s i) := by
  induction fuel generalizing s i with
  | zero => exact neverPops_ok _
  | succ fuel ih =>
    simp only [printFrom]
    split
    · refine neverPops_bind ?_ fun _ => neverPops_bind (neverPops_checked _) fun _ =>
        neverPops_bind (ih _ _) fun _ => neverPops_ok _
      exact neverPops_bind (neverPops_index _ _) fun _ => neverPops_bind (neverPops_append _ _ _)
        fun _ => neverPops_bind (neverPops_drawItem _ _ _) fun _ => neverPops_ok _
    · exact neverPops_ok _

theorem neverPops_cursorUp (s : State) : NeverPops (cursorUp s) := by
  simp only [cursorUp]
  split
  · refine neverPops_bind (neverPops_checked _) fun _ => ?_
    split
    · exact neverPops_bind (neverPops_checked _) fun _ => neverPops_ok _
    · exact neverPops_ok _
  · exact neverPops_ok _

theorem neverPops_cursorDown (s : State) : NeverPops (cursorDown s) := by
  simp only [cursorDown]
  split
  · refine neverPops_bind (neverPops_checked _) fun _ => neverPops_bind (neverPops_checked _)
      fun _ => neverPops_bind (neverPops_checked _) fun _ => ?_
    split
    · exact neverPops_bind (neverPops_checked _) fun _ => neverPops_ok _
    · exact neverPops_ok _
  · exact neverPops_ok _

theorem neverPops_toggleSelected (s : State) : NeverPops (toggleSelected s) := by
  refine neverPops_bind (neverPops_index _ _) fun item => ?_
  split <;> exact neverPops_ok _

theorem stops_of_neverPops {e : Except Fault α} (he : NeverPops e) (r : History) (fault : Fault)
    (h : e = .error fault) : Stops r (.fault fault) := by
  intro hpop
  cases hpop
  exact absurd h he

end Faults

section KeyEvent

variable {env : ∀ q, Answer q → Prop} {s : State} {r : History}

theorem opened_key {c : Int} (hc : c ≠ key ' ') : Opened s [⟨.getch .topLevel s, c⟩] :=
  ⟨c, [], hc, by simp, rfl⟩

theorem opened_concat (hr : Opened s r) {q : Call} (hq : Inner s q) (a : Answer q) :
    Opened s (r ++ [⟨q, a⟩]) := by
  obtain ⟨c, mid, hc, hmid, rfl⟩ := hr
  refine ⟨c, mid ++ [⟨q, a⟩], hc, fun e he => ?_, rfl⟩
  obtain he | he := List.mem_append.mp he
  · exact hmid e he
  · rw [List.mem_singleton.mp he]
    exact hq

theorem stops_other {f : Stop} (h : f ≠ popBackFault) : Stops r f := fun he => absurd he h

theorem stops_runtimeError (r : History) (what : Str) :
    Stops r (.fault (.thrown (.runtimeError what))) := by
  apply stops_other
  simp [popBackFault]

theorem refresh_round {m : State} (hr : Opened s r) (hm : m = s ∨ m = atTop s) :
    Safe env (contract s) (Ends s) (refreshStatusItems m) r := by
  refine safe_refresh (.status hr hm) (fun _ _ _ _ => .mvwprintw) stops_runtimeError ?_ ?_ ?_
  · intro out hnil _
    exact ⟨r, cleared m, out, rfl, hnil⟩
  · intro out text fault hf
    exact stops_of_neverPops (neverPops_printFrom _ _ _) _ fault hf
  · intro out text s' rows htext hd
    exact ⟨.pad (.refreshed hr hm htext) hd, .drawn (.refreshed hr hm htext) hd⟩

theorem draw_round {c : Int} {m : State} {mid : History} (hc : c ≠ key ' ')
    (hmid : ∀ e ∈ mid, Inner s e.1) (hm : Moves s c m) :
    Safe env (contract s) (Ends s) (showAllStatus m) (⟨.getch .topLevel s, c⟩ :: mid) :=
  safe_showAllStatus (fun f hf => stops_of_neverPops (neverPops_printFrom _ _ _) _ f hf)
    fun _ _ hd => ⟨.pad (.moved hc hmid hm) hd, .drawn (.moved hc hmid hm) hd⟩

theorem yes_eq (p : Prog Unit) : ifYes (key 'y') p = p := if_pos rfl

theorem no_eq {c : Int} (hc : c ≠ key 'y') (p : Prog Unit) : ifYes c p = .done () := if_neg hc

theorem addCommand_start (s : State) : (addCommand s).take 5 = "svn a".toList := rfl

theorem removeCommand_start (s : State) (k : Int) :
    (removeCommand s k).take 5 = "svn r".toList := rfl

theorem removeCommand_keep (s : State) :
    removeCommand s (key 'y') = "svn rm --keep-local ".toList ++ joinedStr s := by
  have hverb : "svn rm ".toList ++ "--keep-local ".toList = "svn rm --keep-local ".toList := by
    decide
  unfold removeCommand
  rw [if_pos rfl, hverb]

theorem removeCommand_delete (s : State) {k : Int} (hk : k ≠ key 'y') :
    removeCommand s k = "svn rm ".toList ++ joinedStr s := by
  unfold removeCommand
  rw [if_neg hk, List.append_nil]

theorem statusCommand_start : statusCommand.take 5 = "svn s".toList := rfl

theorem inner_add : Inner s (.popen (addCommand s) s) := by
  apply Inner.run
  intro h
  have hstart := addCommand_start s
  rw [h, statusCommand_start] at hstart
  revert hstart
  decide

theorem inner_remove (k : Int) : Inner s (.popen (removeCommand s k) s) := by
  apply Inner.run
  intro h
  have hstart := removeCommand_start s k
  rw [h, statusCommand_start] at hstart
  revert hstart
  decide

theorem inner_update : Inner s (.popen updateCommand s) := .run (by decide)

theorem inner_read {site : Site} (h : site ≠ .topLevel) : Inner s (.getch site s) := .read h

theorem keyA_round : Safe env (contract s) (Ends s) (keyA s) [⟨.getch .topLevel s, key 'a'⟩] := by
  have hopen : Opened s [⟨.getch .topLevel s, key 'a'⟩] := opened_key (by decide)
  have hrefresh : ∀ r, Opened s r → Safe env (contract s) (Ends s)
      (refreshStatusItems s >>= fun s => tell .wclear >>= fun _ => pure s) r := fun r hr =>
    (refresh_round hr (.inl rfl)).bind fun _ _ h => safe_tell Tells.wclear (safe_pure h)
  refine safe_tell Tells.wclear (safe_tell Tells.mvwprintw (safe_tell Tells.timeout
    (safe_getch (Asks.prompt hopen (by decide)) fun c => ?_)))
  have hasked := opened_concat hopen (inner_read (show Site.addPrompt ≠ .topLevel by decide)) c
  by_cases hy : c = key 'y'
  · subst hy
    rw [yes_eq, bind_assoc]
    apply safe_tell Tells.wclear
    rw [bind_assoc]
    refine safe_exec Asks.add stops_runtimeError fun out => hrefresh _ ?_
    exact opened_concat hasked inner_add _
  · rw [no_eq hy]
    exact hrefresh _ hasked

theorem keyR_round : Safe env (contract s) (Ends s) (keyR s) [⟨.getch .topLevel s, key 'r'⟩] := by
  have hopen : Opened s [⟨.getch .topLevel s, key 'r'⟩] := opened_key (by decide)
  have hrefresh : ∀ r, Opened s r → Safe env (contract s) (Ends s)
      (tell .wclear >>= fun _ => refreshStatusItems (atTop s)) r := fun r hr =>
    safe_tell Tells.wclear (refresh_round hr (.inr rfl))
  refine safe_tell Tells.wclear (safe_tell Tells.mvwprintw (safe_tell Tells.timeout
    (safe_getch (Asks.prompt hopen (by decide)) fun c => ?_)))
  have hasked := opened_concat hopen (inner_read (show Site.deletePrompt ≠ .topLevel by decide)) c
  by_cases hy : c = key 'y'
  · subst hy
    rw [yes_eq, bind_assoc]
    apply safe_tell Tells.wclear
    rw [bind_assoc]
    apply safe_tell Tells.mvwprintw
    rw [bind_assoc]
    apply safe_getch (Asks.prompt hasked (by decide))
    intro k
    rw [bind_assoc]
    apply safe_tell Tells.wclear
    rw [bind_assoc]
    refine safe_exec Asks.remove stops_runtimeError fun out => hrefresh _ ?_
    have hkept := opened_concat hasked
      (inner_read (show Site.keepLocalPrompt ≠ .topLevel by decide)) k
    exact opened_concat hkept (inner_remove k) _
  · rw [no_eq hy]
    exact hrefresh _ hasked

/-- Nothing is asked before the key of the round, nor after its refresh. -/
theorem Asks.opened {q : Call} (h : Asks s r q) : r = [] ∨ Opened s r := by
  have hopen : ∀ c mid, c ≠ key ' ' → (∀ e ∈ mid, Inner s e.1) →
      Opened s (⟨.getch .topLevel s, c⟩ :: mid) := fun c mid hc hmid => ⟨c, mid, hc, hmid, rfl⟩
  cases h with
  | top => exact .inl rfl
  | prompt hr _ | status hr _ => exact .inr hr
  | add | update =>
    refine .inr (hopen _ _ (by decide) ?_)
    simpa using Inner.read (by decide)
  | remove =>
    refine .inr (hopen _ _ (by decide) ?_)
    simpa using ⟨Inner.read (by decide), Inner.read (by decide)⟩

theorem idle_round (hr : Opened s r) : Ends s r s := .idle hr rfl

theorem keyU_round : Safe env (contract s) (Ends s) (keyU s) [⟨.getch .topLevel s, key 'u'⟩] := by
  have hopen : Opened s [⟨.getch .topLevel s, key 'u'⟩] := opened_key (by decide)
  refine safe_tell Tells.mvwprintw (safe_tell Tells.timeout
    (safe_getch (Asks.prompt hopen (by decide)) fun c => ?_))
  have hasked := opened_concat hopen (inner_read (show Site.updatePrompt ≠ .topLevel by decide)) c
  by_cases hy : c = key 'y'
  · subst hy
    rw [if_pos rfl]
    refine safe_tell Tells.wclear (safe_exec Asks.update stops_runtimeError fun out =>
      safe_tell Tells.wprintw ?_)
    have hran := opened_concat hasked inner_update (some out)
    refine safe_getch (Asks.prompt hran (by decide)) fun k => refresh_round ?_ (.inl rfl)
    exact opened_concat hran (inner_read (show Site.updateResult ≠ .topLevel by decide)) k
  · rw [if_neg hy]
    exact safe_tell Tells.wclear (safe_pure (idle_round hasked))

theorem keySpace_round :
    Safe env (contract s) (Ends s) (keySpace s) [⟨.getch .topLevel s, key ' '⟩] := by
  apply safe_lift (stops_of_neverPops (neverPops_toggleSelected s) _)
  intro m hm
  apply safe_lift (stops_of_neverPops (neverPops_cursorDown m) _)
  intro m' hm'
  exact safe_showAllStatus (stops_of_neverPops (neverPops_printFrom _ _ _) _)
    fun _ _ hd => ⟨.pad (.toggled hm hm') hd, .drawn (.toggled hm hm') hd⟩

theorem keyDot_round : Safe env (contract s) (Ends s) (keyDot s) [⟨.getch .topLevel s, key '.'⟩] :=
  safe_tell Tells.wclear (safe_tell Tells.wprintw (safe_pure (.idle (opened_key (by decide)) rfl)))

theorem keyGg_round : Safe env (contract s) (Ends s) (keyGg s) [⟨.getch .topLevel s, key 'g'⟩] := by
  have hopen : Opened s [⟨.getch .topLevel s, key 'g'⟩] := opened_key (by decide)
  apply safe_getch (Asks.prompt hopen (by decide))
  intro c
  by_cases hc : c = key 'g'
  · rw [if_pos hc]
    refine draw_round (by decide) ?_ .top
    rintro e he
    rw [List.mem_singleton.mp he]
    exact .read (by decide)
  · rw [if_neg hc]
    exact safe_pure (idle_round (opened_concat hopen (.read (by decide)) c))

/-- Everything a round of the loop can do. -/
theorem keyEvent_round : Safe env (contract s) (Ends s) (keyEvent s) [] := by
  apply safe_getch Asks.top
  intro c
  rw [List.nil_append]
  have hnone : ∀ e ∈ ([] : History), Inner s e.1 := by simp
  by_cases hq : c = key 'q' ∨ c = key 'Q'
  · rw [if_pos hq]
    refine safe_pure (.idle (opened_key ?_) rfl)
    obtain rfl | rfl := hq <;> decide
  rw [if_neg hq]
  by_cases hj : c = key 'j'
  · rw [if_pos hj, hj]
    exact safe_lift (stops_of_neverPops (neverPops_cursorDown s) _) fun m hm =>
      draw_round (by decide) hnone (.down hm)
  rw [if_neg hj]
  by_cases hk : c = key 'k'
  · rw [if_pos hk, hk]
    exact safe_lift (stops_of_neverPops (neverPops_cursorUp s) _) fun m hm =>
      draw_round (by decide) hnone (.up hm)
  rw [if_neg hk]
  by_cases hG : c = key 'G'
  · rw [if_pos hG, hG]
    exact draw_round (by decide) hnone .last
  rw [if_neg hG]
  by_cases hg : c = key 'g'
  · rw [if_pos hg, hg]
    exact keyGg_round
  rw [if_neg hg]
  by_cases hs : c = key 's'
  · rw [if_pos hs, hs]
    exact refresh_round (opened_key (by decide)) (.inr rfl)
  rw [if_neg hs]
  by_cases ha : c = key 'a'
  · rw [if_pos ha, ha]
    exact keyA_round
  rw [if_neg ha]
  by_cases hr : c = key 'r'
  · rw [if_pos hr, hr]
    exact keyR_round
  rw [if_neg hr]
  by_cases hu : c = key 'u'
  · rw [if_pos hu, hu]
    exact keyU_round
  rw [if_neg hu]
  by_cases hsp : c = key ' '
  · rw [if_pos hsp, hsp]
    exact keySpace_round
  rw [if_neg hsp]
  by_cases hd : c = key '.'
  · rw [if_pos hd, hd]
    exact keyDot_round
  rw [if_neg hd]
  exact safe_pure (idle_round (opened_key hsp))

end KeyEvent

end SvnCurses.Round
