import SvnCurses.Play

namespace SvnCurses.RefreshText

open Cpp ProgramState Draw Interaction KeyEvent Round Rows Cursor Session Viewport Play

section Exec

variable {out buffer : Str} {lines : List Str}

/-- The command prints a character that a C string begins with. Without null
characters, that is any character at all. -/
def SaysSomething (out : Str) : Prop :=
  ∃ buffer ∈ buffers out.length out, buffer.head? ≠ some '\x00'

instance (out : Str) : Decidable (SaysSomething out) :=
  inferInstanceAs (Decidable (∃ buffer ∈ buffers out.length out, buffer.head? ≠ some '\x00'))

theorem fgets_some {size : Nat} {stream rest : Str} (hsize : 1 < size)
    (h : fgets size stream = some (buffer, rest)) :
    buffer ≠ [] ∧ buffer ++ rest = stream := by
  simp only [fgets] at h
  split at h
  · cases h
  · next hne =>
    have he := Option.some.inj h
    have hroom : 0 < size - 1 := by omega
    have hne' := readLine_ne_nil hroom hne
    have happend := readLine_append (size - 1) stream
    rw [he] at hne' happend
    exact ⟨hne', happend⟩

theorem buffers_ne_nil {fuel : Nat} {stream : Str} (h : buffer ∈ buffers fuel stream) :
    buffer ≠ [] := by
  induction fuel generalizing stream with
  | zero => cases h
  | succ fuel ih =>
    simp only [buffers] at h
    split at h
    · cases h
    · next first rest hfgets =>
      obtain rfl | h := List.mem_cons.mp h
      · exact (fgets_some (by decide) hfgets).1
      · exact ih h

theorem cString_eq_nil (hne : buffer ≠ []) : cString buffer = [] ↔ buffer.head? = some '\x00' := by
  cases buffer with
  | nil => exact absurd rfl hne
  | cons c s => simp [cString, List.takeWhile_cons]

theorem execResult_eq_nil : execResult out = [] ↔ ¬ SaysSomething out := by
  simp only [execResult, SaysSomething, List.flatMap_eq_nil_iff, not_exists, not_and, ne_eq,
    not_not]
  exact forall₂_congr fun buffer hmem => cString_eq_nil (buffers_ne_nil hmem)

theorem buffers_flatten {fuel : Nat} {stream : Str} (h : stream.length ≤ fuel) :
    (buffers fuel stream).flatten = stream := by
  induction fuel generalizing stream with
  | zero =>
    obtain rfl := List.length_eq_zero_iff.mp (Nat.le_zero.mp h)
    rfl
  | succ fuel ih =>
    simp only [buffers]
    split
    · next hfgets =>
      simp only [fgets, ite_eq_left_iff, reduceCtorEq, imp_false, not_not] at hfgets
      rw [hfgets]
      rfl
    · next first rest hfgets =>
      obtain ⟨hne, happend⟩ := fgets_some (by decide) hfgets
      have hpos := List.length_pos_iff.mpr hne
      have hlen := congrArg List.length happend
      rw [List.length_append] at hlen
      rw [List.flatten_cons, ih (by omega), happend]

theorem cString_clean (h : '\x00' ∉ buffer) : cString buffer = buffer := by
  rw [cString, List.takeWhile_eq_self_iff]
  intro c hc
  exact decide_eq_true fun he => h (he ▸ hc)

/-- Nothing is lost or cut between the buffers. -/
theorem execResult_clean (h : '\x00' ∉ out) : execResult out = out := by
  have hflat := buffers_flatten (Nat.le_refl out.length)
  have hmap : (buffers out.length out).map cString = buffers out.length out := by
    refine (List.map_congr_left fun buffer hmem => ?_).trans (List.map_id _)
    apply cString_clean
    intro hnull
    apply h
    rw [← hflat]
    exact List.mem_flatten_of_mem hmem hnull
  rw [execResult, List.flatMap_def, hmap, hflat]

/-- What a command prints that ends each line with a newline. -/
def printed (lines : List Str) : Str := lines.flatMap (· ++ ['\n'])

theorem printed_eq (hne : lines ≠ []) : printed lines = ['\n'].intercalate lines ++ ['\n'] := by
  induction lines with
  | nil => exact absurd rfl hne
  | cons line lines ih =>
    cases lines with
    | nil => simp [printed]
    | cons next lines =>
      have hrest := ih (by simp)
      rw [printed] at hrest ⊢
      rw [List.flatMap_cons, hrest, List.intercalate_cons_cons]
      simp

theorem printed_clean (hline : ∀ line ∈ lines, '\n' ∉ line ∧ '\x00' ∉ line) :
    '\x00' ∉ printed lines := by
  intro h
  obtain ⟨line, hmem, hnull⟩ := List.mem_flatMap.mp h
  obtain hnull | hnull := List.mem_append.mp hnull
  · exact (hline line hmem).2 hnull
  · simp at hnull

/-- The lines come back as they were printed. -/
theorem linesOf_printed (hne : lines ≠ []) (hline : ∀ line ∈ lines, '\n' ∉ line ∧ '\x00' ∉ line) :
    linesOf (printed lines) = lines := by
  rw [linesOf, execResult_clean (printed_clean hline), printed_eq hne, List.dropLast_concat]
  exact List.splitOn_intercalate '\n' (fun line hmem => (hline line hmem).1) hne

theorem popBack_printed (hne : lines ≠ [])
    (hline : ∀ line ∈ lines, '\n' ∉ line ∧ '\x00' ∉ line) :
    ∃ text, popBack (execResult (printed lines)) = .ok text ∧ split text '\n' = lines := by
  have hlines := linesOf_printed hne hline
  refine ⟨(execResult (printed lines)).dropLast, popBack_ok.mpr ⟨?_, rfl⟩, hlines⟩
  rw [execResult_clean (printed_clean hline), printed_eq hne]
  simp

end Exec

section Refreshes

variable {t : Terminal} {tr : History} {p : Prog State}

/-- `svn st` prints something at each refresh. -/
abbrev AnswersStatus : ∀ q, Answer q → Prop := StatusPrints fun _ out => SaysSomething out

theorem stops_empty {env : ∀ q, Answer q → Prop} (h : Session env t tr (.stop popBackFault)) :
    ∃ m out, ⟨.popen statusCommand m, some out⟩ ∈ tr ∧ ¬ SaysSomething out := by
  have hstop : ∃ past r, tr = past ++ r ∧ Stops r popBackFault := by
    obtain hw | ⟨past, s, r, _, hs, rfl⟩ := in_round h
    · exact ⟨[], tr, rfl, within_safe main_safe hw⟩
    · exact ⟨past, r, rfl, hs⟩
  obtain ⟨past, r, rfl, hs⟩ := hstop
  obtain ⟨before, m, out, rfl, hnil⟩ := hs rfl
  exact ⟨m, out, by simp, execResult_eq_nil.mp hnil⟩

/-- While `svn st` prints something, no refresh takes a character back from an
empty text, and there is a row whenever a key is read. -/
theorem refresh_defined (h : Session AnswersStatus t tr p) :
    p ≠ .stop popBackFault ∧
      ∀ site s next, p = .ask (.getch site s) next → s.statusItems ≠ [] := by
  refine ⟨?_, ?_⟩
  · rintro rfl
    obtain ⟨m, out, hmem, hnone⟩ := stops_empty h
    have hsays : SaysSomething out := reaches_allowed h _ hmem rfl
    exact hnone hsays
  · rintro site s next rfl
    obtain ⟨v, hv, _⟩ := (session_reads_kept h).shows
    exact hv.rows_ne

theorem refresh_defined_again : ∃ tr s next,
    Session AnswersStatus narrowTerminal tr (.ask (.getch .topLevel s) next) ∧
      keysOf tr = [key 's'] ∧ s.statusItems ≠ [] := by
  obtain ⟨tr, s, next, h, hkeys⟩ := play_reads AnswersStatus narrowTerminal 2
    [.inr "? a\n? b\n".toList, .inl (key 's'), .inr "\n".toList]
    (fun tr _ => keysOf tr = [key 's']) (by decide +kernel) (by decide +kernel)
  exact ⟨tr, s, next, h, hkeys, (refresh_defined h).2 _ _ _ rfl⟩

/-- In a clean working copy the first refresh is undefined. -/
theorem refresh_undefined :
    ∃ tr, Session (fun _ _ => True) narrowTerminal tr (.stop popBackFault) :=
  ⟨_, play_reaches _ narrowTerminal 1 [.inr []] fun _ _ => trivial⟩

end Refreshes

section ReadBack

variable {lines : List Str}

/-- A state in which the lines have been taken over, and nothing is selected. -/
def holding (s : State) (lines : List Str) : State :=
  { s with selectedItems := [], statusItems := lines, allStatusItems := lines }

/-- Whatever the state, a refresh that reads some printed lines goes on with just
these lines, redraws them, and leaves them as they are. They are still there
whenever a key is read before the next refresh. -/
theorem lines_read_back (hne : lines ≠ [])
    (hline : ∀ line ∈ lines, '\n' ∉ line ∧ '\x00' ∉ line) (s : State) :
    (∃ next, refreshStatusItems s = .say (.mvwprintw (s.maxY - 1) 0 "...".toList)
        (.ask (.popen "svn st".toList { s with selectedItems := [] }) next) ∧
      next (some (printed lines)) = do
        let s ← showAllStatus (holding s lines)
        tell (.mvwprintw (s.maxY - 1) 0 "   ".toList)
        return s) ∧
    (∀ s' rows, printAllStatus (holding s lines) = .ok (s', rows) → s'.allStatusItems = lines) ∧
    ∀ env t tr site m s' next, Session env t tr (.ask (.getch site s') next) →
      lastRefresh tr = some (m, printed lines) → s'.allStatusItems = lines := by
  obtain ⟨text, htext, hsplit⟩ := popBack_printed hne hline
  refine ⟨⟨_, rfl, ?_⟩, ?_, ?_⟩
  · change (lift (popBack (execResult (printed lines))) >>= _ : Prog State) = _
    rw [htext]
    change (showAllStatus (holding s (split text '\n')) >>= _ : Prog State) = _
    rw [hsplit]
  · intro s' rows hd
    obtain ⟨stored, rfl⟩ := printFrom_frame hd
    rfl
  · intro env t tr site m s' next h hlast
    obtain ⟨_, _, hlast', _, hall⟩ := (session_reads_kept h).output
    obtain ⟨_, rfl⟩ := Prod.mk.inj (Option.some.inj (hlast.symm.trans hlast'))
    rw [hall, linesOf_printed hne hline]

theorem lines_read_back_blank : ∃ next,
    refreshStatusItems (opening narrowTerminal) = .say (.mvwprintw 9 0 "...".toList)
      (.ask (.popen "svn st".toList (opening narrowTerminal)) next) ∧
    next (some "\n? a\n\n".toList) = do
      let s ← showAllStatus (holding (opening narrowTerminal) [[], "? a".toList, []])
      tell (.mvwprintw (s.maxY - 1) 0 "   ".toList)
      return s :=
  (@lines_read_back [[], "? a".toList, []] (by decide) (by decide) (opening narrowTerminal)).1

end ReadBack

end SvnCurses.RefreshText
