import SvnCurses.CursorBounds
import SvnCurses.Drawing
import SvnCurses.Shown

namespace SvnCurses.Ending

open Cpp ProgramState Draw Interaction KeyEvent Round Rows Cursor Session Viewport Play RefreshText
open Worklist Console Painted Watching Shown Drawing

section Redraw

variable {s : State} {i : Int} {fault : Fault} {row item : Str}

/-- Why a redraw does not come to its end, when all lengths are in the range of
an `int`. -/
inductive Redraw (s : State) (i : Int) : Fault → Prop
  | wide {k : Nat} {row : Str} (hk : i ≤ k) (hrow : s.statusItems[k]? = some row)
      (hw : s.maxX < row.length) : Redraw s i (.thrown .lengthError)
  | slim (hx : s.maxX < 8) (hs : s.selectedItems ≠ []) : Redraw s i (.thrown .outOfRange)
  | many (hn : intMax < s.statusItems.length) : Redraw s i (.undefined .signedOverflow)

theorem append_wide (hx : 0 ≤ s.maxX) (hmax : s.maxX ≤ intMax) (hrow : row.length < 2 ^ 31)
    (h : append row (padSize s.maxX row) ' ' = .error fault) :
    fault = .thrown .lengthError ∧ s.maxX < row.length := by
  have hint := padSize_int s.maxX row
  have hfits := append_iff (s := row) (c := ' ') (by unfold maxSize; omega) hint.1 hint.2
  constructor
  · unfold append at h
    split at h
    · cases h
      rfl
    · cases h
  · by_contra hle
    have hsize := padSize_of_le hmax (show (row.length : Int) ≤ s.maxX by omega)
    simp only [intMax] at hmax
    obtain ⟨item, hitem⟩ := hfits.mpr ⟨by omega, by unfold maxSize; omega⟩
    rw [hitem] at h
    cases h

theorem shifted_slim (hlen : (item.length : Int) = s.maxX) (hmax : s.maxX ≤ intMax)
    (h : shifted item = .error fault) : fault = .thrown .outOfRange ∧ s.maxX < 8 := by
  simp only [intMax] at hmax
  obtain h | ⟨_, _, h⟩ := bind_error.mp h
  · unfold insertAt at h
    split_ifs at h with hpos hroom
    · cases h
      exact ⟨rfl, by omega⟩
    · unfold maxSize at hroom
      rw [List.length_singleton] at hroom
      omega
  · cases h

theorem drawItem_slim {b u : Bool} (hx : 1 ≤ s.maxX) (hlen : (item.length : Int) = s.maxX)
    (hmax : s.maxX ≤ intMax) (h : drawItem b u item = .error fault) :
    b = true ∧ fault = .thrown .outOfRange ∧ s.maxX < 8 := by
  have hne : item ≠ [] := by
    rintro rfl
    rw [List.length_nil] at hlen
    omega
  obtain ⟨c, t, rfl⟩ := List.exists_cons_of_ne_nil hne
  cases b <;> cases u <;> simp only [drawItem, Bool.false_and, Bool.true_and, Bool.not_true,
    Bool.not_false, Bool.false_eq_true, ↓reduceIte, bind_error, front, reduceCtorEq, and_false,
    exists_false, or_false] at h
  · exact ⟨rfl, shifted_slim hlen hmax h⟩
  · exact ⟨rfl, shifted_slim hlen hmax h⟩

theorem padded_short (hx : 1 ≤ s.maxX) (hmax : s.maxX ≤ intMax) (hpos : 0 ≤ padSize s.maxX row)
    (hrow : row.length < 2 ^ 31) : (row.length : Int) ≤ s.maxX ∧
      (padded s.maxX row).length < 2 ^ 31 := by
  have hnarrow := (padSize_nonneg_iff _ _).mp hpos
  have hfit : (row.length : Int) ≤ s.maxX := by
    simp only [intMax] at hmax
    omega
  have hlen := padded_length hmax hfit
  simp only [intMax] at hmax
  exact ⟨hfit, by omega⟩

theorem row_redraw (hx : 1 ≤ s.maxX) (hmax : s.maxX ≤ intMax) (hi : 0 ≤ i) (hi' : i ≤ intMax)
    (hlt : toSize i < s.statusItems.length) (hrows : ∀ row ∈ s.statusItems, row.length < 2 ^ 31)
    (h : printStatusWithColor s i = .error fault) : Redraw s i fault := by
  have hget : s.statusItems[toSize i]? = some s.statusItems[toSize i] :=
    List.getElem?_eq_getElem hlt
  have hsize := toSize_index hi hi'
  have hlen := hrows _ (List.getElem_mem hlt)
  obtain h | ⟨row, hrow, h⟩ := bind_error.mp h
  · rw [index_ok.mpr hget] at h
    cases h
  obtain rfl := Option.some.inj (hget.symm.trans (index_ok.mp hrow))
  obtain h | ⟨item, hitem, h⟩ := bind_error.mp h
  · obtain ⟨rfl, hw⟩ := append_wide (by omega) hmax hlen h
    exact .wide (k := toSize i) (by omega) hget hw
  obtain h | ⟨_, _, h⟩ := bind_error.mp h
  · obtain ⟨hpos, rfl⟩ := append_padded hitem
    have hfit := (padded_short hx hmax hpos hlen).1
    obtain ⟨hsel, rfl, hslim⟩ := drawItem_slim hx (padded_length hmax hfit) hmax h
    exact .slim hslim (List.ne_nil_of_mem (of_decide_eq_true hsel))
  · cases h

/-- What stops the loop further on was there before. -/
theorem Redraw.back {item : Str} (hi : 0 ≤ i)
    (h : Redraw { s with statusItems := s.statusItems.set i.toNat item } (i + 1) fault) :
    Redraw s i fault := by
  cases h with
  | @wide k row hk hrow hw =>
    have hne : i.toNat ≠ k := by omega
    rw [List.getElem?_set_ne hne] at hrow
    exact .wide (by omega) hrow hw
  | slim hx hs => exact .slim hx hs
  | many hn =>
    rw [List.length_set] at hn
    exact .many hn

theorem printFrom_redraw {fuel : Nat} (hx : 1 ≤ s.maxX) (hmax : s.maxX ≤ intMax) (hi : 0 ≤ i)
    (hi' : i ≤ intMax) (hrows : ∀ row ∈ s.statusItems, row.length < 2 ^ 31)
    (h : printFrom fuel s i = .error fault) : Redraw s i fault := by
  induction fuel generalizing s i with
  | zero => cases h
  | succ fuel ih =>
    simp only [printFrom] at h
    split at h
    · next hlt =>
      have hsize := toSize_index hi hi'
      obtain h | ⟨⟨s', d⟩, hrow, h⟩ := bind_error.mp h
      · exact row_redraw hx hmax hi hi' hlt hrows h
      obtain h | ⟨next, hnext, h⟩ := bind_error.mp h
      · have hfault : fault = .undefined .signedOverflow ∧ intMax < i + 1 := by
          unfold checked at h
          split at h
          · cases h
          · next hout =>
            cases h
            refine ⟨rfl, ?_⟩
            simp only [intMin] at hout
            omega
        rw [hfault.1]
        exact .many (by omega)
      obtain ⟨rfl, _, hnext⟩ := checked_ok.mp hnext
      obtain h | ⟨_, _, h⟩ := bind_error.mp h
      · have hk : i.toNat < s.statusItems.length := hsize ▸ hlt
        obtain ⟨item, drawn, hitem, _, he⟩ := (printStatusWithColor_ok hi hi' hk).mp hrow
        obtain ⟨hpos, rfl⟩ := append_padded hitem
        obtain rfl := (Prod.mk.inj he).1
        refine Redraw.back hi (ih hx hmax (by omega) hnext ?_ h)
        intro r hr
        obtain hr | rfl := List.mem_or_eq_of_mem_set hr
        · exact hrows r hr
        · exact (padded_short hx hmax hpos (hrows _ (List.getElem_mem hk))).2
      · cases h
    · cases h

end Redraw

section Stops

/-- At each refresh the lines and their lengths can be counted with an `int`. -/
abbrev IntSized : ∀ q, Answer q → Prop :=
  StatusPrints fun _ out =>
    ((linesOf out).length : Int) ≤ intMax ∧ ∀ line ∈ linesOf out, line.length < 2 ^ 31

/-- Everything that ends a run before its end. -/
inductive Explained (t : Terminal) : History → Stop → Prop
  | pad (h : ¬ Usable t) : Explained t [] .noPad
  | popen {tr cmd s} : Explained t (tr ++ [⟨.popen cmd s, none⟩])
      (.fault (.thrown (.runtimeError "popen() failed!".toList)))
  | empty {tr s out} (h : ¬ SaysSomething out) :
      Explained t (tr ++ [⟨.popen statusCommand s, some out⟩]) popBackFault
  | space {tr s} (h : (boardOf t tr).lines.length ≤ (boardOf t tr).window.cursor) :
      Explained t (tr ++ [⟨.getch .topLevel s, key ' '⟩]) (.fault (.undefined .vectorIndex))
  | wide {tr line} (h : line ∈ (boardOf t tr).lines.drop (boardOf t tr).window.top)
      (hw : t.maxX < line.length) : Explained t tr (.fault (.thrown .lengthError))
  | slim {tr} (hx : t.maxX < 8) (hs : (boardOf t tr).selection.items ≠ []) :
      Explained t tr (.fault (.thrown .outOfRange))

variable {env : ∀ q, Answer q → Prop} {t : Terminal} {tr : History} {p : Prog State} {f : Stop}
  {s m : State}

theorem session_stops (h : Session env t tr (.stop f)) : Diagnosed t tr f := by
  obtain ⟨scr, hd⟩ := session_displays h
  exact displays_shown hd

/-- The lines of the board are those of an output. -/
theorem board_lines (t : Terminal) (tr : History) : (boardOf t tr).lines = [] ∨
    ∃ m out, ⟨.popen statusCommand m, some out⟩ ∈ tr ∧ (boardOf t tr).lines = linesOf out := by
  induction tr using List.reverseRecOn with
  | nil => exact .inl rfl
  | append_singleton tr e ih =>
    have hsame : ((boardOf t tr).see t e).lines = (boardOf t tr).lines →
        (boardOf t (tr ++ [e])).lines = [] ∨ ∃ m out,
          ⟨.popen statusCommand m, some out⟩ ∈ tr ++ [e] ∧
            (boardOf t (tr ++ [e])).lines = linesOf out := by
      intro he
      rw [boardOf_concat, he]
      obtain hnil | ⟨m, out, hmem, hlines⟩ := ih
      · exact .inl hnil
      · exact .inr ⟨m, out, List.mem_append_left _ hmem, hlines⟩
    obtain ⟨q, a⟩ := e
    cases q with
    | getch site s => exact hsame (see_getch_lines site s a)
    | popen cmd m =>
      cases a with
      | none => exact hsame rfl
      | some out =>
        by_cases hcmd : cmd = statusCommand
        · subst hcmd
          refine .inr ⟨m, out, by simp, ?_⟩
          rw [boardOf_concat]
          rfl
        · apply hsame
          rw [see_command hcmd]

/-- A row that is wider than the screen was stored for such a line. -/
theorem wide_line {row line : Str} (hmax : m.maxX ≤ intMax)
    (h : row = line ∨ row = padded m.maxX line) (hw : m.maxX < row.length) :
    m.maxX < line.length := by
  obtain rfl | rfl := h
  · exact hw
  · by_contra hfit
    have hlen := padded_length hmax (show (line.length : Int) ≤ m.maxX by omega)
    omega

theorem stored_short {row line : Str} (hx : 1 ≤ m.maxX) (hmax : m.maxX ≤ intMax)
    (h : row = line ∨ row = padded m.maxX line) (hline : line.length < 2 ^ 31) :
    row.length < 2 ^ 31 := by
  obtain rfl | rfl := h
  · exact hline
  · by_cases hpos : 0 ≤ padSize m.maxX line
    · exact (padded_short hx hmax hpos hline).2
    · rwa [padded_of_neg (by omega)]

theorem redraw_explained {fault : Fault} (hall : ∀ e ∈ tr, IntSized e.1 e.2) (ht : Usable t)
    (hb : Represents t (boardOf t tr) m) (hl : Lines m) (hmax : m.padPos ≤ intMax)
    (hd : printAllStatus m = .error fault) : Explained t tr (.fault fault) := by
  rw [Represents] at hb
  have hlines : m.allStatusItems = (boardOf t tr).lines := by rw [hb]; rfl
  have hsel : m.selectedItems = (boardOf t tr).selection.items := by rw [hb]; rfl
  have hX : m.maxX = t.maxX := by rw [hb]; rfl
  have htop : m.padPos = (boardOf t tr).window.top := by rw [hb]; rfl
  have hX1 : 1 ≤ m.maxX := hX ▸ ht.2
  have hXmax : m.maxX ≤ intMax := hX ▸ t.maxX_int.2
  have hsized : ((boardOf t tr).lines.length : Int) ≤ intMax ∧
      ∀ line ∈ (boardOf t tr).lines, line.length < 2 ^ 31 := by
    obtain hnil | ⟨m', out, hmem, hout⟩ := board_lines t tr
    · rw [hnil]
      exact ⟨by decide, fun line hline => absurd hline List.not_mem_nil⟩
    · rw [hout]
      exact hall _ hmem rfl
  have hrow : ∀ (k : Nat) (row : Str), m.statusItems[k]? = some row →
      ∃ line, (boardOf t tr).lines[k]? = some line ∧ (row = line ∨ row = padded m.maxX line) := by
    intro k row hk
    obtain ⟨hlt, rfl⟩ := List.getElem?_eq_some_iff.mp hk
    have hlen := List.Forall₂.length_eq hl
    have hlt' : k < m.allStatusItems.length := by omega
    refine ⟨m.allStatusItems[k], ?_, List.Forall₂.get hl hlt' hlt⟩
    rw [← hlines, List.getElem?_eq_getElem hlt']
  have hshort : ∀ row ∈ m.statusItems, row.length < 2 ^ 31 := by
    intro row hmem
    obtain ⟨k, hk, rfl⟩ := List.getElem_of_mem hmem
    obtain ⟨line, hline, hstored⟩ := hrow k _ (List.getElem?_eq_getElem hk)
    exact stored_short hX1 hXmax hstored (hsized.2 line (List.mem_of_getElem? hline))
  cases printFrom_redraw hX1 hXmax (by omega) hmax hshort hd with
  | @wide k row hk hget hw =>
    obtain ⟨line, hline, hstored⟩ := hrow k row hget
    have hbelow : line ∈ (boardOf t tr).lines.drop (boardOf t tr).window.top := by
      apply List.mem_of_getElem? (i := k - (boardOf t tr).window.top)
      rw [List.getElem?_drop, ← hline]
      congr 1
      omega
    exact .wide hbelow (hX ▸ wide_line hXmax hstored hw)
  | slim hx hs => exact .slim (hX ▸ hx) (hsel ▸ hs)
  | many hn =>
    have hlen := List.Forall₂.length_eq hl
    rw [hlines] at hlen
    omega

theorem stops_cause (h : Session IntSized t tr (.stop f)) : Explained t tr f := by
  have hall := reaches_allowed h
  cases session_stops h with
  | pad ht => exact .pad ht
  | popen => exact .popen
  | empty hnone => exact .empty hnone
  | space hpast => exact .space hpast
  | redraw ht hb hl hmax hd => exact redraw_explained hall ht hb hl hmax hd

/-- A run ends early only for lack of a pad, of a process or of output from
`svn st`, at a space below the list, for a line that is wider than the screen, or
for a selection on a screen of less than eight columns. No arithmetic of the
program overflows. -/
theorem stops_explained (h : Session IntSized t tr p) : ∀ f, p = .stop f → Explained t tr f := by
  rintro f rfl
  exact stops_cause h

theorem stops_explained_space : ∃ tr,
    Session IntSized narrowTerminal tr (.stop (.fault (.undefined .vectorIndex))) ∧
      Explained narrowTerminal tr (.fault (.undefined .vectorIndex)) := by
  have h := play_reaches IntSized narrowTerminal 4
    [.inr "? a\n? b\n".toList, .inl (key 'j'), .inl (key 'a'), .inl (key 'n'),
      .inr "? a\n".toList, .inl (key ' ')] (by decide +kernel)
  exact ⟨_, h, stops_explained h _ rfl⟩

end Stops

section NeverStops

/-- Commands can be run, and `svn st` prints lines of the width of the screen at
most, one at least for each row down to the cursor. -/
def Behaves (maxX : Int) : ∀ q, Answer q → Prop
  | .popen _ _, none => False
  | .popen cmd m, some out => cmd = statusCommand →
      SaysSomething out ∧ (∀ line ∈ linesOf out, (line.length : Int) ≤ maxX) ∧
        ((linesOf out).length : Int) ≤ intMax ∧ m.cursorPosition < (linesOf out).length
  | .getch _ _, _ => True

instance (maxX : Int) : ∀ q a, Decidable (Behaves maxX q a)
  | .popen _ _, none => .isFalse id
  | .popen cmd m, some out => inferInstanceAs (Decidable (cmd = statusCommand →
      SaysSomething out ∧ (∀ line ∈ linesOf out, (line.length : Int) ≤ maxX) ∧
        ((linesOf out).length : Int) ≤ intMax ∧ m.cursorPosition < (linesOf out).length))
  | .getch _ _, _ => .isTrue trivial

variable {t : Terminal} {tr : History} {p : Prog State} {f : Stop} {s m : State}

theorem behaves_sized (hall : ∀ e ∈ tr, Behaves t.maxX e.1 e.2) :
    ∀ e ∈ tr, IntSized e.1 e.2 := by
  rintro ⟨q, a⟩ he
  have h := hall _ he
  cases q with
  | getch site s => trivial
  | popen cmd m =>
    cases a with
    | none => trivial
    | some out =>
      intro hcmd
      obtain ⟨_, hfit, hcount, _⟩ := h hcmd
      refine ⟨hcount, fun line hline => ?_⟩
      have hline := hfit line hline
      have hX := t.maxX_int.2
      simp only [intMax] at hX
      omega

theorem behaves_enough (hall : ∀ e ∈ tr, Behaves t.maxX e.1 e.2) :
    ∀ e ∈ tr, CursorBounds.PrintsEnough e.1 e.2 := by
  rintro ⟨q, a⟩ he
  have h := hall _ he
  cases q with
  | getch site s => trivial
  | popen cmd m =>
    cases a with
    | none => trivial
    | some out =>
      intro hcmd
      obtain ⟨_, _, _, hcursor⟩ := h hcmd
      rw [linesOf, split_length] at hcursor
      omega

theorem behaves_fits (hall : ∀ e ∈ tr, Behaves t.maxX e.1 e.2) :
    ∀ line ∈ (boardOf t tr).lines, (line.length : Int) ≤ t.maxX := by
  obtain hnil | ⟨m, out, hmem, hlines⟩ := board_lines t tr
  · rw [hnil]
    exact nofun
  · rw [hlines]
    exact (hall _ hmem rfl).2.1

theorem behaves_inList (h : Session (Behaves t.maxX) t tr (.done s)) :
    (boardOf t tr).window.cursor < (boardOf t tr).lines.length := by
  have hin := CursorBounds.session_inList (reaches_restrict h (behaves_enough (reaches_allowed h)))
  obtain ⟨scr, hd⟩ := session_displays h
  have hb := (displays_shown hd).holds
  obtain ⟨hv, hlen, _⟩ := represents_shows hb.board hb.kept
  have hlist := (CursorBounds.inList_iff hv).mp hin
  simp only [Window.InList] at hlist
  omega

theorem behaves_goes_on (ht : Usable t) (hx : 8 ≤ t.maxX)
    (h : Session (Behaves t.maxX) t tr (.stop f)) : False := by
  have hall := reaches_allowed h
  cases stops_cause (reaches_restrict h (behaves_sized hall)) with
  | pad hpad => exact hpad ht
  | popen => exact hall _ (List.mem_append_right _ (List.mem_singleton.mpr rfl))
  | @empty tr s out hnone =>
    exact hnone (hall ⟨.popen statusCommand s, some out⟩ (by simp) rfl).1
  | @space tr s hpast =>
    obtain ⟨_, next, hr⟩ := reaches_exchange h rfl
    obtain ⟨hdone, _⟩ := session_top hr
    have hin := behaves_inList hdone
    omega
  | wide hline hw =>
    have hfit := behaves_fits hall _ (List.mem_of_mem_drop hline)
    omega
  | slim hslim => omega

/-- While the commands behave, on a screen of at least eight columns, no run ends
before a key ends it. -/
theorem never_stops (ht : Usable t) (hx : 8 ≤ t.maxX) (h : Session (Behaves t.maxX) t tr p) :
    ∀ f, p ≠ .stop f := by
  rintro f rfl
  exact behaves_goes_on ht hx h

theorem never_stops_added : ∃ tr s next,
    Session (Behaves wideTerminal.maxX) wideTerminal tr (.ask (.getch .topLevel s) next) ∧
      keysOf tr = [key ' ', key 'a', key 'y', key 'k'] ∧ ∀ f, next (key ' ') ≠ .stop f := by
  obtain ⟨tr, s, next, h, hkeys⟩ := play_reads (Behaves wideTerminal.maxX) wideTerminal 4
    [.inr "?       a\n?       b\n".toList, .inl (key ' '), .inl (key 'a'), .inl (key 'y'), .inr [],
      .inr "A       a\n?       b\n".toList, .inl (key 'k')]
    (fun tr _ => keysOf tr = [key ' ', key 'a', key 'y', key 'k']) (by decide +kernel)
    (by decide +kernel)
  exact ⟨tr, s, next, h, hkeys, never_stops ⟨by decide, by decide⟩ (by decide)
    (.answer (a := key ' ') h trivial)⟩

end NeverStops

end SvnCurses.Ending
