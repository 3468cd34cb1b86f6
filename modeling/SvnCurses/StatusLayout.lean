import SvnCurses.Operands
import SvnCurses.RefreshText

namespace SvnCurses.StatusLayout

open Cpp ProgramState Draw Interaction KeyEvent Round Rows Session Play Shell ShellLexes ShellReads
open Operands RefreshText

section Layout

/-- The characters of the names that are considered here. -/
def isNameChar (c : Char) : Bool := c.isAlphanum || c ∈ ['/', '.', '_', '-']

/-- Without an end of line or of a C string. -/
def Clean (t : Str) : Prop := '\n' ∉ t ∧ '\x00' ∉ t

instance (t : Str) : Decidable (Clean t) := inferInstanceAs (Decidable ('\n' ∉ t ∧ '\x00' ∉ t))

structure Name where
  text : Str
  ne : text ≠ []
  chars : ∀ c ∈ text, isNameChar c

structure Description where
  text : Str
  chars : ∀ c ∈ text, isNameChar c ∨ c = ' '

structure Columns where
  text : Str
  length : text.length = 7
  clean : Clean text

/-- The kinds of lines in what `svn st` prints: an entry, what may follow it,
and what stands before the entries of a changelist. -/
inductive Line
  | entry (columns : Columns) (path : Name)
  | movedTo (path : Name)
  | movedFrom (path : Name)
  | conflict (description : Description)
  | blank
  | changelist (name : Name)

def Line.text : Line → Str
  | .entry columns path => columns.text ++ ' ' :: path.text
  | .movedTo path => "        > moved to ".toList ++ path.text
  | .movedFrom path => "        > moved from ".toList ++ path.text
  | .conflict description => "      >   ".toList ++ description.text
  | .blank => []
  | .changelist name => "--- Changelist '".toList ++ name.text ++ "':".toList

/-- The paths that a line stands for. -/
def Line.paths : Line → List Str
  | .entry _ path => [path.text]
  | _ => []

/-- Entries, blank lines, and descriptions without a word. -/
def Line.Harmless : Line → Prop
  | .entry _ _ | .blank => True
  | .conflict description => ∀ c ∈ description.text, c = ' '
  | .movedTo _ | .movedFrom _ | .changelist _ => False

end Layout

section Characters

variable {c : Char}

theorem name_not_mem {special : List Char} (hspecial : ∀ d ∈ special, isNameChar d = false)
    (h : isNameChar c) : c ∉ special := by
  intro hmem
  rw [hspecial c hmem] at h
  cases h

theorem ordinary_of_name (h : isNameChar c) : ordinary c := by
  have hblank : c ∉ [' ', '\t'] := name_not_mem (by decide) h
  have hnone : isBlank c = false := by simpa [isBlank] using hblank
  have hoperator : startsOperator c = false := decide_eq_false (name_not_mem (by decide) h)
  have hquote : isQuote c = false := decide_eq_false (name_not_mem (by decide) h)
  have hactive : isActive c = false := decide_eq_false (name_not_mem (by decide) h)
  rw [ordinary, hnone, hoperator, hquote, hactive]
  rfl

theorem name_ne {d : Char} (hd : isNameChar d = false) (h : isNameChar c) : c ≠ d := by
  rintro rfl
  rw [hd] at h
  cases h

theorem plain_name (n : Name) : PlainWord n.text := by
  refine ⟨n.ne, ?_, fun c hc => ordinary_of_name (n.chars c hc)⟩
  intro hhash
  exact name_ne (by decide) (n.chars _ (List.mem_of_mem_head? hhash)) rfl

theorem clean_append {t u : Str} (ht : Clean t) (hu : Clean u) : Clean (t ++ u) :=
  ⟨fun h => (List.mem_append.mp h).elim ht.1 hu.1, fun h => (List.mem_append.mp h).elim ht.2 hu.2⟩

theorem name_clean (n : Name) : Clean n.text :=
  ⟨fun h => name_ne (by decide) (n.chars _ h) rfl, fun h => name_ne (by decide) (n.chars _ h) rfl⟩

theorem description_clean (d : Description) : Clean d.text := by
  have hchar : ∀ c, isNameChar c = false → c ≠ ' ' → c ∉ d.text := fun c hc hb h =>
    (d.chars c h).elim (fun hname => name_ne hc hname rfl) hb
  exact ⟨hchar _ (by decide) (by decide), hchar _ (by decide) (by decide)⟩

theorem line_clean (l : Line) : Clean l.text := by
  have hblank : Clean [' '] := by decide
  cases l with
  | entry columns path =>
    exact clean_append columns.clean (clean_append hblank (name_clean path))
  | movedTo path => exact clean_append (by decide) (name_clean path)
  | movedFrom path => exact clean_append (by decide) (name_clean path)
  | conflict description => exact clean_append (by decide) (description_clean description)
  | blank => exact ⟨List.not_mem_nil, List.not_mem_nil⟩
  | changelist name => exact clean_append (clean_append (by decide) (name_clean name)) (by decide)

end Characters

section Tokens

def plainToken (t : Str) : Token := .word (marked .plain t)

/-- The words of a text that has nothing but words and blanks. -/
def blankTokens (t : Str) : List Token :=
  (split t ' ').flatMap fun w => if w = [] then [] else [plainToken w]

/-- What the shell makes of a selected line. -/
def Line.tokens : Line → List Token
  | .entry _ path => [plainToken path.text]
  | .movedTo path => [.operator ['>'], plainToken "moved".toList, plainToken "to".toList,
      plainToken path.text]
  | .movedFrom path => [.operator ['>'], plainToken "moved".toList, plainToken "from".toList,
      plainToken path.text]
  | .conflict description => blankTokens description.text
  | .blank => []
  | .changelist name => [plainToken "ngelist".toList,
      .word (marked .quoted name.text ++ marked .plain [':'])]

theorem lexes_blankTokens (d : Description) : Lexes d.text (blankTokens d.text) := by
  have hpiece : ∀ w ∈ split d.text ' ', Lexes (id w) (if w = [] then [] else [plainToken w]) := by
    intro w hw
    by_cases hne : w = []
    · rw [if_pos hne, hne]
      exact lexes_nil
    · rw [if_neg hne]
      have hname : ∀ c ∈ w, isNameChar c := fun c hc =>
        ((d.chars c (split_mem hw hc).1).resolve_right (split_mem hw hc).2)
      exact lexes_plain (plain_name ⟨w, hne, hname⟩)
  have hline := lexes_intercalate hpiece
  rwa [List.map_id, ← join, join_split] at hline

theorem blankTokens_eq_nil {t : Str} : blankTokens t = [] ↔ ∀ c ∈ t, c = ' ' := by
  have hempty : ∀ w, (if w = [] then [] else [plainToken w]) = [] ↔ w = [] := by
    intro w
    split <;> simp_all
  simp only [blankTokens, List.flatMap_eq_nil_iff, hempty]
  constructor
  · intro h
    have hjoin : ∀ ws : List Str, (∀ w ∈ ws, w = []) → ∀ c ∈ join ws [' '], c = ' ' := by
      intro ws
      induction ws with
      | nil => simp [join]
      | cons w ws ih =>
        intro hws c hc
        obtain rfl := hws w (by simp)
        cases ws with
        | nil => simp [join] at hc
        | cons v ws =>
          rw [join, List.intercalate_cons_cons] at hc
          obtain hc | hc := List.mem_append.mp hc
          · simpa using hc
          · exact ih (fun u hu => hws u (by simp [hu])) c hc
    have hchars := hjoin _ h
    rwa [join_split] at hchars
  · intro h w hw
    cases w with
    | nil => rfl
    | cons c w =>
      have hc := split_mem hw (List.mem_cons_self (a := c))
      exact absurd (h c hc.1) hc.2

variable {x : Int}

theorem lexes_drop {f rest : Str} {ts : List Token} (hf : f.length = 7)
    (h : Lexes rest ts) : Lexes ((padded x (f ++ rest)).drop 7) ts := by
  rw [padded, List.append_assoc, List.drop_left' hf]
  exact h.pad _

/-- What is left of a `> moved` line begins with a redirection. -/
theorem lexes_moved {word : Str} (hword : PlainWord word) (path : Name) :
    Lexes ((padded x ("        > moved ".toList ++ (word ++ ' ' :: path.text))).drop 7)
      [.operator ['>'], plainToken "moved".toList, plainToken word, plainToken path.text] := by
  have hsplit : "        > moved ".toList = "       ".toList ++ (List.replicate 1 ' ' ++
      (['>'] ++ ' ' :: ("moved".toList ++ [' ']))) := by decide
  have hwords := (lexes_plain (t := "moved".toList) (by decide)).seq
    ((lexes_plain hword).seq (lexes_plain (plain_name path)))
  have hdrop := lexes_drop (x := x) (f := "       ".toList) (by decide)
    ((lexes_output.seq hwords).indent 1)
  rw [hsplit]
  simp only [List.append_assoc, List.cons_append, List.nil_append] at hdrop ⊢
  exact hdrop

theorem lexes_line (l : Line) : Lexes ((padded x l.text).drop 7) l.tokens := by
  cases l with
  | entry columns path =>
    have hpath : Lexes (List.replicate 1 ' ' ++ path.text) [plainToken path.text] :=
      (lexes_plain (plain_name path)).indent 1
    exact lexes_drop columns.length hpath
  | movedTo path =>
    have hsplit : "        > moved to ".toList =
        "        > moved ".toList ++ ("to".toList ++ [' ']) := by decide
    have hmoved := @lexes_moved x "to".toList (by decide) path
    change Lexes ((padded x ("        > moved to ".toList ++ path.text)).drop 7)
      [.operator ['>'], plainToken "moved".toList, plainToken "to".toList, plainToken path.text]
    rw [hsplit]
    simpa only [List.append_assoc, List.cons_append, List.nil_append] using hmoved
  | movedFrom path =>
    have hsplit : "        > moved from ".toList =
        "        > moved ".toList ++ ("from".toList ++ [' ']) := by decide
    have hmoved := @lexes_moved x "from".toList (by decide) path
    change Lexes ((padded x ("        > moved from ".toList ++ path.text)).drop 7)
      [.operator ['>'], plainToken "moved".toList, plainToken "from".toList, plainToken path.text]
    rw [hsplit]
    simpa only [List.append_assoc, List.cons_append, List.nil_append] using hmoved
  | conflict description =>
    have hsplit : "      >   ".toList = "      >".toList ++ List.replicate 3 ' ' := by decide
    have hdrop := lexes_drop (x := x) (f := "      >".toList) (by decide)
      ((lexes_blankTokens description).indent 3)
    change Lexes ((padded x ("      >   ".toList ++ description.text)).drop 7) _
    rw [hsplit, List.append_assoc]
    exact hdrop
  | blank =>
    have hpad : ∀ k, Lexes (List.replicate k ' ') [] := fun k => by simpa using lexes_nil.pad k
    change Lexes ((padded x []).drop 7) []
    rw [padded, List.nil_append, List.drop_replicate]
    exact hpad _
  | changelist name =>
    have hsplit : "--- Changelist '".toList =
        "--- Cha".toList ++ ("ngelist".toList ++ [' ', '\'']) := by decide
    have hclose : "':".toList = ['\'', ':'] := by decide
    have hquote : '\'' ∉ name.text := fun h => name_ne (by decide) (name.chars _ h) rfl
    have hwords := (lexes_plain (t := "ngelist".toList) (by decide)).seq
      (lexes_quoted hquote (u := [':']) (by decide))
    have hdrop := lexes_drop (x := x) (f := "--- Cha".toList) (by decide) hwords
    change Lexes ((padded x ("--- Changelist '".toList ++ name.text ++ "':".toList)).drop 7)
      [plainToken "ngelist".toList, .word (marked .quoted name.text ++ marked .plain [':'])]
    rw [hsplit, hclose]
    simp only [List.append_assoc, List.cons_append, List.nil_append] at hdrop ⊢
    exact hdrop

theorem tokens_harmless {l : Line} (h : l.Harmless) : l.tokens = l.paths.map plainToken := by
  cases l with
  | entry | blank => rfl
  | conflict => exact blankTokens_eq_nil.mpr h
  | movedTo | movedFrom | changelist => exact h.elim

theorem tokens_harmful {l : Line} (h : ¬ l.Harmless) : l.paths.length < l.tokens.length := by
  cases l with
  | entry | blank => exact absurd trivial h
  | conflict => exact List.length_pos_iff.mpr (mt blankTokens_eq_nil.mp h)
  | movedTo | movedFrom => exact Nat.zero_lt_succ 3
  | changelist => exact Nat.zero_lt_succ 1

theorem paths_le_tokens (l : Line) : l.paths.length ≤ l.tokens.length := by
  by_cases h : l.Harmless
  · rw [tokens_harmless h, List.length_map]
  · exact (tokens_harmful h).le

/-- There are no more tokens than paths only when no line adds one. -/
theorem harmless_of_length {ls : List Line}
    (h : (ls.flatMap Line.tokens).length ≤ (ls.flatMap Line.paths).length) :
    ∀ l ∈ ls, l.Harmless := by
  have hle : ∀ ls : List Line,
      (ls.flatMap Line.paths).length ≤ (ls.flatMap Line.tokens).length := by
    intro ls
    induction ls with
    | nil => exact Nat.le_refl 0
    | cons l ls ih =>
      have hl := paths_le_tokens l
      simp only [List.flatMap_cons, List.length_append]
      omega
  induction ls with
  | nil => simp
  | cons l ls ih =>
    have hl := paths_le_tokens l
    have hls := hle ls
    simp only [List.flatMap_cons, List.length_append] at h
    have hharmless : l.Harmless := by
      by_contra hharm
      have hlt := tokens_harmful hharm
      omega
    intro k hk
    obtain rfl | hk := List.mem_cons.mp hk
    · exact hharmless
    · exact ih (by omega) k hk

end Tokens

section Selection

variable {env : ∀ q, Answer q → Prop} {t : Terminal} {tr : History} {s m : State}
  {lines selected : List Line} {verb : List Str} {cmd : Str}

theorem reads_lines_iff (hverb : ∀ w ∈ verb, PlainWord w)
    (hsel : s.selectedItems = selected.map (fun l => padded s.maxX l.text)) :
    Reads (commandLine verb s) (verb ++ selected.flatMap Line.paths) ↔
      ∀ l ∈ selected, l.Harmless := by
  have hrows : joinedStr s = [' '].intercalate
      (selected.map fun l => (padded s.maxX l.text).drop 7) := by
    rw [joinedStr, join, hsel, List.map_map]
    rfl
  have hlex : Lexes (commandLine verb s) (verb.map plainToken ++ selected.flatMap Line.tokens) := by
    rw [commandLine, hrows]
    exact lexes_verb hverb (lexes_intercalate fun l _ => lexes_line l)
  constructor
  · intro h
    have hlen := length_of_reads h hlex.2
    simp only [List.length_append, List.length_map] at hlen
    exact harmless_of_length (by omega)
  · intro h
    have htokens : selected.flatMap Line.tokens = (selected.flatMap Line.paths).map plainToken := by
      rw [List.map_flatMap]
      exact List.flatMap_congr fun l hl => tokens_harmless (h l hl)
    rw [htokens, ← List.map_append] at hlex
    exact reads_of_lexes hlex

/-- The selected rows show these lines of the report, in this order. -/
def Chosen (lines : List Line) (s : State) (selected : List Line) : Prop :=
  (∀ l ∈ selected, l ∈ lines) ∧ s.selectedItems = selected.map (fun l => padded s.maxX l.text)

theorem selected_line (hk : Kept t tr s)
    (hlast : lastRefresh tr = some (m, printed (lines.map Line.text))) :
    ∀ item ∈ s.selectedItems, ∃ l ∈ lines, item = padded s.maxX l.text := by
  intro item hitem
  obtain ⟨_, _, hlast', hne, hall⟩ := hk.output
  obtain ⟨_, rfl⟩ := Prod.mk.inj (Option.some.inj (hlast.symm.trans hlast'))
  have hlines : lines.map Line.text ≠ [] := by
    intro hnil
    rw [hnil] at hne
    exact hne rfl
  have hclean : ∀ line ∈ lines.map Line.text, Clean line := by
    intro line hline
    obtain ⟨l, _, rfl⟩ := List.mem_map.mp hline
    exact line_clean l
  rw [linesOf_printed hlines hclean] at hall
  obtain ⟨hmem, hpad⟩ := hk.selectable item hitem
  obtain ⟨i, hi, rfl⟩ := List.getElem_of_mem hmem
  have hlen := List.Forall₂.length_eq hk.lines
  have hrow := List.Forall₂.get hk.lines (i := i) (by omega) hi
  have hline : s.allStatusItems[i] ∈ lines.map Line.text := hall ▸ List.getElem_mem _
  obtain ⟨l, hl, htext⟩ := List.mem_map.mp hline
  refine ⟨l, hl, ?_⟩
  simp only [List.get_eq_getElem] at hrow
  rw [htext]
  obtain hrow | hrow := hrow
  · rw [← hrow, hpad]
  · exact hrow

theorem exists_chosen
    (hitems : ∀ item ∈ s.selectedItems, ∃ l ∈ lines, item = padded s.maxX l.text) :
    ∃ selected, Chosen lines s selected := by
  simp only [Chosen]
  generalize s.selectedItems = items at hitems ⊢
  induction items with
  | nil => exact ⟨[], by simp, rfl⟩
  | cons item items ih =>
    obtain ⟨l, hl, rfl⟩ := hitems item (by simp)
    obtain ⟨selected, hmem, hsel⟩ := ih fun x hx => hitems x (by simp [hx])
    exact ⟨l :: selected, by simpa using ⟨hl, hmem⟩, by rw [hsel]; rfl⟩

/-- Which lines may be selected for the operands of a command to be the paths of
the selected entries, and nothing else. -/
theorem only_entries_iff {next : Option Str → Prog State}
    (h : Session env t tr (.ask (.popen cmd s) next)) (hst : cmd ≠ statusCommand)
    (hup : cmd ≠ updateCommand)
    (hlast : lastRefresh tr = some (m, printed (lines.map Line.text))) :
    (∃ selected, Chosen lines s selected) ∧ ∀ selected, Chosen lines s selected →
      ∃ verb, (verb = addVerb ∨ ∃ k, verb = removeVerb k) ∧ cmd = commandLine verb s ∧
        (Reads cmd (verb ++ selected.flatMap Line.paths) ↔ ∀ l ∈ selected, l.Harmless) := by
  obtain ⟨⟨past, r, hp, rfl, hr⟩, hcmd⟩ := session_command h hst hup
  refine ⟨exists_chosen (selected_line (kept_opened (session_kept hp) hr) hlast), ?_⟩
  rintro selected ⟨_, hsel⟩
  obtain rfl | ⟨k, rfl⟩ := hcmd
  · refine ⟨addVerb, .inl rfl, addCommand_line s, ?_⟩
    rw [addCommand_line]
    exact reads_lines_iff plain_addVerb hsel
  · refine ⟨removeVerb k, .inr ⟨k, rfl⟩, removeCommand_line s k, ?_⟩
    rw [removeCommand_line]
    exact reads_lines_iff (plain_removeVerb k) hsel

def addedCopy : List Line :=
  [.entry ⟨"A  +   ".toList, by decide, by decide⟩ ⟨"b".toList, by decide, by decide⟩,
    .movedFrom ⟨"a".toList, by decide, by decide⟩]

theorem only_entries_entry : ∃ tr s next verb,
    Session (fun _ _ => True) wideTerminal tr
        (.ask (.popen "svn add  b               ".toList s) next) ∧
      "svn add  b               ".toList = commandLine verb s ∧
      Reads "svn add  b               ".toList (verb ++ ["b".toList]) := by
  obtain ⟨tr, s, next, h, hprinted, hsel⟩ := play_runs (fun _ _ => True) wideTerminal 2
    [.inr (printed (addedCopy.map Line.text)), .inl (key ' '), .inl (key 'a'), .inl (key 'y')]
    "svn add  b               ".toList
    (fun tr s => (lastRefresh tr).map Prod.snd = some (printed (addedCopy.map Line.text)) ∧
      s.selectedItems = (addedCopy.take 1).map (fun l => padded s.maxX l.text))
    (fun _ _ => trivial) (by decide +kernel)
  obtain ⟨⟨m, out⟩, hlast, rfl⟩ := Option.map_eq_some_iff.mp hprinted
  have hiff := (only_entries_iff h (by decide) (by decide) hlast).2 (addedCopy.take 1)
    ⟨fun l hl => List.mem_of_mem_take hl, hsel⟩
  obtain ⟨verb, _, hcmd, hreads⟩ := hiff
  refine ⟨tr, s, next, verb, h, hcmd, hreads.mpr ?_⟩
  rintro l hl
  obtain rfl := List.mem_singleton.mp hl
  trivial

/-- What a copied file was moved from is no operand, but it becomes two, and
writes to a file. -/
theorem operands_redirected : ∃ tr m s next,
    Session (fun _ _ => True) wideTerminal tr
        (.ask (.popen "svn add  > moved from a  ".toList s) next) ∧
      lastRefresh tr = some (m, printed (addedCopy.map Line.text)) ∧
      Chosen addedCopy s (addedCopy.drop 1) ∧
      ¬ Reads "svn add  > moved from a  ".toList
        (addVerb ++ (addedCopy.drop 1).flatMap Line.paths) := by
  obtain ⟨tr, s, next, h, hprinted, hsel⟩ := play_runs (fun _ _ => True) wideTerminal 3
    [.inr (printed (addedCopy.map Line.text)), .inl (key 'j'), .inl (key ' '), .inl (key 'a'),
      .inl (key 'y')]
    "svn add  > moved from a  ".toList
    (fun tr s => (lastRefresh tr).map Prod.snd = some (printed (addedCopy.map Line.text)) ∧
      s.selectedItems = (addedCopy.drop 1).map (fun l => padded s.maxX l.text))
    (fun _ _ => trivial) (by decide +kernel)
  obtain ⟨⟨m, out⟩, hlast, rfl⟩ := Option.map_eq_some_iff.mp hprinted
  exact ⟨tr, m, s, next, h, hlast, ⟨fun l hl => List.mem_of_mem_drop hl, hsel⟩, by decide +kernel⟩

end Selection

end SvnCurses.StatusLayout
