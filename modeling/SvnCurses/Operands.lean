import SvnCurses.Round
import SvnCurses.Rows
import SvnCurses.ShellReads

namespace SvnCurses.Operands

open Cpp ProgramState Draw Interaction KeyEvent Round Rows Shell ShellLexes ShellReads

section CommandLine

/-- The words that a command begins with, and the selected rows after them. -/
def commandLine (verb : List Str) (s : State) : Str := verb.flatMap (· ++ [' ']) ++ joinedStr s

def addVerb : List Str := ["svn".toList, "add".toList]

def removeVerb (answer : Int) : List Str :=
  ["svn".toList, "rm".toList] ++ if answer = key 'y' then ["--keep-local".toList] else []

theorem addVerb_line : addVerb.flatMap (· ++ [' ']) = "svn add ".toList := by decide

theorem removeVerb_line (answer : Int) : (removeVerb answer).flatMap (· ++ [' ']) =
    "svn rm ".toList ++ if answer = key 'y' then "--keep-local ".toList else [] := by
  rw [removeVerb]
  by_cases h : answer = key 'y'
  · rw [if_pos h, if_pos h]
    decide
  · rw [if_neg h, if_neg h]
    decide

theorem addCommand_line (s : State) : addCommand s = commandLine addVerb s := by
  unfold addCommand commandLine
  rw [addVerb_line]

theorem removeCommand_line (s : State) (answer : Int) :
    removeCommand s answer = commandLine (removeVerb answer) s := by
  unfold removeCommand commandLine
  rw [removeVerb_line]

theorem plain_addVerb : ∀ w ∈ addVerb, PlainWord w := by decide

theorem plain_removeVerb (answer : Int) : ∀ w ∈ removeVerb answer, PlainWord w := by
  rw [removeVerb]
  by_cases h : answer = key 'y'
  · rw [if_pos h]
    decide
  · rw [if_neg h]
    decide

variable {verb : List Str} {line : Str}

theorem lexes_verb (hverb : ∀ w ∈ verb, PlainWord w) {ts : List Token} (h : Lexes line ts) :
    Lexes (verb.flatMap (· ++ [' ']) ++ line)
      (verb.map (fun w => .word (marked .plain w)) ++ ts) := by
  induction verb with
  | nil => exact h
  | cons w verb ih =>
    have hrest := ih fun v hv => hverb v (by simp [hv])
    simpa using (lexes_plain (hverb w (by simp))).seq hrest

theorem inked_verb (verb : List Str) (line : Str) :
    inked (verb.flatMap (· ++ [' ']) ++ line) = (verb.map inked).sum + inked line := by
  have hblank : inked [' '] = 0 := rfl
  induction verb with
  | nil => simp
  | cons w verb ih =>
    simp only [List.flatMap_cons, List.append_assoc, inked_append, List.map_cons, List.sum_cons,
      hblank] at ih ⊢
    omega

/-- Behind the words of the verb a word may begin. -/
theorem untouched_verb {b : Bool} (h : Untouched b (verb.flatMap (· ++ [' ']) ++ line))
    (hverb : verb ≠ []) : Untouched true line := by
  induction verb generalizing b with
  | nil => exact absurd rfl hverb
  | cons w verb ih =>
    have hrest : Untouched true (verb.flatMap (· ++ [' ']) ++ line) :=
      untouched_append (b := b) (t := w) (by simpa using h)
    cases verb with
    | nil => exact hrest
    | cons v verb => exact ih hrest (by simp)

end CommandLine

section Entries

/-- A character of a file name. -/
def isPrintable (c : Char) : Bool := 32 ≤ c.toNat ∧ c.toNat ≠ 127

/-- An entry of the status: its seven columns, and its path. -/
structure Entry where
  columns : Str
  path : Str
  columns_length : columns.length = 7
  path_ne : path ≠ []
  path_printable : ∀ c ∈ path, isPrintable c
  path_end : path.getLast? ≠ some ' '

def Entry.line (e : Entry) : Str := e.columns ++ ' ' :: e.path

theorem drop_line (e : Entry) (k : Nat) : (e.line ++ List.replicate k ' ').drop 7 =
    List.replicate 1 ' ' ++ (e.path ++ List.replicate k ' ') := by
  rw [Entry.line, List.append_assoc, List.drop_left' e.columns_length]
  rfl

/-- What is left of the stored row without its first seven characters. -/
theorem drop_padded (maxX : Int) (e : Entry) :
    ∃ k, (padded maxX e.line).drop 7 =
      List.replicate 1 ' ' ++ (e.path ++ List.replicate k ' ') := by
  rw [padded]
  exact ⟨_, drop_line e _⟩

variable {maxX : Int} {s : State} {entries : List Entry} {verb : List Str}

theorem joinedStr_entries (hsel : s.selectedItems = entries.map (fun e => padded maxX e.line)) :
    joinedStr s = [' '].intercalate (entries.map fun e => (padded maxX e.line).drop 7) := by
  rw [joinedStr, join, hsel, List.map_map]
  rfl

theorem lexes_entry {e : Entry} (h : PlainWord e.path) :
    Lexes ((padded maxX e.line).drop 7) [.word (marked .plain e.path)] := by
  obtain ⟨k, hk⟩ := drop_padded maxX e
  rw [hk]
  exact ((lexes_plain h).pad k).indent 1

theorem inked_replicate (k : Nat) : inked (List.replicate k ' ') = 0 := by
  simp [inked, isBlank]

theorem inked_entries (entries : List Entry) :
    inked ([' '].intercalate (entries.map fun e => (padded maxX e.line).drop 7)) =
      ((entries.map Entry.path).map inked).sum := by
  have hitem : ∀ e : Entry, inked ((padded maxX e.line).drop 7) = inked e.path := by
    intro e
    obtain ⟨k, hk⟩ := drop_padded maxX e
    rw [hk, inked_append, inked_append, inked_replicate, inked_replicate, Nat.zero_add,
      Nat.add_zero]
  have hblank : inked [' '] = 0 := rfl
  induction entries with
  | nil => rfl
  | cons e entries ih =>
    cases entries with
    | nil => simp [hitem]
    | cons f entries =>
      simp only [List.map_cons, List.intercalate_cons_cons, List.append_assoc, inked_append, hitem,
        hblank, List.sum_cons] at ih ⊢
      omega

/-- Each path has its place in the command line, after a blank. -/
theorem untouched_entry (h : Untouched true
    ([' '].intercalate (entries.map fun e => (padded maxX e.line).drop 7))) :
    ∀ e ∈ entries, ∃ rest, Untouched true (e.path ++ rest) := by
  induction entries with
  | nil => simp
  | cons e entries ih =>
    obtain ⟨k, hk⟩ := drop_padded maxX e
    intro f hf
    cases entries with
    | nil =>
      obtain rfl := List.mem_singleton.mp hf
      simp only [List.map_cons, List.map_nil, List.intercalate_singleton, hk] at h
      exact ⟨_, untouched_append (t := []) h⟩
    | cons g entries =>
      simp only [List.map_cons, List.intercalate_cons_cons, List.append_assoc] at h ih
      obtain rfl | hf := List.mem_cons.mp hf
      · rw [hk] at h
        simp only [List.append_assoc] at h
        exact ⟨_, untouched_append (t := []) h⟩
      · exact ih (untouched_append h) f hf

theorem reads_commandLine_iff (hverb : ∀ w ∈ verb, PlainWord w) (hne : verb ≠ [])
    (hsel : s.selectedItems = entries.map (fun e => padded maxX e.line)) :
    Reads (commandLine verb s) (verb ++ entries.map Entry.path) ↔
      ∀ e ∈ entries, PlainWord e.path := by
  rw [commandLine, joinedStr_entries hsel]
  constructor
  · intro h e he
    have hink := inked_verb verb
      ([' '].intercalate (entries.map fun e => (padded maxX e.line).drop 7))
    rw [inked_entries, ← List.sum_append, ← List.map_append] at hink
    obtain ⟨hunt, hblank⟩ := untouched_of_reads h hink.le
    obtain ⟨rest, hrest⟩ := untouched_entry (untouched_verb hunt hne) e he
    refine plainWord_of_untouched hrest e.path_ne (hblank _ ?_)
    exact List.mem_append_right _ (List.mem_map_of_mem he)
  · intro h
    apply reads_of_lexes
    have hrows := lexes_intercalate fun e he => @lexes_entry maxX e (h e he)
    have hline := lexes_verb hverb hrows
    have hflat : entries.flatMap (fun e => [Token.word (marked .plain e.path)]) =
        (entries.map Entry.path).map fun w => .word (marked .plain w) := by
      rw [List.map_map, List.map_eq_flatMap]
      rfl
    rwa [hflat, ← List.map_append] at hline

/-- The commands that a round may run, and the state it runs them in. -/
theorem keyEvent_commands {env : ∀ q, Answer q → Prop} {r : History} {cmd : Str} {m : State}
    {next : Option Str → Prog State} (h : Within env (keyEvent s) r (.ask (.popen cmd m) next)) :
    cmd = statusCommand ∨ cmd = updateCommand ∨ cmd = addCommand s ∨
      ∃ answer, cmd = removeCommand s answer := by
  cases (within_safe keyEvent_round h).1 with
  | add => exact .inr (.inr (.inl rfl))
  | @remove answer => exact .inr (.inr (.inr ⟨answer, rfl⟩))
  | update => exact .inr (.inl rfl)
  | status => exact .inl rfl

/-- The operands that the shell finds in the command of the `a` and `r` keys are
the selected paths exactly when each path is a plain word. -/
theorem operands_iff (hsel : s.selectedItems = entries.map (fun e => padded s.maxX e.line)) :
    (Reads (addCommand s) (addVerb ++ entries.map Entry.path) ↔ ∀ e ∈ entries, PlainWord e.path) ∧
      (∀ answer, Reads (removeCommand s answer) (removeVerb answer ++ entries.map Entry.path) ↔
        ∀ e ∈ entries, PlainWord e.path) ∧
      ∀ env r cmd m next, Within env (keyEvent s) r (.ask (.popen cmd m) next) →
        cmd = statusCommand ∨ cmd = updateCommand ∨ cmd = addCommand s ∨
          ∃ answer, cmd = removeCommand s answer := by
  refine ⟨?_, fun answer => ?_, fun _ _ _ _ _ h => keyEvent_commands h⟩
  · rw [addCommand_line]
    exact reads_commandLine_iff plain_addVerb (List.cons_ne_nil _ _) hsel
  · rw [removeCommand_line]
    exact reads_commandLine_iff (plain_removeVerb answer) (List.cons_ne_nil _ _) hsel

/-- A state in which just this entry is selected. -/
def picked (e : Entry) : State :=
  { State.initial with maxX := 14, selectedItems := [padded 14 e.line] }

theorem picked_selected (e : Entry) :
    (picked e).selectedItems = [e].map (fun e => padded (picked e).maxX e.line) := rfl

def plainEntry : Entry :=
  ⟨"?      ".toList, "a-b.c".toList, by decide, by decide, by decide, by decide⟩

theorem operands_iff_plain : Reads (addCommand (picked plainEntry)) (addVerb ++ ["a-b.c".toList]) :=
  (operands_iff (picked_selected plainEntry)).1.mpr (by decide)

def spacedEntry : Entry :=
  ⟨"?      ".toList, "a b".toList, by decide, by decide, by decide, by decide⟩

/-- A blank in a path makes two operands of it. -/
theorem operands_split : ∃ (s : State) (entries : List Entry), entries ≠ [] ∧
    s.selectedItems = entries.map (fun e => padded s.maxX e.line) ∧
    ¬ Reads (addCommand s) (addVerb ++ entries.map Entry.path) :=
  ⟨picked spacedEntry, [spacedEntry], by simp, picked_selected spacedEntry, by decide +kernel⟩

end Entries

end SvnCurses.Operands
