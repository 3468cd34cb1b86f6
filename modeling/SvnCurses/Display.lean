import SvnCurses.Observer
import SvnCurses.Worklist

namespace SvnCurses.Display

open Cpp ProgramState Draw Interaction KeyEvent Session Play Observer Worklist

section Attributes

/-- The attributes that are on. Pair 0 has the colours of the terminal. -/
structure Pen where
  bold : Bool
  pair : Nat
  deriving DecidableEq

def Pen.on (p : Pen) : Attr → Pen
  | .bold => { p with bold := true }
  | .colorPair pair => { p with pair := pair }

def Pen.off (p : Pen) : Attr → Pen
  | .bold => { p with bold := false }
  | .colorPair _ => { p with pair := 0 }

/-- The attributes with which a row of the form is printed. -/
def Pen.printing (p : Pen) (f : Form) : Pen := f.on.foldl Pen.on p

def Pen.after (p : Pen) (f : Form) : Pen := f.off.foldl Pen.off (p.printing f)

/-- A row as it was printed. -/
structure Printed where
  drawn : Drawn
  pen : Pen
  deriving DecidableEq

def printRows : Pen → List Drawn → List Printed
  | _, [] => []
  | p, d :: rows => ⟨d, p.printing d.form⟩ :: printRows (p.after d.form) rows

def penAfter (p : Pen) (rows : List Drawn) : Pen := rows.foldl (fun p d => p.after d.form) p

/-- The pair in which each form is drawn. -/
def pairOf : Form → Nat
  | .selected => 8
  | .selectedUnderCursor | .underCursor => 6
  | .plain pair => pair

theorem pen_pair (p : Pen) (f : Form) : (p.printing f).pair = pairOf f := by
  cases f <;> rfl

theorem pen_bold (p : Pen) (f : Form) : (p.printing f).bold = (p.bold || f = .selected) ∧
    (p.after f).bold = (p.printing f).bold := by
  cases f <;> simp [Pen.after, Pen.printing, Form.on, Form.off, Pen.on, Pen.off]

theorem printRows_append (p : Pen) (rows more : List Drawn) :
    printRows p (rows ++ more) = printRows p rows ++ printRows (penAfter p rows) more := by
  induction rows generalizing p with
  | nil => rfl
  | cons d rows ih =>
    rw [List.cons_append, printRows, ih]
    rfl

theorem penAfter_append (p : Pen) (rows more : List Drawn) :
    penAfter p (rows ++ more) = penAfter (penAfter p rows) more := List.foldl_append

/-- A row is bold from the first selected one on. -/
theorem printRows_get {p : Pen} {rows : List Drawn} {k : Nat} {r : Printed}
    (h : (printRows p rows)[k]? = some r) : r.pen.pair = pairOf r.drawn.form ∧
      (r.pen.bold = true ↔
        p.bold = true ∨ ∃ j ≤ k, ∃ d, rows[j]? = some d ∧ d.form = .selected) := by
  induction rows generalizing p k with
  | nil => cases h
  | cons d rows ih =>
    obtain ⟨hprinting, hafter⟩ := pen_bold p d.form
    cases k with
    | zero =>
      obtain rfl := Option.some.inj h
      refine ⟨pen_pair p d.form, ?_⟩
      simp [hprinting]
    | succ k =>
      obtain ⟨hpair, hbold⟩ := ih h
      refine ⟨hpair, ?_⟩
      rw [hbold, hafter, hprinting, Bool.or_eq_true, decide_eq_true_eq, or_assoc]
      apply or_congr_right
      constructor
      · rintro (hd | ⟨j, hj, e, he, hform⟩)
        · exact ⟨0, Nat.zero_le _, d, rfl, hd⟩
        · exact ⟨j + 1, Nat.succ_le_succ hj, e, he, hform⟩
      · rintro ⟨j, hj, e, he, hform⟩
        cases j with
        | zero =>
          obtain rfl := Option.some.inj he
          exact .inl hform
        | succ j => exact .inr ⟨j, Nat.le_of_succ_le_succ hj, e, he, hform⟩

theorem printRows_drawn (p : Pen) (rows : List Drawn) :
    (printRows p rows).map Printed.drawn = rows := by
  induction rows generalizing p with
  | nil => rfl
  | cons d rows ih => rw [printRows, List.map_cons, ih]

end Attributes

section Screen

/-- What is written on the bottom window, where it was left or after a move. -/
inductive Note
  | plain (text : Str)
  | moved (y x : Int) (text : Str)
  deriving DecidableEq

/-- The display, and how long a key is waited for. -/
structure Screen where
  delay : Int
  -- what was written on the bottom window since it was last cleared
  notes : List Note
  pen : Pen
  pad : List Printed
  -- what was on the pad before it was last cleared
  past : List Printed

/-- Keys are waited for without end, and nothing is written. -/
def Screen.fresh : Screen := ⟨-1, [], ⟨false, 0⟩, [], []⟩

/-- `wmove` on a window of the given size. -/
def wmove (lines columns y x : Int) : Bool := 0 ≤ y ∧ y < lines ∧ 0 ≤ x ∧ x < columns

def Screen.heard (t : Terminal) (scr : Screen) : Output → Screen
  | .pad _ _ rows =>
      { scr with
        pad := printRows scr.pen rows
        pen := penAfter scr.pen rows
        past := scr.past ++ scr.pad }
  | .timeout delay => { scr with delay := delay }
  | .wclear => { scr with notes := [] }
  | .wprintw text => { scr with notes := scr.notes ++ [.plain text] }
  | .mvwprintw y x text =>
      -- nothing is printed when the move fails
      if wmove bottomWindowSize t.maxX y x then
        { scr with notes := scr.notes ++ [.moved y x text] }
      else scr

/-- The display only hears what the program says. -/
def display (t : Terminal) : Monitor Answer Output Screen := ⟨Screen.heard t, fun scr _ => scr⟩

/-- The configurations of the program, each with its display. -/
abbrev Displays (env : ∀ q, Answer q → Prop) (t : Terminal) :
    Screen → History → Prog State → Prop :=
  Observed env (display t) keyEvent (fun s => s.isRunning = true) (main t) Screen.fresh

end Screen

section Bold

variable {env : ∀ q, Answer q → Prop} {t : Terminal} {scr : Screen} {tr : History} {p : Prog State}

def Screen.all (scr : Screen) : List Printed := scr.past ++ scr.pad

/-- The pad was never given other attributes than those the rows have left on. -/
def Screen.Inked (scr : Screen) : Prop :=
  scr.all = printRows ⟨false, 0⟩ (scr.all.map Printed.drawn) ∧
    scr.pen = penAfter ⟨false, 0⟩ (scr.all.map Printed.drawn)

theorem inked_heard (h : scr.Inked) (o : Output) : (scr.heard t o).Inked := by
  cases o with
  | pad m s' rows =>
    obtain ⟨hall, hpen⟩ := h
    have hnew : (scr.heard t (.pad m s' rows)).all = scr.all ++ printRows scr.pen rows := rfl
    have hdrawn : (scr.heard t (.pad m s' rows)).all.map Printed.drawn =
        scr.all.map Printed.drawn ++ rows := by
      rw [hnew, List.map_append, printRows_drawn]
    rw [Screen.Inked, hdrawn, printRows_append, penAfter_append, ← hall, ← hpen]
    exact ⟨hnew, rfl⟩
  | timeout delay | wclear | wprintw text => exact h
  | mvwprintw y x text =>
    simp only [Screen.heard]
    split <;> exact h

theorem displays_inked (h : Displays env t scr tr p) : scr.Inked :=
  @observed_monitor _ _ _ _ _ _ _ (display t) _ _ _ _ _ _ _ (fun scr _ => Screen.Inked scr)
    ⟨rfl, rfl⟩ (fun _ _ o hi => inked_heard hi o) (fun _ _ _ hi => hi) h

/-- In any run each row is printed in the pair of its form. The bold attribute
of the first selected row away from the cursor stays on for all rows after it,
selected or not, whatever keys are pressed. -/
theorem bold_remains (h : Displays env t scr tr p) : ∀ (k : Nat) (r : Printed),
    scr.all[k]? = some r → r.pen.pair = pairOf r.drawn.form ∧
      (r.pen.bold = true ↔ ∃ j ≤ k, ∃ e, scr.all[j]? = some e ∧ e.drawn.form = .selected) := by
  intro k r hr
  rw [(displays_inked h).1] at hr
  obtain ⟨hpair, hbold⟩ := printRows_get hr
  refine ⟨hpair, hbold.trans ?_⟩
  simp only [Bool.false_eq_true, false_or, List.getElem?_map, Option.map_eq_some_iff]
  apply exists_congr
  intro j
  apply and_congr_right
  intro _
  constructor
  · rintro ⟨d, ⟨e, he, rfl⟩, hform⟩
    exact ⟨e, he, hform⟩
  · rintro ⟨e, he, hform⟩
    exact ⟨_, ⟨e, he, rfl⟩, hform⟩

theorem bold_remains_unselected : ∃ scr tr s next,
    Displays (fun _ _ => True) narrowTerminal scr tr (.ask (.getch .topLevel s) next) ∧
      keysOf tr = [key ' ', key 'k', key ' '] ∧ s.selectedItems = [] ∧
      ∀ (k : Nat) (r : Printed), scr.all[k]? = some r → r.pen.pair = pairOf r.drawn.form ∧
        (r.pen.bold = true ↔ ∃ j ≤ k, ∃ e, scr.all[j]? = some e ∧ e.drawn.form = .selected) := by
  obtain ⟨tr, s, next, h, hkeys, hsel⟩ := play_reads (fun _ _ => True) narrowTerminal 4
    [.inr "? a\n? b\n? c\n".toList, .inl (key ' '), .inl (key 'k'), .inl (key ' ')]
    (fun tr s => keysOf tr = [key ' ', key 'k', key ' '] ∧ s.selectedItems = [])
    (fun _ _ => trivial) (by decide +kernel)
  obtain ⟨scr, hd⟩ := reaches_observed (display narrowTerminal) Screen.fresh h
  exact ⟨scr, tr, s, next, hd, hkeys, hsel, bold_remains hd⟩

end Bold

end SvnCurses.Display
