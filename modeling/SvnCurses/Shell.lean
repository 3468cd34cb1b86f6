import Mathlib.Data.List.Basic
import Mathlib.Algebra.BigOperators.Group.List.Basic
import Mathlib.Algebra.GroupWithZero.Nat

namespace SvnCurses.Shell

abbrev Text := List Char

/-- Looks through the characters of the text, where the general instance would look
through all the characters there are. -/
instance (t : Text) (p : Char → Prop) [DecidablePred p] : Decidable (∀ c ∈ t, p c) :=
  List.decidableBAll p t

/-- What quoting has made of a character of a word. The shell still acts on an
active one: it starts an expansion or belongs to a pattern for file names. -/
inductive Mark
  | plain
  | quoted
  | active
  deriving DecidableEq

/-- A word after quote removal. -/
abbrev Word := List (Char × Mark)

def marked (m : Mark) (t : Text) : Word := t.map (·, m)

/-- The text a word stands for, when the shell leaves it as it is. -/
def value (w : Word) : Option Text :=
  if ∀ p ∈ w, p.2 ≠ .active then some (w.map Prod.fst) else none

inductive Token
  | word (w : Word)
  | number (w : Word)
  | operator (op : Text)
  deriving DecidableEq

def isBlank (c : Char) : Bool := c = ' ' || c = '\t'

def startsOperator (c : Char) : Bool := c ∈ ['&', '|', ';', '<', '>', '(', ')', '\n']

def operators : List Text :=
  [['&'], ['|'], [';'], ['<'], ['>'], ['('], [')'], ['\n'], ['&', '&'], ['|', '|'], [';', ';'],
    ['<', '<'], ['>', '>'], ['<', '&'], ['>', '&'], ['<', '>'], ['<', '<', '-'], ['>', '|']]

def redirections : List Text :=
  [['<'], ['>'], ['<', '<'], ['>', '>'], ['<', '&'], ['>', '&'], ['<', '>'], ['<', '<', '-'],
    ['>', '|']]

def isQuote (c : Char) : Bool := c ∈ ['\\', '\'', '"']

/-- Active outside quotes. Within double quotes only the first two are. -/
def isActive (c : Char) : Bool := c ∈ ['$', '\x60', '*', '?']

inductive Mode
  | blank
  | word (w : Word)
  | escape (w : Option Word)
  | single (w : Word)
  | double (w : Word)
  | doubleEscape (w : Word)
  | operator (op : Text)
  | comment
  deriving DecidableEq

def wordStep (w : Option Word) (c : Char) : Mode :=
  if c = '\\' then .escape w
  else if c = '\'' then .single (w.getD [])
  else if c = '"' then .double (w.getD [])
  else .word (w.getD [] ++ [(c, if isActive c then .active else .plain)])

/-- The first character of what may become a token. -/
def startStep (c : Char) : Mode :=
  if isBlank c then .blank
  else if c = '#' then .comment
  else if startsOperator c then .operator [c]
  else wordStep none c

/-- The token for a word that ends before `c`. Digits right before a redirection
number a file descriptor. -/
def delimited (w : Word) (c : Char) : Token :=
  if (c = '<' ∨ c = '>') ∧ w ≠ [] ∧ ∀ p ∈ w, p.1.isDigit ∧ p.2 = .plain then .number w
  else .word w

/-- One character of the token recognition rules: the tokens it delimits, and
how reading goes on. -/
def step : Mode → Char → List Token × Mode
  | .blank, c => ([], startStep c)
  | .word w, c =>
      if isBlank c then ([.word w], .blank)
      else if startsOperator c then ([delimited w c], .operator [c])
      else ([], wordStep (some w) c)
  | .escape w, c =>
      if c = '\n' then ([], match w with | none => .blank | some w => .word w)
      else ([], .word (w.getD [] ++ [(c, .quoted)]))
  | .single w, c => if c = '\'' then ([], .word w) else ([], .single (w ++ [(c, .quoted)]))
  | .double w, c =>
      if c = '"' then ([], .word w)
      else if c = '\\' then ([], .doubleEscape w)
      else ([], .double (w ++ [(c, if c = '$' ∨ c = '\x60' then .active else .quoted)]))
  | .doubleEscape w, c =>
      if c = '\n' then ([], .double w)
      else if c = '$' ∨ c = '\x60' ∨ c = '"' ∨ c = '\\' then ([], .double (w ++ [(c, .quoted)]))
      else ([], .double (w ++ [('\\', .quoted), (c, .quoted)]))
  | .operator op, c =>
      if operators.contains (op ++ [c]) then ([], .operator (op ++ [c]))
      else ([.operator op], startStep c)
  | .comment, c => if c = '\n' then ([], .operator [c]) else ([], .comment)

/-- The end of the input. It may not come inside quotes, and a backslash with
nothing after it has no meaning. -/
def finish : Mode → Option (List Token)
  | .blank | .comment => some []
  | .word w => some [.word w]
  | .operator op => some [.operator op]
  | .escape _ | .single _ | .double _ | .doubleEscape _ => none

def scan : Mode → Text → Option (List Token)
  | m, [] => finish m
  | m, c :: cs => (scan (step m c).2 cs).map ((step m c).1 ++ ·)

/-- A simple command: its words in order, and where its redirections point. -/
structure Command where
  words : List Word
  redirects : List (Text × Word)
  deriving DecidableEq

def addWord (w : Word) (c : Command) : Command := { c with words := w :: c.words }

def addRedirect (op : Text) (w : Word) (c : Command) : Command :=
  { c with redirects := (op, w) :: c.redirects }

/-- A list of tokens that is one simple command. Any other operator would begin
another command, a subshell or a line. -/
def parse : List Token → Option Command
  | [] => some ⟨[], []⟩
  | .word w :: ts => (parse ts).map (addWord w)
  | .operator op :: .word w :: ts =>
      if redirections.contains op then (parse ts).map (addRedirect op w) else none
  | .number _ :: .operator op :: .word w :: ts =>
      if redirections.contains op then (parse ts).map (addRedirect op w) else none
  | _ => none

def readCommand (text : Text) : Option Command := (scan .blank text).bind parse

/-- The shell reads the text as one simple command made of exactly these words,
and changes none of them. -/
def Reads (text : Text) (ws : List Text) : Prop :=
  ∃ c, readCommand text = some c ∧ c.words.map value = ws.map some ∧ c.redirects = []

instance (text : Text) (ws : List Text) : Decidable (Reads text ws) :=
  decidable_of_iff (∃ c ∈ readCommand text, c.words.map value = ws.map some ∧ c.redirects = [])
    (exists_congr fun _ => Iff.rfl)

/-- A character with no meaning of its own to the shell. -/
def ordinary (c : Char) : Bool := !isBlank c && !startsOperator c && !isQuote c && !isActive c

/-- A text that the shell reads as the word it spells, wherever a word may begin. -/
def PlainWord (t : Text) : Prop := t ≠ [] ∧ t.head? ≠ some '#' ∧ ∀ c ∈ t, ordinary c

instance (t : Text) : Decidable (PlainWord t) :=
  inferInstanceAs (Decidable (t ≠ [] ∧ t.head? ≠ some '#' ∧ ∀ c ∈ t, ordinary c))

end SvnCurses.Shell
