import SvnCurses.Cpp
import SvnCurses.Exchange

namespace SvnCurses.Getopt

open Cpp Exchange

section Scanner

/-- What stands for an option: a character, or one of the codes past them. -/
inductive Code (L : Type)
  | short (c : Char)
  | long (l : L)
  deriving DecidableEq

/-- `apr_getopt_option_t`, without the description. -/
structure Opt (L : Type) where
  name : Option Str
  optch : Code L
  hasArg : Bool
  deriving DecidableEq

/-- `apr_getopt_t`. -/
structure Os where
  argv : List Str
  -- the rest of a run of short options
  place : Str
  interleave : Bool
  ind : Nat
  -- where operands were skipped
  skipStart : Nat
  skipEnd : Nat
  deriving DecidableEq

def getoptInit (argv : List Str) : Os := ⟨argv, [], false, 1, 1, 1⟩

/-- The operands go behind the arguments that were read since. -/
def permute (os : Os) : Os :=
  let len1 := os.skipEnd - os.skipStart
  let len2 := os.ind - os.skipEnd
  { os with
    argv := if os.interleave then exchangeRanges os.argv os.skipStart len1 len2 else os.argv
    skipStart := os.skipStart + len2
    skipEnd := os.skipEnd + len2 }

inductive Status (L : Type)
  | success (optch : Code L) (optarg : Option Str)
  | eof
  | badch
  | badarg
  deriving DecidableEq

def isDashed (w : Str) : Bool := w.head? = some '-'

variable {L : Type} [DecidableEq L]

/-- The text is the name of the option, or goes on with `=`. -/
def Opt.isNamed (o : Opt L) (p : Str) : Bool :=
  match o.name with
  | none => false
  | some name => name.isPrefixOf p && ((p.drop name.length).headD '=' = '=')

def Opt.afterName (o : Opt L) (p : Str) : Str := p.drop (o.name.getD []).length

def longOption (opts : List (Opt L)) (os : Os) (p : Str) : Status L × Os :=
  match opts.find? (·.isNamed p) with
  | none => (.badch, os)
  | some o =>
      match o.hasArg, o.afterName p with
      | true, _ :: value => (.success o.optch (some value), permute os)
      | true, [] =>
          match os.argv[os.ind]? with
          | none => (.badarg, os)
          | some value =>
              (.success o.optch (some value), permute { os with ind := os.ind + 1 })
      | false, [] => (.success o.optch none, permute os)
      | false, _ :: _ => (.badarg, os)

/-- The next option of a run. -/
def shortOption (opts : List (Opt L)) (os : Os) : Str → Status L × Os
  | [] => (.badch, os)
  | c :: p =>
      match opts.find? (·.optch = .short c) with
      | none => (.badch, os)
      | some o =>
          match o.hasArg, p with
          | true, _ :: _ => (.success (.short c) (some p), permute { os with place := [] })
          | true, [] =>
              match os.argv[os.ind]? with
              | none => (.badarg, os)
              | some value =>
                  (.success (.short c) (some value),
                    permute { os with ind := os.ind + 1, place := [] })
          | false, p => (.success (.short c) none, permute { os with place := p })

/-- Operands are skipped, when they may come before options. -/
def skipOperands (os : Os) : Os :=
  if os.interleave then
    let ind := os.ind + ((os.argv.drop os.ind).takeWhile (!isDashed ·)).length
    { os with ind := ind, skipEnd := ind }
  else os

/-- An argument that begins with a dash, from there on. -/
def newArgument (opts : List (Opt L)) (os : Os) : Str → Status L × Os
  | ['-'] =>
      let os := permute os
      (.eof, { os with ind := os.skipStart })
  | '-' :: name => longOption opts os name
  -- a dash of its own is no operand
  | [] => (.badch, os)
  | p => shortOption opts os p

/-- `apr_getopt_long`. -/
def getoptLong (opts : List (Opt L)) (os : Os) : Status L × Os :=
  match os.place with
  | [] =>
      let os := skipOperands os
      match os.argv[os.ind]? with
      | some ('-' :: p) => newArgument opts { os with ind := os.ind + 1 } p
      | _ => (.eof, { os with ind := os.skipStart })
  | p => shortOption opts os p

/-- An option and its argument. -/
abbrev Received (L : Type) := Code L × Option Str

/-- How the loop over the options ends. -/
inductive Outcome (L : Type)
  | done (received : List (Received L)) (os : Os)
  | help
  | unfinished

def Outcome.cons (x : Received L) : Outcome L → Outcome L
  | .done received os => .done (x :: received) os
  | r => r

/-- The loop over the options. -/
def receive (opts : List (Opt L)) : Nat → Os → Outcome L
  | 0, _ => .unfinished
  | fuel + 1, os =>
      match getoptLong opts os with
      | (.eof, os) => .done [] os
      | (.success optch optarg, os) => (receive opts fuel os).cons (optch, optarg)
      | _ => .help

end Scanner

section Spec

variable {L : Type} [DecidableEq L]

/-- What an argument is, by itself. -/
inductive Kind (L : Type)
  | operand
  | stop
  | bad
  -- the options it gives, and the last one if its argument is still to come
  | options (given : List (Received L)) (wants : Option (Code L))
  deriving DecidableEq

/-- A run of short options. -/
def run (opts : List (Opt L)) : Str → Kind L
  | [] => .options [] none
  | c :: p =>
      match opts.find? (·.optch = .short c) with
      | none => .bad
      | some o =>
          match o.hasArg, p with
          | true, [] => .options [] (some (.short c))
          | true, p => .options [(.short c, some p)] none
          | false, p =>
              match run opts p with
              | .options given wants => .options ((.short c, none) :: given) wants
              | kind => kind

def named (opts : List (Opt L)) (p : Str) : Kind L :=
  match opts.find? (·.isNamed p) with
  | none => .bad
  | some o =>
      match o.hasArg, o.afterName p with
      | true, [] => .options [] (some o.optch)
      | true, _ :: value => .options [(o.optch, some value)] none
      | false, [] => .options [(o.optch, none)] none
      | false, _ :: _ => .bad

def dashed (opts : List (Opt L)) : Str → Kind L
  | ['-'] => .stop
  | '-' :: name => named opts name
  | [] => .bad
  | p => run opts p

def kindOf (opts : List (Opt L)) : Str → Kind L
  | '-' :: p => dashed opts p
  | _ => .operand

/-- The options and the operands of a list of arguments. -/
def parse (opts : List (Opt L)) : List Str → Option (List (Received L) × List Str)
  | [] => some ([], [])
  | w :: ws =>
      match kindOf opts w with
      | .operand => (parse opts ws).map fun x => (x.1, w :: x.2)
      | .stop => some ([], ws)
      | .bad => none
      | .options given none => (parse opts ws).map fun x => (given ++ x.1, x.2)
      | .options given (some optch) =>
          match ws with
          | [] => none
          | value :: ws => (parse opts ws).map fun x => (given ++ (optch, some value) :: x.1, x.2)

/-- What the kind of an argument and the arguments after it make up. -/
def parseAfter (opts : List (Opt L)) : Kind L → List Str → Option (List (Received L) × List Str)
  | .options given none, ws => (parse opts ws).map fun x => (given ++ x.1, x.2)
  | .options given (some optch), value :: ws =>
      (parse opts ws).map fun x => (given ++ (optch, some value) :: x.1, x.2)
  | .stop, ws => some ([], ws)
  | _, _ => none

variable {opts : List (Opt L)} {w p : Str} {ws : List Str} {c : Char}

theorem parse_dashed (h : kindOf opts w ≠ .operand) :
    parse opts (w :: ws) = parseAfter opts (kindOf opts w) ws := by
  rw [parse]
  split
  · next hop => exact absurd hop h
  · next hstop => rw [hstop]; rfl
  · next hbad => rw [hbad]; rfl
  · next hgiven => rw [hgiven]; rfl
  · next hwants =>
    rw [hwants]
    cases ws <;> rfl

theorem parse_operands (h : ∀ w ∈ ws, isDashed w = false) (rest : List Str) :
    parse opts (ws ++ rest) = (parse opts rest).map fun x => (x.1, ws ++ x.2) := by
  induction ws with
  | nil => simp
  | cons w ws ih =>
    have hkind : kindOf opts w = .operand := by
      have hdash := h w List.mem_cons_self
      cases w with
      | nil => rfl
      | cons c w =>
        have hc : c ≠ '-' := by simpa [isDashed] using hdash
        unfold kindOf
        split <;> simp_all
    rw [List.cons_append, parse, hkind, ih fun x hx => h x (List.mem_cons_of_mem w hx)]
    simp [Function.comp_def]

/-- A run gives options, or is wrong. -/
theorem run_cases (p : Str) :
    (∃ given wants, run opts p = .options given wants) ∨ run opts p = .bad := by
  induction p with
  | nil => exact .inl ⟨_, _, rfl⟩
  | cons c p ih =>
    rw [run]
    split
    · exact .inr rfl
    · split
      · exact .inl ⟨_, _, rfl⟩
      · exact .inl ⟨_, _, rfl⟩
      · obtain ⟨given, wants, hp⟩ | hp := ih
        · rw [hp]
          exact .inl ⟨_, _, rfl⟩
        · rw [hp]
          exact .inr rfl

theorem dashed_ne_operand (p : Str) : dashed opts p ≠ .operand := by
  have hrun (p : Str) : run opts p ≠ .operand := by
    obtain ⟨given, wants, hp⟩ | hp := @run_cases L _ opts p
    · simp [hp]
    · simp [hp]
  unfold dashed
  split
  · simp
  · next name _ =>
    unfold named
    repeat' split
    all_goals simp
  · simp
  · exact hrun p

/-- The operands are some of the arguments. They are all of them only if none has a dash. -/
theorem parse_sublist {x : List (Received L) × List Str} (h : parse opts ws = some x) :
    x.2.Sublist ws ∧ (x.2 = ws → ∀ w ∈ ws, isDashed w = false) := by
  -- with the argument itself no operand, there are fewer operands
  have hfewer : ∀ {w : Str} {ws : List Str} {y : List Str}, y.Sublist ws →
      y.Sublist (w :: ws) ∧ (y = w :: ws → ∀ x ∈ w :: ws, isDashed x = false) := by
    intro w ws y hy
    refine ⟨hy.cons w, fun he => ?_⟩
    have hless := hy.length_le
    rw [he, List.length_cons] at hless
    omega
  fun_induction parse opts ws generalizing x with
  | case1 =>
    obtain rfl := Option.some.inj h
    exact ⟨.refl _, fun _ w hw => absurd hw List.not_mem_nil⟩
  | case2 w ws hkind ih =>
    obtain ⟨y, hy, rfl⟩ := Option.map_eq_some_iff.mp h
    obtain ⟨hsub, hall⟩ := ih hy
    have hw : isDashed w = false := by
      cases w with
      | nil => rfl
      | cons c w =>
        refine decide_eq_false fun hc => ?_
        obtain rfl : c = '-' := Option.some.inj hc
        exact dashed_ne_operand w hkind
    exact ⟨hsub.cons_cons w,
      fun he => List.forall_mem_cons.mpr ⟨hw, hall (List.cons.inj he).2⟩⟩
  | case3 w ws hkind =>
    obtain rfl := Option.some.inj h
    exact hfewer (.refl _)
  | case4 => cases h
  | case5 w ws given hkind ih =>
    obtain ⟨y, hy, rfl⟩ := Option.map_eq_some_iff.mp h
    exact hfewer (ih hy).1
  | case6 => cases h
  | case7 w given optch hkind value ws ih =>
    obtain ⟨y, hy, rfl⟩ := Option.map_eq_some_iff.mp h
    exact hfewer ((ih hy).1.cons value)

end Spec

section Positions

/-- The arguments as the scanner has arranged them: those that were read, the
operands it has skipped, those it is reading, and the rest. -/
structure Taking (os : Os) (before operands taken rest : List Str) : Prop where
  argv : os.argv = before ++ (operands ++ (taken ++ rest))
  interleave : os.interleave = true
  skipStart : os.skipStart = before.length
  skipEnd : os.skipEnd = before.length + operands.length
  ind : os.ind = before.length + operands.length + taken.length

variable {os : Os} {before operands taken rest : List Str} {w p : Str}

theorem Taking.drop (h : Taking os before operands taken rest) : os.argv.drop os.ind = rest := by
  have hlen : os.ind = (before ++ (operands ++ taken)).length := by
    rw [h.ind]
    simp only [List.length_append]
    omega
  have hargv : os.argv = before ++ (operands ++ taken) ++ rest := by
    rw [h.argv]
    simp only [List.append_assoc]
  rw [hlen, hargv, List.drop_left]

theorem Taking.next (h : Taking os before operands taken rest) :
    os.argv[os.ind]? = rest.head? := by
  rw [← h.drop, List.head?_drop]

theorem Taking.take (h : Taking os before operands taken (w :: rest)) :
    Taking { os with ind := os.ind + 1 } before operands (taken ++ [w]) rest where
  argv := by simp [h.argv]
  interleave := h.interleave
  skipStart := h.skipStart
  skipEnd := h.skipEnd
  ind := by simp [h.ind]; omega

theorem Taking.placed (h : Taking os before operands taken rest) (p : Str) :
    Taking { os with place := p } before operands taken rest :=
  ⟨h.argv, h.interleave, h.skipStart, h.skipEnd, h.ind⟩

theorem Taking.permute (h : Taking os before operands taken rest) :
    Taking (permute os) (before ++ taken) operands [] rest := by
  have hlen1 : os.skipEnd - os.skipStart = operands.length := by
    rw [h.skipEnd, h.skipStart]
    omega
  have hlen2 : os.ind - os.skipEnd = taken.length := by
    rw [h.ind, h.skipEnd]
    omega
  refine ⟨?_, h.interleave, ?_, ?_, ?_⟩
  · simp only [Getopt.permute, h.interleave, ↓reduceIte, hlen1, hlen2]
    rw [h.skipStart, h.argv, exchangeRanges_blocks, List.append_assoc]
    rfl
  · change os.skipStart + (os.ind - os.skipEnd) = _
    rw [hlen2, h.skipStart, List.length_append]
  · change os.skipEnd + (os.ind - os.skipEnd) = _
    rw [hlen2, h.skipEnd, List.length_append]
    omega
  · change os.ind = _
    rw [h.ind, List.length_append, List.length_nil]
    omega

/-- Nothing is lost when operands are moved. -/
theorem Taking.perm_permute (h : Taking os before operands taken rest) :
    (Getopt.permute os).argv.Perm os.argv := by
  rw [h.permute.argv, h.argv, List.append_assoc, List.nil_append, ← List.append_assoc taken,
    ← List.append_assoc operands]
  exact ((List.perm_append_comm.append_right rest).append_left before)

theorem Taking.skip (h : Taking os before operands [] rest) :
    Taking (skipOperands os) before (operands ++ rest.takeWhile (!isDashed ·)) []
      (rest.dropWhile (!isDashed ·)) := by
  have hskip : skipOperands os = { os with
      ind := os.ind + (rest.takeWhile (!isDashed ·)).length
      skipEnd := os.ind + (rest.takeWhile (!isDashed ·)).length } := by
    rw [skipOperands, if_pos h.interleave, h.drop]
  have hind := h.ind
  simp only [List.length_nil] at hind
  rw [hskip]
  refine ⟨?_, h.interleave, h.skipStart, ?_, ?_⟩
  · simp only [h.argv, List.nil_append, List.append_assoc, List.takeWhile_append_dropWhile]
  · simp only [List.length_append]
    omega
  · simp only [List.length_append, List.length_nil]
    omega

theorem Taking.drop_start (h : Taking os before operands taken rest) :
    os.argv.drop os.skipStart = operands ++ (taken ++ rest) := by
  rw [h.skipStart, h.argv, List.drop_left]

end Positions

section Refines

variable {L : Type} [DecidableEq L] {opts : List (Opt L)} {os : Os}
  {before operands taken rest : List Str} {w p : Str} {c : Char} {bound : Nat}

/-- How much there is still to read. -/
def todo (place : Str) (rest : List Str) : Nat :=
  place.length + (rest.map fun w => w.length + 1).sum

/-- What should come of the operands that were skipped and of the rest. -/
def collect (opts : List (Opt L)) (operands : List Str) (kind : Kind L) (rest : List Str) :
    Option (List (Received L) × List Str) :=
  (parseAfter opts kind rest).map fun x => (x.1, operands ++ x.2)

/-- What one call does towards the goal. -/
inductive Called (opts : List (Opt L)) (goal : Option (List (Received L) × List Str))
    (argv : List Str) (bound : Nat) : Status L × Os → Prop
  | eof {os : Os} (hgoal : goal = some ([], os.argv.drop os.ind)) (hperm : os.argv.Perm argv) :
      Called opts goal argv bound (.eof, os)
  | success {os : Os} {before operands rest : List Str} {optch : Code L} {optarg : Option Str}
      (h : Taking os before operands [] rest)
      (hgoal : goal = (collect opts operands (run opts os.place) rest).map
        fun x => ((optch, optarg) :: x.1, x.2))
      (hless : todo os.place rest < bound) (hperm : os.argv.Perm argv) :
      Called opts goal argv bound (.success optch optarg, os)
  | badch {os : Os} (hgoal : goal = none) : Called opts goal argv bound (.badch, os)
  | badarg {os : Os} (hgoal : goal = none) : Called opts goal argv bound (.badarg, os)

/-- A call that takes one option with its argument. -/
theorem called_success {optch : Code L} {optarg : Option Str}
    (h : Taking os before operands taken rest) (hplace : os.place = [])
    (hless : todo [] rest < bound) :
    Called opts (collect opts operands (.options [(optch, optarg)] none) rest) os.argv bound
      (.success optch optarg, permute os) := by
  refine .success h.permute ?_ ?_ h.perm_permute
  · change _ = (collect opts operands (run opts os.place) rest).map _
    rw [hplace]
    simp [collect, parseAfter, run, Function.comp_def]
  · change todo os.place rest < bound
    rw [hplace]
    exact hless

theorem collect_wants {optch : Code L} {value : Str} :
    collect opts operands (.options [] (some optch)) (value :: rest) =
      collect opts operands (.options [(optch, some value)] none) rest := rfl

theorem collect_push {x : Received L} {given : List (Received L)} {wants : Option (Code L)} :
    collect opts operands (.options (x :: given) wants) rest =
      (collect opts operands (.options given wants) rest).map fun y => (x :: y.1, y.2) := by
  cases wants with
  | none => simp [collect, parseAfter, Function.comp_def]
  | some optch => cases rest <;> simp [collect, parseAfter, Function.comp_def]

theorem shortOption_called (h : Taking os before operands taken rest)
    (hbound : todo (c :: p) rest ≤ bound) :
    Called opts (collect opts operands (run opts (c :: p)) rest) os.argv bound
      (shortOption opts os (c :: p)) := by
  simp only [todo, List.length_cons] at hbound
  rw [shortOption, run]
  cases opts.find? (·.optch = .short c) with
  | none => exact .badch rfl
  | some o =>
    cases hasArg : o.hasArg with
    | false =>
      simp only [hasArg]
      refine .success (h.placed p).permute ?_ ?_ (h.placed p).perm_permute
      · change _ = (collect opts operands (run opts p) rest).map _
        obtain ⟨given, wants, hp⟩ | hp := @run_cases L _ opts p
        · rw [hp]
          exact collect_push
        · rw [hp]
          rfl
      · change todo p rest < bound
        rw [todo]
        omega
    | true =>
      cases p with
      | cons d p =>
        simp only [hasArg]
        exact called_success (h.placed []) rfl (by simp only [todo, List.length_nil]; omega)
      | nil =>
        simp only [hasArg, h.next]
        cases rest with
        | nil => exact .badarg rfl
        | cons value rest =>
          rw [collect_wants]
          simp only [List.map_cons, List.sum_cons] at hbound
          exact called_success (h.take.placed []) rfl (by simp only [todo, List.length_nil]; omega)

theorem longOption_called (h : Taking os before operands taken rest) (hplace : os.place = [])
    (hless : todo [] rest < bound) :
    Called opts (collect opts operands (named opts p) rest) os.argv bound
      (longOption opts os p) := by
  rw [longOption, named]
  cases opts.find? (·.isNamed p) with
  | none => exact .badch rfl
  | some o =>
    cases hasArg : o.hasArg <;> cases hafter : o.afterName p <;> simp only [hasArg, hafter]
    · exact called_success h hplace hless
    · exact .badarg rfl
    · rw [h.next]
      cases rest with
      | nil => exact .badarg rfl
      | cons value rest =>
        rw [collect_wants]
        simp only [todo, List.map_cons, List.sum_cons] at hless
        exact called_success h.take hplace (by simp only [todo, List.length_nil]; omega)
    · exact called_success h hplace hless

theorem collect_rest (operands rest : List Str) :
    collect opts operands (run opts []) rest =
      (parse opts rest).map fun x => (x.1, operands ++ x.2) := by
  simp [collect, run, parseAfter]

/-- The operands that are skipped are those of the specification. -/
theorem collect_skip (operands rest : List Str) :
    collect opts operands (run opts []) rest =
      collect opts (operands ++ rest.takeWhile (!isDashed ·)) (run opts [])
        (rest.dropWhile (!isDashed ·)) := by
  have hplain : ∀ w ∈ rest.takeWhile (!isDashed ·), isDashed w = false := by
    intro w hw
    simpa using List.all_eq_true.mp List.all_takeWhile w hw
  have hsplit := @parse_operands L _ opts _ hplain (rest.dropWhile (!isDashed ·))
  rw [List.takeWhile_append_dropWhile] at hsplit
  rw [collect_rest, collect_rest, hsplit]
  simp [Function.comp_def]

theorem todo_skip (rest : List Str) : todo [] (rest.dropWhile (!isDashed ·)) ≤ todo [] rest := by
  have hsplit : rest.takeWhile (!isDashed ·) ++ rest.dropWhile (!isDashed ·) = rest :=
    List.takeWhile_append_dropWhile
  simp only [todo]
  conv_rhs => rw [← hsplit, List.map_append, List.sum_append]
  omega

theorem dashed_run (hc : c ≠ '-') : dashed opts (c :: p) = run opts (c :: p) ∧
    newArgument opts os (c :: p) = shortOption opts os (c :: p) := by
  constructor
  · unfold dashed
    split <;> simp_all
  · unfold newArgument
    split <;> simp_all

theorem newArgument_called (h : Taking os before operands taken rest) (hplace : os.place = [])
    (hbound : todo p rest < bound) :
    Called opts (collect opts operands (dashed opts p) rest) os.argv bound
      (newArgument opts os p) := by
  have hless : todo [] rest < bound := by
    simp only [todo, List.length_nil] at hbound ⊢
    omega
  cases p with
  | nil => exact .badch rfl
  | cons c p =>
    by_cases hc : c = '-'
    · subst hc
      cases p with
      | nil =>
        refine .eof ?_ h.perm_permute
        change _ = some ([], (permute os).argv.drop (permute os).skipStart)
        rw [h.permute.drop_start]
        rfl
      | cons d name => exact longOption_called h hplace hless
    · obtain ⟨hdashed, hnew⟩ := @dashed_run L _ opts os p _ hc
      rw [hdashed, hnew]
      exact shortOption_called h (Nat.le_of_lt hbound)

/-- The step lemma. -/
theorem getoptLong_called (h : Taking os before operands [] rest) :
    Called opts (collect opts operands (run opts os.place) rest) os.argv (todo os.place rest)
      (getoptLong opts os) := by
  rw [getoptLong]
  cases hplace : os.place with
  | cons c p => exact shortOption_called h (Nat.le_refl _)
  | nil =>
    have hskip := h.skip
    have hargv : (skipOperands os).argv = os.argv := by
      rw [skipOperands]
      split <;> rfl
    have hempty : (skipOperands os).place = [] := by
      rw [skipOperands]
      split <;> exact hplace
    have hless := todo_skip rest
    rw [collect_skip]
    simp only [hskip.next]
    cases hrest : rest.dropWhile (!isDashed ·) with
    | nil =>
      rw [hrest] at hskip
      refine .eof ?_ (hargv ▸ List.Perm.refl _)
      change _ = some ([], (skipOperands os).argv.drop (skipOperands os).skipStart)
      rw [hskip.drop_start]
      rfl
    | cons w ws =>
      have hdash : isDashed w = true := by
        have hhead := List.head?_dropWhile_not (!isDashed ·) rest
        rw [hrest] at hhead
        simpa using hhead
      obtain ⟨p, rfl⟩ : ∃ p, w = '-' :: p := by
        cases w with
        | nil => cases hdash
        | cons c p =>
          obtain rfl : c = '-' := by simpa [isDashed] using hdash
          exact ⟨p, rfl⟩
      rw [hrest] at hskip hless
      have hkind : kindOf opts ('-' :: p) ≠ .operand := dashed_ne_operand p
      rw [collect_rest, parse_dashed hkind, ← hargv]
      refine newArgument_called hskip.take hempty ?_
      simp only [todo, List.length_nil, List.map_cons, List.length_cons, List.sum_cons] at hless ⊢
      omega

/-- The outcome is the goal, and the arguments are still those that were given. -/
def Outcome.Gives (goal : Option (List (Received L) × List Str)) (argv : List Str) :
    Outcome L → Prop
  | .done received os => goal = some (received, os.argv.drop os.ind) ∧ os.argv.Perm argv
  | .help => goal = none
  | .unfinished => False

omit [DecidableEq L] in
theorem gives_cons {goal : Option (List (Received L) × List Str)} {argv argv' : List Str}
    {r : Outcome L} (h : r.Gives goal argv') (hperm : argv'.Perm argv) (x : Received L) :
    (r.cons x).Gives (goal.map fun y => (x :: y.1, y.2)) argv := by
  cases r with
  | done received os =>
    obtain ⟨rfl, hargv⟩ := h
    exact ⟨rfl, hargv.trans hperm⟩
  | help =>
    obtain rfl : goal = none := h
    rfl
  | unfinished => exact h.elim

/-- The run lemma. -/
theorem receive_gives {fuel : Nat} (h : Taking os before operands [] rest)
    (hfuel : todo os.place rest < fuel) : (receive opts fuel os).Gives
      (collect opts operands (run opts os.place) rest) os.argv := by
  induction fuel generalizing os before operands rest with
  | zero => omega
  | succ fuel ih =>
    have hcalled := @getoptLong_called L _ opts _ _ _ _ h
    rw [receive]
    revert hcalled
    generalize getoptLong opts os = r
    intro hcalled
    cases hcalled with
    | eof hgoal hperm => exact ⟨hgoal, hperm⟩
    | badch hgoal | badarg hgoal => exact hgoal
    | success h' hgoal hless hperm =>
      rw [hgoal]
      exact gives_cons (ih h' (by omega)) hperm _

/-- The loop over the options, which moves operands behind options in place, ends
with the options and the operands that the arguments have when they are read one
after the other, and loses none of them. -/
theorem receive_parses {name : Str} {args : List Str} {fuel : Nat} (hfuel : todo [] args < fuel) :
    (receive opts fuel { getoptInit (name :: args) with interleave := true }).Gives
      (parse opts args) (name :: args) := by
  have hstart : Taking { getoptInit (name :: args) with interleave := true } [name] [] [] args :=
    ⟨rfl, rfl, rfl, rfl, rfl⟩
  have hgoal : collect opts [] (run opts []) args = parse opts args := by
    rw [collect_rest]
    simp
  have hgives := @receive_gives L _ opts _ _ _ _ _ hstart hfuel
  rw [← hgoal]
  exact hgives

def someOptions : List (Opt Unit) :=
  [⟨some "keep".toList, .long (), false⟩, ⟨some "file".toList, .short 'F', true⟩,
    ⟨none, .short 'q', false⟩]

def someArguments : List Str :=
  ["rm".toList, "a".toList, "-qF".toList, "x".toList, "b".toList, "--keep".toList, "c".toList]

theorem receive_parses_moved :
    parse someOptions someArguments =
        some ([(.short 'q', none), (.short 'F', some "x".toList), (.long (), none)],
          ["rm".toList, "a".toList, "b".toList, "c".toList]) ∧
      (receive someOptions 30
        { getoptInit ("svn".toList :: someArguments) with interleave := true }).Gives
        (parse someOptions someArguments) ("svn".toList :: someArguments) :=
  ⟨by decide +kernel,
    @receive_parses _ _ someOptions "svn".toList someArguments 30 (by decide +kernel)⟩

end Refines

end SvnCurses.Getopt
