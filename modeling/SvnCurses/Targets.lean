import SvnCurses.Dirents
import SvnCurses.Getopt
import SvnCurses.Operands
import SvnCurses.StatusReport

namespace SvnCurses.Targets

open Cpp Getopt Dirents KeyEvent Operands StatusReport

section Options

/-- `svn_cl__longopt_t`. -/
inductive Longopt
  | authPassword | authPasswordFromStdin | authUsername | autoprops | changelist | configDir
  | configOptions | diffCmd | internalDiff | noDiffAdded | noDiffDeleted | showCopiesAsAdds
  | noticeAncestry | summarize | useGitDiffFormat | ignoreProperties | propertiesOnly
  | patchCompatible | dryRun | editorCmd | encoding | forceLog | force | keepChangelists
  | ignoreAncestry | ignoreExternals | incremental | mergeCmd | nativeEol | newCmd | noAuthCache
  | noAutoprops | noIgnore | noUnlock | nonInteractive | forceInteractive | oldCmd | recordOnly
  | relocate | remove | revprop | stopOnCopy | strict | targets | depth | setDepth | version | xml
  | keepLocal | withRevprop | withAllRevprops | withNoRevprops | parents | accept | showRevs
  | reintegrate | trustServerCert | trustServerCertFailures | strip | ignoreKeywords | reverseDiff
  | ignoreWhitespace | diff | allowMixedRevisions | includeExternals | showInheritedProps | search
  | searchAnd | mergeinfoLog | removeUnversioned | removeIgnored | removeAdded | noNewline
  | showPasswords | pinExternals | showItem | addsAsModification | vacuumPristines | drop
  | viewspec
  deriving DecidableEq

/-- `svn_cl__options`. -/
def svnClOptions : List (Opt Longopt) :=
  [⟨some "force".toList, .long .force, false⟩, ⟨some "force-log".toList, .long .forceLog, false⟩,
    ⟨some "help".toList, .short 'h', false⟩, ⟨none, .short '?', false⟩,
    ⟨some "message".toList, .short 'm', true⟩, ⟨some "quiet".toList, .short 'q', false⟩,
    ⟨some "recursive".toList, .short 'R', false⟩,
    ⟨some "non-recursive".toList, .short 'N', false⟩,
    ⟨some "human-readable".toList, .short 'H', false⟩, ⟨some "change".toList, .short 'c', true⟩,
    ⟨some "revision".toList, .short 'r', true⟩, ⟨some "file".toList, .short 'F', true⟩,
    ⟨some "incremental".toList, .long .incremental, false⟩,
    ⟨some "encoding".toList, .long .encoding, true⟩,
    ⟨some "version".toList, .long .version, false⟩, ⟨some "verbose".toList, .short 'v', false⟩,
    ⟨some "show-updates".toList, .short 'u', false⟩,
    ⟨some "username".toList, .long .authUsername, true⟩,
    ⟨some "password".toList, .long .authPassword, true⟩,
    ⟨some "password-from-stdin".toList, .long .authPasswordFromStdin, false⟩,
    ⟨some "extensions".toList, .short 'x', true⟩, ⟨some "targets".toList, .long .targets, true⟩,
    ⟨some "depth".toList, .long .depth, true⟩, ⟨some "set-depth".toList, .long .setDepth, true⟩,
    ⟨some "xml".toList, .long .xml, false⟩, ⟨some "strict".toList, .long .strict, false⟩,
    ⟨some "stop-on-copy".toList, .long .stopOnCopy, false⟩,
    ⟨some "no-ignore".toList, .long .noIgnore, false⟩,
    ⟨some "no-auth-cache".toList, .long .noAuthCache, false⟩,
    ⟨some "trust-server-cert".toList, .long .trustServerCert, false⟩,
    ⟨some "trust-server-cert-failures".toList, .long .trustServerCertFailures, true⟩,
    ⟨some "non-interactive".toList, .long .nonInteractive, false⟩,
    ⟨some "force-interactive".toList, .long .forceInteractive, false⟩,
    ⟨some "dry-run".toList, .long .dryRun, false⟩,
    ⟨some "ignore-ancestry".toList, .long .ignoreAncestry, false⟩,
    ⟨some "ignore-externals".toList, .long .ignoreExternals, false⟩,
    ⟨some "diff3-cmd".toList, .long .mergeCmd, true⟩,
    ⟨some "editor-cmd".toList, .long .editorCmd, true⟩,
    ⟨some "record-only".toList, .long .recordOnly, false⟩,
    ⟨some "old".toList, .long .oldCmd, true⟩, ⟨some "new".toList, .long .newCmd, true⟩,
    ⟨some "revprop".toList, .long .revprop, false⟩,
    ⟨some "relocate".toList, .long .relocate, false⟩,
    ⟨some "config-dir".toList, .long .configDir, true⟩,
    ⟨some "config-option".toList, .long .configOptions, true⟩,
    ⟨some "auto-props".toList, .long .autoprops, false⟩,
    ⟨some "no-auto-props".toList, .long .noAutoprops, false⟩,
    ⟨some "native-eol".toList, .long .nativeEol, true⟩, ⟨some "limit".toList, .short 'l', true⟩,
    ⟨some "no-unlock".toList, .long .noUnlock, false⟩,
    ⟨some "remove".toList, .long .remove, false⟩,
    ⟨some "changelist".toList, .long .changelist, true⟩,
    ⟨some "keep-changelists".toList, .long .keepChangelists, false⟩,
    ⟨some "keep-local".toList, .long .keepLocal, false⟩,
    ⟨some "with-all-revprops".toList, .long .withAllRevprops, false⟩,
    ⟨some "with-no-revprops".toList, .long .withNoRevprops, false⟩,
    ⟨some "with-revprop".toList, .long .withRevprop, true⟩,
    ⟨some "parents".toList, .long .parents, false⟩,
    ⟨some "use-merge-history".toList, .short 'g', false⟩,
    ⟨some "accept".toList, .long .accept, true⟩, ⟨some "show-revs".toList, .long .showRevs, true⟩,
    ⟨some "reintegrate".toList, .long .reintegrate, false⟩,
    ⟨some "strip".toList, .long .strip, true⟩,
    ⟨some "ignore-keywords".toList, .long .ignoreKeywords, false⟩,
    ⟨some "reverse-diff".toList, .long .reverseDiff, false⟩,
    ⟨some "ignore-whitespace".toList, .long .ignoreWhitespace, false⟩,
    ⟨some "diff".toList, .long .diff, false⟩, ⟨some "diff-cmd".toList, .long .diffCmd, true⟩,
    ⟨some "internal-diff".toList, .long .internalDiff, false⟩,
    ⟨some "no-diff-added".toList, .long .noDiffAdded, false⟩,
    ⟨some "no-diff-deleted".toList, .long .noDiffDeleted, false⟩,
    ⟨some "show-copies-as-adds".toList, .long .showCopiesAsAdds, false⟩,
    ⟨some "notice-ancestry".toList, .long .noticeAncestry, false⟩,
    ⟨some "summarize".toList, .long .summarize, false⟩,
    ⟨some "git".toList, .long .useGitDiffFormat, false⟩,
    ⟨some "ignore-properties".toList, .long .ignoreProperties, false⟩,
    ⟨some "properties-only".toList, .long .propertiesOnly, false⟩,
    ⟨some "patch-compatible".toList, .long .patchCompatible, false⟩,
    ⟨some "allow-mixed-revisions".toList, .long .allowMixedRevisions, false⟩,
    ⟨some "include-externals".toList, .long .includeExternals, false⟩,
    ⟨some "show-inherited-props".toList, .long .showInheritedProps, false⟩,
    ⟨some "search".toList, .long .search, true⟩,
    ⟨some "search-and".toList, .long .searchAnd, true⟩,
    ⟨some "log".toList, .long .mergeinfoLog, false⟩,
    ⟨some "remove-unversioned".toList, .long .removeUnversioned, false⟩,
    ⟨some "remove-ignored".toList, .long .removeIgnored, false⟩,
    ⟨some "remove-added".toList, .long .removeAdded, false⟩,
    ⟨some "no-newline".toList, .long .noNewline, false⟩,
    ⟨some "show-passwords".toList, .long .showPasswords, false⟩,
    ⟨some "pin-externals".toList, .long .pinExternals, false⟩,
    ⟨some "show-item".toList, .long .showItem, true⟩,
    ⟨some "adds-as-modification".toList, .long .addsAsModification, false⟩,
    ⟨some "vacuum-pristines".toList, .long .vacuumPristines, false⟩,
    ⟨some "drop".toList, .long .drop, false⟩, ⟨some "x-viewspec".toList, .long .viewspec, true⟩,
    ⟨some "cl".toList, .long .changelist, true⟩]

/-- Every name in the table finds its own option. -/
theorem options_named : ∀ o ∈ svnClOptions, ∀ name ∈ o.name,
    svnClOptions.find? (·.isNamed name) = some o := by
  decide +kernel

/-- The options of a command line and what is left of it. -/
def getoptAll (argv : List Str) : Outcome Longopt :=
  receive svnClOptions (todo [] argv + 1) { getoptInit argv with interleave := true }

end Options

section Arguments

/-- The errors of the arguments, each with the argument it names. -/
inductive ArgError
  | justPegRevision (target : Str)
  | resolvingCase (target : Str)
  | pegRevisionNotAllowed (target : Str)
  | notLocalPath (target : Str)
  | mixedTargets
  | unnecessaryLogMessage
  | insufficientArgs
  | library
  deriving DecidableEq

/-- What the arguments are looked up in. -/
structure Lookup where
  -- the longest path, with four characters for slashes
  pathMax : Nat
  canonicalizeUrl : Str → Except ArgError Str
  -- whether there is such a file or directory in the working copy
  knows : Str → Except ArgError Bool
  -- what a list with a path relative to the repository stands for
  resolveRelative : List Str → Except ArgError (List Str)
  -- the lines of a file of targets
  readTargets : Str → List Str

def isReposRelativeUrl (path : Str) : Bool := ['^', '/'] <+: path

/-- `svn_path_is_url`. -/
def isUrl (path : Str) : Bool :=
  let scheme := path.takeWhile (· ≠ ':')
  '/' ∉ scheme ∧ scheme ≠ [] ∧ "://".toList <+: path.drop scheme.length

/-- The peg revision is looked for from the end, and not past a slash. -/
def splitArgAtPegRevision (target : Str) : Str × Str :=
  let passed (c : Char) : Bool := c ≠ '/' ∧ c ≠ '@'
  match target.reverse.dropWhile passed with
  | '@' :: front => (front.reverse, '@' :: (target.reverse.takeWhile passed).reverse)
  | _ => (target, [])

/-- The target that an argument stands for, if its name is not reserved. -/
def targetOf (svn : Lookup) (arg : Str) : Except ArgError (Option Str) :=
  if isReposRelativeUrl arg then .ok (some arg)
  else
    let (trueTarget, pegRev) := splitArgAtPegRevision arg
    if trueTarget = [] ∧ pegRev ≠ [] then .error (.justPegRevision arg)
    else if isUrl trueTarget then do
      let url ← svn.canonicalizeUrl trueTarget
      return some (url ++ pegRev)
    else
      let original := canonicalize trueTarget
      match argCanonicalizePath svn.pathMax trueTarget with
      | none => .error (.resolvingCase trueTarget)
      | some path => do
          let known ← if original ≠ path then svn.knows original else .ok false
          let path := if known then original else path
          return if isAdmDir (svnDirentBasename path) then none else some (path ++ pegRev)

/-- `svn_cl__args_to_target_array_print_reserved`: reserved names are skipped. -/
def argsToTargetArray (svn : Lookup) (args knownTargets : List Str) :
    Except ArgError (List Str) := do
  let targets ← (args ++ knownTargets).mapM (targetOf svn)
  if (args ++ knownTargets).any isReposRelativeUrl then
    svn.resolveRelative (targets.filterMap id)
  else return targets.filterMap id

def eatPegRevision (target : Str) : Except ArgError Str :=
  let (trueTarget, peg) := splitArgAtPegRevision target
  if 2 ≤ peg.length then .error (.pegRevisionNotAllowed target) else .ok trueTarget

def eatPegRevisions (targets : List Str) : Except ArgError (List Str) := targets.mapM eatPegRevision

/-- The targets in the file of the last `--targets`. -/
def knownTargets (svn : Lookup) (received : List (Received Longopt)) : List Str :=
  match received.reverse.find? (·.1 = .long .targets) with
  | some (_, some file) => svn.readTargets file
  | _ => []

/-- The targets that `svn_cl__add` adds. -/
def svnClAdd (svn : Lookup) (received : List (Received Longopt)) (args : List Str) :
    Except ArgError (List Str) := do
  let targets ← argsToTargetArray svn args (knownTargets svn received)
  if targets = [] then .error .insufficientArgs
  else do
    let targets ← eatPegRevisions targets
    match targets.find? isUrl with
    | some target => .error (.notLocalPath target)
    | none => return targets

/-- The options that only a commit has a use for. -/
def logOptions : List (Code Longopt) := [.short 'm', .short 'F', .long .withRevprop]

/-- The targets that `svn_cl__delete` deletes. -/
def svnClDelete (svn : Lookup) (received : List (Received Longopt)) (args : List Str) :
    Except ArgError (List Str) := do
  let targets ← argsToTargetArray svn args (knownTargets svn received)
  if targets = [] then .error .insufficientArgs
  else if targets.any isUrl ∧ targets.any (!isUrl ·) then .error .mixedTargets
  else if ¬ targets.any isUrl ∧ received.any (·.1 ∈ logOptions) then .error .unnecessaryLogMessage
  else eatPegRevisions targets

/-- `svn_opt_subcommand_desc3_t`, without its help. -/
structure Subcommand where
  name : Str
  cmdFunc : Lookup → List (Received Longopt) → List Str → Except ArgError (List Str)
  aliases : List Str
  validOptions : List (Code Longopt)

def addSubcommand : Subcommand :=
  ⟨"add".toList, svnClAdd, [],
    [.long .targets, .short 'N', .long .depth, .short 'q', .long .force, .long .noIgnore,
      .long .autoprops, .long .noAutoprops, .long .parents]⟩

def deleteSubcommand : Subcommand :=
  ⟨"delete".toList, svnClDelete, ["del".toList, "remove".toList, "rm".toList],
    [.long .force, .short 'q', .long .targets, .short 'm', .short 'F', .long .forceLog,
      .long .editorCmd, .long .encoding, .long .withRevprop, .long .keepLocal]⟩

def globalOptions : List (Code Longopt) :=
  [.long .authUsername, .long .authPassword, .long .authPasswordFromStdin, .long .noAuthCache,
    .long .nonInteractive, .long .forceInteractive, .long .trustServerCert,
    .long .trustServerCertFailures, .long .configDir, .long .configOptions]

def getCanonicalSubcommand (table : List Subcommand) (cmdName : Str) : Option Subcommand :=
  table.find? fun command => cmdName = command.name ∨ cmdName ∈ command.aliases

def Subcommand.takesOption (command : Subcommand) (code : Code Longopt) : Bool :=
  code ∈ command.validOptions ∨ code ∈ globalOptions

/-- A command as it is carried out. -/
structure Invocation where
  name : Str
  received : List (Received Longopt)
  targets : List Str
  deriving DecidableEq

/-- The command that the first operand names, if it is `svn add` or `svn delete`. -/
def dispatch (svn : Lookup) (received : List (Received Longopt)) : List Str → Option Invocation
  | [] => none
  | first :: args =>
      -- help is shown instead
      if received.any (fun x => x.1 = .short 'h' ∨ x.1 = .short '?') then none
      else
        match getCanonicalSubcommand [addSubcommand, deleteSubcommand] first with
        | none => none
        | some command =>
            if received.all (command.takesOption ·.1) then
              match command.cmdFunc svn received args with
              | .ok targets => some ⟨command.name, received, targets⟩
              | .error _ => none
            else none

/-- What a command line makes `svn` do. -/
def carriedOut (svn : Lookup) (argv : List Str) : Option Invocation :=
  match getoptAll argv with
  | .done received os => dispatch svn received (os.argv.drop os.ind)
  | _ => none

end Arguments

section Pegs

variable {t d r : Str} {c : Char}

/-- The name at the end of a path. -/
def lastName (t : Str) : Str := (t.reverse.takeWhile (· ≠ '/')).reverse

theorem split_peg (hslash : '/' ∉ r) (hat : '@' ∉ r) :
    splitArgAtPegRevision (d ++ '@' :: r) = (d, '@' :: r) := by
  have hreverse : (d ++ '@' :: r).reverse = r.reverse ++ '@' :: d.reverse := by simp
  have hpass : ∀ c ∈ r.reverse, decide (c ≠ '/' ∧ c ≠ '@') = true := by
    intro c hc
    rw [List.mem_reverse] at hc
    exact decide_eq_true ⟨fun he => hslash (he ▸ hc), fun he => hat (he ▸ hc)⟩
  simp only [splitArgAtPegRevision, hreverse, List.takeWhile_append_of_pos hpass,
    List.dropWhile_append_of_pos hpass]
  simp

theorem mem_lastName_peg (hslash : '/' ∉ r) : '@' ∈ lastName (d ++ '@' :: r) := by
  have hreverse : (d ++ '@' :: r).reverse = (r.reverse ++ ['@']) ++ d.reverse := by simp
  have hpass : ∀ c ∈ r.reverse ++ ['@'], decide (c ≠ '/') = true := by
    intro c hc
    obtain hc | hc := List.mem_append.mp hc
    · rw [List.mem_reverse] at hc
      exact decide_eq_true fun he => hslash (he ▸ hc)
    · rw [List.mem_singleton.mp hc]
      decide
  rw [lastName, List.mem_reverse, hreverse, List.takeWhile_append_of_pos hpass]
  simp

/-- Only a name with an `@` in it has a peg revision. -/
theorem split_cases (t : Str) :
    ('@' ∉ lastName t ∧ splitArgAtPegRevision t = (t, [])) ∨
      ∃ d r, t = d ++ '@' :: r ∧ '/' ∉ r ∧ '@' ∉ r := by
  obtain ⟨passed, hpassed⟩ : ∃ passed : Char → Bool, passed = fun c => c ≠ '/' ∧ c ≠ '@' :=
    ⟨_, rfl⟩
  have hall : ∀ c ∈ t.reverse.takeWhile passed, c ≠ '/' ∧ c ≠ '@' := by
    intro c hc
    have hpass := List.all_eq_true.mp List.all_takeWhile c hc
    rw [hpassed] at hpass
    exact of_decide_eq_true hpass
  have hsplit : t.reverse.takeWhile passed ++ t.reverse.dropWhile passed = t.reverse :=
    List.takeWhile_append_dropWhile
  have hname : ∀ rest, t.reverse.dropWhile passed = rest → rest.takeWhile (· ≠ '/') = [] →
      '@' ∉ lastName t := by
    intro rest hrest hnone hmem
    have hpass : ∀ c ∈ t.reverse.takeWhile passed, decide (c ≠ '/') = true :=
      fun c hc => decide_eq_true (hall c hc).1
    rw [lastName, List.mem_reverse, ← hsplit, hrest, List.takeWhile_append_of_pos hpass, hnone,
      List.append_nil] at hmem
    exact (hall _ hmem).2 rfl
  have hpeg : splitArgAtPegRevision t = match t.reverse.dropWhile passed with
      | '@' :: front => (front.reverse, '@' :: (t.reverse.takeWhile passed).reverse)
      | _ => (t, []) := by
    rw [hpassed]
    rfl
  cases hrest : t.reverse.dropWhile passed with
  | nil => exact .inl ⟨hname [] hrest rfl, by rw [hpeg, hrest]⟩
  | cons c front =>
    by_cases hat : c = '@'
    · subst hat
      refine .inr ⟨front.reverse, (t.reverse.takeWhile passed).reverse, ?_, ?_, ?_⟩
      · have ht := congrArg List.reverse hsplit
        rw [hrest, List.reverse_reverse] at ht
        refine ht.symm.trans ?_
        rw [List.reverse_append, List.reverse_cons, List.append_assoc, List.singleton_append]
      · exact fun hmem => (hall _ (List.mem_reverse.mp hmem)).1 rfl
      · exact fun hmem => (hall _ (List.mem_reverse.mp hmem)).2 rfl
    · have hc : c = '/' := by
        have hhead := List.head?_dropWhile_not passed t.reverse
        rw [hrest, hpassed] at hhead
        simpa [hat] using hhead
      left
      refine ⟨hname _ hrest (by simp [hc]), ?_⟩
      rw [hpeg, hrest]
      split
      · next he =>
        exact absurd (List.cons.inj he).1 hat
      · rfl

end Pegs

section Settled

variable {α β ε : Type} {svn : Lookup} {p t d r : Str}

/-- A path inside the working copy, as `svn` prints it. -/
structure Relpath (svn : Lookup) (p : Str) : Prop where
  canonical : relpathIsCanonical p = true
  inside : "..".toList ∉ split p '/'
  short : (svnDirentLocalStyle p).length + 4 ≤ svn.pathMax
  -- no file under a directory of the name `^`
  notRelative : isReposRelativeUrl p = false

instance (svn : Lookup) (p : Str) : Decidable (Relpath svn p) :=
  decidable_of_iff (relpathIsCanonical p = true ∧ "..".toList ∉ split p '/' ∧
      (svnDirentLocalStyle p).length + 4 ≤ svn.pathMax ∧ isReposRelativeUrl p = false)
    ⟨fun ⟨h₁, h₂, h₃, h₄⟩ => ⟨h₁, h₂, h₃, h₄⟩, fun ⟨h₁, h₂, h₃, h₄⟩ => ⟨h₁, h₂, h₃, h₄⟩⟩

/-- A path that stands for itself as an argument. -/
def standsForItself (p : Str) : Bool :=
  isDashed p = false ∧ '@' ∉ lastName p ∧ ¬ isAdmDir (lastName p)

theorem slashes_of_isUrl (h : isUrl t = true) : ['/', '/'] <:+: t := by
  simp only [isUrl, Bool.decide_and, Bool.and_eq_true, decide_eq_true_eq] at h
  obtain ⟨_, _, rest, hrest⟩ := h
  refine ⟨t.take (t.takeWhile (· ≠ ':')).length ++ [':'], rest, ?_⟩
  calc t.take (t.takeWhile (· ≠ ':')).length ++ [':'] ++ ['/', '/'] ++ rest
      = t.take (t.takeWhile (· ≠ ':')).length ++ ("://".toList ++ rest) := by simp
    _ = t := by rw [hrest, List.take_append_drop]

theorem Relpath.noSlashes (h : Relpath svn p) : ¬ ['/', '/'] <:+: p := by
  intro hslash
  obtain rfl | hall := relpathIsCanonical_iff.mp h.canonical
  · exact absurd (List.infix_nil.mp hslash) (by simp)
  · refine hall [] (mem_split_iff.mpr ⟨by simp, ?_⟩) rfl
    exact hslash.trans ⟨['/'], ['/'], by simp⟩

theorem Relpath.notUrl (h : Relpath svn p) (hd : d <+: p) : isUrl d = false :=
  Bool.eq_false_iff.mpr fun hurl => h.noSlashes ((slashes_of_isUrl hurl).trans hd.isInfix)

theorem Relpath.head (h : Relpath svn p) : p.head? ≠ some '/' := by
  rw [← inter_kept_iff.mpr h.canonical]
  exact kept_noSlash p

theorem Relpath.canonicalize (h : Relpath svn p) : canonicalize p = p := by
  rw [canonicalize_kept, if_neg h.head, inter_kept_iff.mpr h.canonical]

theorem Relpath.argCanonicalizePath (h : Relpath svn p) (hp : p ≠ []) :
    argCanonicalizePath svn.pathMax p = some p := by
  have hshort := h.short
  rw [svnDirentLocalStyle, if_neg hp] at hshort
  rw [argCanonicalizePath_relative h.head h.inside hshort, inter_kept_iff.mpr h.canonical]

theorem Relpath.basename (h : Relpath svn p) : svnDirentBasename p = lastName p := by
  refine if_neg fun hp => h.head ?_
  rw [hp]
  rfl

/-- An argument that is spelled as its target needs no lookup. -/
theorem targetOf_spelled (hrel : isReposRelativeUrl t = false)
    (hsplit : splitArgAtPegRevision t = (t, [])) (hurl : isUrl t = false)
    (hspelled : canonicalize t = p) (hpath : argCanonicalizePath svn.pathMax t = some p) :
    targetOf svn t = .ok (if isAdmDir (svnDirentBasename p) then none else some p) := by
  simp only [targetOf, hrel, hsplit, hurl, hspelled, hpath]
  simp [bind, Except.bind, pure, Except.pure]

/-- Without a peg revision the target is the path. -/
theorem targetOf_path (h : Relpath svn p) (hpeg : '@' ∉ lastName p) :
    targetOf svn (svnDirentLocalStyle p) =
      .ok (if isAdmDir (lastName p) then none else some p) := by
  rw [← h.basename]
  by_cases hp : p = []
  · subst hp
    have hhere : argCanonicalizePath svn.pathMax ['.'] = some [] :=
      argCanonicalizePath_relative (by decide) (by decide) h.short
    exact targetOf_spelled (by decide) (by decide) (by decide) (by decide) hhere
  · have hsplit : splitArgAtPegRevision p = (p, []) := by
      obtain ⟨_, hsplit⟩ | ⟨d, r, rfl, hslash, _⟩ := split_cases p
      · exact hsplit
      · exact absurd (mem_lastName_peg hslash) hpeg
    rw [svnDirentLocalStyle, if_neg hp]
    exact targetOf_spelled h.notRelative hsplit (h.notUrl List.prefix_rfl) h.canonicalize
      (h.argCanonicalizePath hp)

/-- The path before a peg revision gains no `@`. -/
theorem targetOf_peg (hurl : isUrl d = false) (hrel : isReposRelativeUrl (d ++ '@' :: r) = false)
    (hslash : '/' ∉ r) (hat : '@' ∉ r) (ht : targetOf svn (d ++ '@' :: r) = .ok (some t)) :
    ∃ path, t = path ++ '@' :: r ∧ path.count '@' ≤ d.count '@' := by
  have hchosen : ∀ {known : Bool} {path : Str}, argCanonicalizePath svn.pathMax d = some path →
      (if known = true then Dirents.canonicalize d else path).count '@' ≤ d.count '@' := by
    intro known path hpath
    cases known
    · exact count_argCanonicalizePath_le (by decide) (by decide) hpath
    · exact count_canonicalize_le (by decide)
  simp only [targetOf, hrel, split_peg hslash hat, hurl, Bool.false_eq_true, if_false] at ht
  split at ht
  · cases ht
  · cases hpath : Dirents.argCanonicalizePath svn.pathMax d with
    | none =>
      rw [hpath] at ht
      cases ht
    | some path =>
      rw [hpath] at ht
      obtain ⟨known, ht⟩ : ∃ known : Bool, (if isAdmDir (svnDirentBasename
          (if known = true then Dirents.canonicalize d else path)) = true then none else
          some ((if known = true then Dirents.canonicalize d else path) ++ '@' :: r)) = some t := by
        dsimp only at ht
        split at ht
        · obtain ⟨known, _, ht⟩ := bind_ok.mp ht
          exact ⟨known, Except.ok.inj ht⟩
        · exact ⟨false, Except.ok.inj ht⟩
      rw [Option.ite_none_left_eq_some] at ht
      exact ⟨_, (Option.some.inj ht.2).symm, hchosen hpath⟩

/-- Just the paths with a plain name are settled on as they are. -/
theorem settled_iff (h : Relpath svn p) :
    (∃ t, targetOf svn (svnDirentLocalStyle p) = .ok (some t) ∧ eatPegRevision t = .ok p) ↔
      '@' ∉ lastName p ∧ ¬ isAdmDir (lastName p) = true := by
  constructor
  · rintro ⟨t, ht, heat⟩
    obtain ⟨hpeg, hsplit⟩ | ⟨d, r, rfl, hslash, hat⟩ := split_cases p
    · refine ⟨hpeg, fun hadm => ?_⟩
      rw [targetOf_path h hpeg, if_pos hadm] at ht
      cases ht
    · have hne : d ++ '@' :: r ≠ [] := by simp
      rw [svnDirentLocalStyle, if_neg hne] at ht
      obtain ⟨path, rfl, hcount⟩ :=
        targetOf_peg (h.notUrl (List.prefix_append d _)) h.notRelative hslash hat ht
      simp only [eatPegRevision, split_peg hslash hat] at heat
      split at heat
      · cases heat
      · obtain rfl : path = d ++ '@' :: r := Except.ok.inj heat
        -- the argument has one more `@` than the path that is left of it
        rw [List.count_append, List.count_cons_self] at hcount
        omega
  · rintro ⟨hpeg, hadm⟩
    refine ⟨p, by rw [targetOf_path h hpeg, if_neg hadm], ?_⟩
    obtain ⟨_, hsplit⟩ | ⟨d, r, rfl, hslash, _⟩ := split_cases p
    · rw [eatPegRevision, hsplit]
      rfl
    · exact absurd (mem_lastName_peg hslash) hpeg

theorem mapM_ok {f : α → Except ε β} {xs : List α} {ys : List β} :
    xs.mapM f = .ok ys ↔ List.Forall₂ (fun x y => f x = .ok y) xs ys := by
  induction xs generalizing ys with
  | nil =>
    rw [List.mapM_nil, List.forall₂_nil_left_iff]
    constructor
    · intro h
      cases h
      rfl
    · rintro rfl
      rfl
  | cons x xs ih =>
    rw [List.mapM_cons, List.forall₂_cons_left_iff]
    constructor
    · intro h
      obtain ⟨y, hy, h⟩ := bind_ok.mp h
      obtain ⟨rest, hrest, h⟩ := bind_ok.mp h
      exact ⟨y, rest, hy, ih.mp hrest, (Except.ok.inj h).symm⟩
    · rintro ⟨y, rest, hy, hrest, rfl⟩
      exact bind_ok.mpr ⟨y, hy, bind_ok.mpr ⟨rest, ih.mpr hrest, rfl⟩⟩

/-- If no target was skipped, each argument has its own. -/
theorem all_targets {targets : List (Option Str)}
    (h : (targets.filterMap id).length = targets.length) :
    targets = (targets.filterMap id).map some := by
  induction targets with
  | nil => rfl
  | cons target targets ih =>
    cases target with
    | none =>
      have hless := List.length_filterMap_le id targets
      rw [List.filterMap_cons_none rfl, List.length_cons] at h
      omega
    | some t =>
      have hfirst : (some t :: targets).filterMap id = t :: targets.filterMap id := rfl
      rw [hfirst, List.length_cons, List.length_cons] at h
      rw [hfirst, List.map_cons, ← ih (by omega)]

theorem each_way {R : α → β → Prop} {S : β → α → Prop} {xs : List α} {ys : List β}
    (h : List.Forall₂ R xs ys) (h' : List.Forall₂ S ys xs) : ∀ x ∈ xs, ∃ y, R x y ∧ S y x := by
  induction h with
  | nil => exact fun x hx => absurd hx List.not_mem_nil
  | cons hr _ ih =>
    cases h' with
    | cons hs h' => exact List.forall_mem_cons.mpr ⟨⟨_, hr, hs⟩, ih h'⟩

end Settled

section Lists

variable {svn : Lookup} {p : Str} {args paths ts : List Str}

def asArguments (paths : List Str) : List Str := paths.map svnDirentLocalStyle

theorem asArguments_relative (h : ∀ p ∈ paths, Relpath svn p) :
    (asArguments paths).any isReposRelativeUrl = false := by
  rw [List.any_eq_false]
  intro arg harg
  obtain ⟨p, hp, rfl⟩ := List.mem_map.mp harg
  rw [svnDirentLocalStyle]
  split
  · decide
  · rw [(h p hp).notRelative]
    decide

theorem argsToTargetArray_ok (hrel : args.any isReposRelativeUrl = false) :
    argsToTargetArray svn args [] = .ok ts ↔
      ∃ targets, args.mapM (targetOf svn) = .ok targets ∧ targets.filterMap id = ts := by
  rw [argsToTargetArray, List.append_nil, bind_ok]
  refine exists_congr fun targets => and_congr_right fun _ => ?_
  rw [hrel]
  exact ⟨Except.ok.inj, congrArg _⟩

/-- No command has more targets than operands. -/
theorem targets_length (hrel : args.any isReposRelativeUrl = false)
    (hts : argsToTargetArray svn args [] = .ok ts) (heat : eatPegRevisions ts = .ok paths) :
    paths.length ≤ args.length := by
  obtain ⟨targets, htargets, rfl⟩ := (argsToTargetArray_ok hrel).mp hts
  rw [← (mapM_ok.mp heat).length_eq, (mapM_ok.mp htargets).length_eq]
  exact List.length_filterMap_le id targets

/-- There are no more targets than arguments, and if there are as many then each
of them is the target of its argument. -/
theorem targets_settled (h : ∀ p ∈ paths, Relpath svn p)
    (hts : argsToTargetArray svn (asArguments paths) [] = .ok ts)
    (heat : eatPegRevisions ts = .ok paths) : ∀ p ∈ paths, ∃ t,
      targetOf svn (svnDirentLocalStyle p) = .ok (some t) ∧ eatPegRevision t = .ok p := by
  obtain ⟨targets, htargets, rfl⟩ := (argsToTargetArray_ok (asArguments_relative h)).mp hts
  have hall := mapM_ok.mp htargets
  have hpaths := mapM_ok.mp heat
  have hlength : (targets.filterMap id).length = targets.length := by
    rw [hpaths.length_eq, ← hall.length_eq, asArguments, List.length_map]
  rw [all_targets hlength, asArguments, List.forall₂_map_left_iff,
    List.forall₂_map_right_iff] at hall
  exact each_way hall hpaths

theorem targets_of_settled (h : ∀ p ∈ paths, Relpath svn p)
    (hplain : ∀ p ∈ paths, '@' ∉ lastName p ∧ ¬ isAdmDir (lastName p) = true) :
    argsToTargetArray svn (asArguments paths) [] = .ok paths ∧
      eatPegRevisions paths = .ok paths := by
  have hsettled : ∀ p ∈ paths, targetOf svn (svnDirentLocalStyle p) = .ok (some p) ∧
      eatPegRevision p = .ok p := by
    intro p hp
    obtain ⟨hpeg, hadm⟩ := hplain p hp
    have ht : targetOf svn (svnDirentLocalStyle p) = .ok (some p) := by
      rw [targetOf_path (h p hp) hpeg, if_neg hadm]
    obtain ⟨t, ht', heat⟩ := (settled_iff (h p hp)).mpr (hplain p hp)
    obtain rfl : p = t := Option.some.inj (Except.ok.inj (ht.symm.trans ht'))
    exact ⟨ht, heat⟩
  constructor
  · have htargets : (asArguments paths).mapM (targetOf svn) = .ok (paths.map some) := by
      rw [mapM_ok, asArguments, List.forall₂_map_left_iff, List.forall₂_map_right_iff,
        List.forall₂_same]
      exact fun p hp => (hsettled p hp).1
    exact (argsToTargetArray_ok (asArguments_relative h)).mpr
      ⟨_, htargets, by simp [List.filterMap_map]⟩
  · exact mapM_ok.mpr (List.forall₂_same.mpr fun p hp => (hsettled p hp).2)

end Lists

section Commands

variable {svn : Lookup} {command : Subcommand} {given received : List (Received Longopt)}
  {first name : Str} {argv args paths ts flags : List Str}

/-- What is carried out, for the options and operands of the command line. -/
theorem carriedOut_parse : carriedOut svn (name :: args) =
    (parse svnClOptions args).bind fun x => dispatch svn x.1 x.2 := by
  have hstart : Taking { getoptInit (name :: args) with interleave := true } [name] [] [] args :=
    ⟨rfl, rfl, rfl, rfl, rfl⟩
  have hfuel : todo [] args < todo [] (name :: args) + 1 := by
    simp only [todo, List.map_cons, List.sum_cons]
    omega
  have hgives := @receive_gives _ _ svnClOptions _ _ _ _ _ hstart hfuel
  have hgoal : collect svnClOptions [] (run svnClOptions []) args = parse svnClOptions args := by
    rw [collect_rest]
    simp
  have hparse : (getoptAll (name :: args)).Gives (parse svnClOptions args) (name :: args) := by
    rw [← hgoal]
    exact hgives
  rw [carriedOut]
  cases hall : getoptAll (name :: args) with
  | done received os =>
    rw [hall] at hparse
    rw [hparse.1]
    rfl
  | help =>
    rw [hall] at hparse
    rw [show parse svnClOptions args = none from hparse]
    rfl
  | unfinished =>
    rw [hall] at hparse
    exact hparse.elim

/-- What a command does with options that give it no targets. -/
structure Bare (svn : Lookup) (command : Subcommand) (given : List (Received Longopt)) : Prop where
  noHelp : given.any (fun x => x.1 = .short 'h' ∨ x.1 = .short '?') = false
  taken : given.all (command.takesOption ·.1) = true
  settles : ∀ {args paths}, command.cmdFunc svn given args = .ok paths →
    ∃ ts, argsToTargetArray svn args [] = .ok ts ∧ eatPegRevisions ts = .ok paths
  carries : ∀ {args paths}, paths ≠ [] → (∀ p ∈ paths, isUrl p = false) →
    argsToTargetArray svn args [] = .ok paths → eatPegRevisions paths = .ok paths →
      command.cmdFunc svn given args = .ok paths

theorem add_bare : Bare svn addSubcommand [] := by
  refine ⟨rfl, rfl, fun {args paths} h => ?_, fun {args paths} hne hlocal hts heat => ?_⟩
  · obtain ⟨ts, hts, h⟩ := bind_ok.mp h
    refine ⟨ts, hts, ?_⟩
    split at h
    · cases h
    · obtain ⟨eaten, heat, h⟩ := bind_ok.mp h
      rw [heat]
      split at h
      · cases h
      · exact h
  · refine bind_ok.mpr ⟨paths, hts, ?_⟩
    rw [if_neg hne]
    refine bind_ok.mpr ⟨paths, heat, ?_⟩
    rw [List.find?_eq_none.mpr fun p hp => by rw [hlocal p hp]; decide]
    rfl

theorem delete_bare (hgiven : given = [] ∨ given = [(.long .keepLocal, none)]) :
    Bare svn deleteSubcommand given := by
  obtain ⟨hhelp, htaken, hknown, hlog⟩ :
      given.any (fun x => x.1 = .short 'h' ∨ x.1 = .short '?') = false ∧
        given.all (deleteSubcommand.takesOption ·.1) = true ∧ knownTargets svn given = [] ∧
        given.any (·.1 ∈ logOptions) = false := by
    obtain rfl | rfl := hgiven
    · exact ⟨by decide, by decide, rfl, by decide⟩
    · exact ⟨by decide, by decide, rfl, by decide⟩
  refine ⟨hhelp, htaken, fun {args paths} h => ?_, fun {args paths} hne hlocal hts heat => ?_⟩
  · obtain ⟨ts, hts, h⟩ := bind_ok.mp h
    rw [hknown] at hts
    refine ⟨ts, hts, ?_⟩
    split at h
    · cases h
    · split at h
      · cases h
      · split at h
        · cases h
        · exact h
  · have hurl : paths.any isUrl = false :=
      List.any_eq_false.mpr fun p hp => by rw [hlocal p hp]; decide
    refine bind_ok.mpr ⟨paths, hknown ▸ hts, ?_⟩
    rw [if_neg hne, hurl, hlog]
    exact heat

theorem dispatch_some {inv : Invocation}
    (hcommand : getCanonicalSubcommand [addSubcommand, deleteSubcommand] first = some command)
    (h : dispatch svn received (first :: args) = some inv) :
    inv.received = received ∧ command.cmdFunc svn received args = .ok inv.targets := by
  simp only [dispatch, hcommand] at h
  split at h
  · cases h
  · split at h
    · split at h
      · next hok =>
        cases h
        exact ⟨rfl, hok⟩
      · cases h
    · cases h

theorem dispatch_bare (hbare : Bare svn command given)
    (hcommand : getCanonicalSubcommand [addSubcommand, deleteSubcommand] first = some command)
    (hfunc : command.cmdFunc svn given args = .ok paths) :
    dispatch svn given (first :: args) = some ⟨command.name, given, paths⟩ := by
  simp only [dispatch, hbare.noHelp, hcommand, hbare.taken, hfunc]
  rfl

theorem isDashed_argument (p : Str) : isDashed (svnDirentLocalStyle p) = isDashed p := by
  cases p <;> rfl

/-- A command line with just one command and its flags before the paths. -/
theorem carriedOut_iff (hbare : Bare svn command given) (hfirst : isDashed first = false)
    (hcommand : getCanonicalSubcommand [addSubcommand, deleteSubcommand] first = some command)
    (hflags : ∀ ws, parse svnClOptions (flags ++ ws) =
      (parse svnClOptions ws).map fun x => (given ++ x.1, x.2))
    (hne : paths ≠ []) (h : ∀ p ∈ paths, Relpath svn p) :
    carriedOut svn (name :: first :: (flags ++ asArguments paths)) =
        some ⟨command.name, given, paths⟩ ↔ ∀ p ∈ paths, standsForItself p = true := by
  have hparse : parse svnClOptions (first :: (flags ++ asArguments paths)) =
      (parse svnClOptions (asArguments paths)).map fun x => (given ++ x.1, first :: x.2) := by
    have hoperand := @parse_operands _ _ svnClOptions [first] (by simpa using hfirst)
      (flags ++ asArguments paths)
    rw [List.singleton_append, hflags] at hoperand
    rw [hoperand, Option.map_map]
    rfl
  rw [carriedOut_parse, hparse]
  constructor
  · intro hdone
    obtain ⟨_, hmap, hdispatch⟩ := Option.bind_eq_some_iff.mp hdone
    obtain ⟨⟨received, operands⟩, hx, rfl⟩ := Option.map_eq_some_iff.mp hmap
    obtain ⟨hgiven, hfunc⟩ := dispatch_some hcommand hdispatch
    rw [← hgiven] at hfunc
    obtain ⟨ts, hts, heat⟩ := hbare.settles hfunc
    obtain ⟨hsub, hdash⟩ := parse_sublist hx
    have hrel : operands.any isReposRelativeUrl = false := by
      refine List.any_eq_false.mpr fun arg harg => ?_
      exact List.any_eq_false.mp (asArguments_relative h) arg (hsub.subset harg)
    have hall : operands = asArguments paths := by
      refine hsub.eq_of_length_le ?_
      rw [asArguments, List.length_map]
      exact targets_length hrel hts heat
    rw [hall] at hts
    intro p hp
    have hplain : isDashed p = false := by
      rw [← isDashed_argument]
      exact hdash hall _ (List.mem_map_of_mem hp)
    have hsettled := (settled_iff (h p hp)).mp (targets_settled h hts heat p hp)
    exact decide_eq_true ⟨hplain, hsettled⟩
  · intro hplain
    have hall : ∀ p ∈ paths, isDashed p = false ∧ '@' ∉ lastName p ∧
        ¬ isAdmDir (lastName p) = true := fun p hp => of_decide_eq_true (hplain p hp)
    have hdash : ∀ arg ∈ asArguments paths, isDashed arg = false := by
      intro arg harg
      obtain ⟨p, hp, rfl⟩ := List.mem_map.mp harg
      rw [isDashed_argument]
      exact (hall p hp).1
    have hoperands := @parse_operands _ _ svnClOptions _ hdash []
    rw [List.append_nil] at hoperands
    obtain ⟨hts, heat⟩ := targets_of_settled h fun p hp => (hall p hp).2
    have hfunc := hbare.carries hne (fun p hp => (h p hp).notUrl List.prefix_rfl) hts heat
    rw [hoperands, parse, Option.map_some, Option.map_some, Option.bind_some, List.append_nil,
      List.append_nil]
    exact dispatch_bare hbare hcommand hfunc

/-- The verbs of the program, with the command and the options they are for `svn`. -/
inductive Verb : List Str → Str → List (Received Longopt) → Prop
  | add : Verb addVerb "add".toList []
  | delete k : Verb (removeVerb k) "delete".toList
      (if k = key 'y' then [(.long .keepLocal, none)] else [])

theorem verb_iff {verb : List Str} (hverb : Verb verb name given) (hne : paths ≠ [])
    (h : ∀ p ∈ paths, Relpath svn p) :
    carriedOut svn (verb ++ asArguments paths) = some ⟨name, given, paths⟩ ↔
      ∀ p ∈ paths, standsForItself p = true := by
  have hnone : ∀ ws, parse svnClOptions ([] ++ ws) =
      (parse svnClOptions ws).map fun x => ([] ++ x.1, x.2) := by simp
  have hkeep : ∀ ws, parse svnClOptions (["--keep-local".toList] ++ ws) =
      (parse svnClOptions ws).map fun x => ([(.long .keepLocal, none)] ++ x.1, x.2) := by
    intro ws
    have hkind : kindOf svnClOptions "--keep-local".toList =
        .options [(.long .keepLocal, none)] none := by decide +kernel
    rw [List.singleton_append, parse_dashed (by rw [hkind]; simp), hkind]
    rfl
  cases hverb with
  | add => exact carriedOut_iff add_bare (by decide) rfl hnone hne h
  | delete k =>
    by_cases hk : k = key 'y'
    · rw [removeVerb, if_pos hk, if_pos hk]
      exact carriedOut_iff (delete_bare (.inr rfl)) (by decide) rfl hkeep hne h
    · rw [removeVerb, if_neg hk, if_neg hk]
      exact carriedOut_iff (delete_bare (.inl rfl)) (by decide) rfl hnone hne h

/-- Of paths in the working copy, the commands take just these for their targets:
those that do not look like an option, that have no `@` in their name and that are
not the directory of the working copy itself. -/
theorem targets_exact (hne : paths ≠ []) (h : ∀ p ∈ paths, Relpath svn p) :
    (carriedOut svn (addVerb ++ asArguments paths) = some ⟨"add".toList, [], paths⟩ ↔
        ∀ p ∈ paths, standsForItself p = true) ∧
      ∀ k, carriedOut svn (removeVerb k ++ asArguments paths) =
          some ⟨"delete".toList, if k = key 'y' then [(.long .keepLocal, none)] else [], paths⟩ ↔
        ∀ p ∈ paths, standsForItself p = true :=
  ⟨verb_iff .add hne h, fun k => verb_iff (.delete k) hne h⟩

def plainLookup : Lookup := ⟨4096, .ok, fun _ => .ok false, .ok, fun _ => []⟩

theorem targets_exact_tree :
    carriedOut plainLookup (addVerb ++ asArguments ["src/a.c".toList, [], "b@2/c".toList]) =
        some ⟨"add".toList, [], ["src/a.c".toList, [], "b@2/c".toList]⟩ ∧
      ¬ carriedOut plainLookup (removeVerb (key 'y') ++ asArguments ["-q".toList]) =
        some ⟨"delete".toList, [(.long .keepLocal, none)], ["-q".toList]⟩ := by
  refine ⟨(targets_exact (by decide) (by decide +kernel)).1.mpr (by decide), fun hdone => ?_⟩
  have hplain := ((targets_exact (by decide) (by decide +kernel)).2 (key 'y')).mp hdone
  exact absurd (hplain "-q".toList (by simp)) (by decide)

end Commands

end SvnCurses.Targets
