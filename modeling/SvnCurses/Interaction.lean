import Mathlib.Data.List.Basic

namespace SvnCurses.Interaction

/-- A program that talks to its environment. It says things that need no answer,
asks questions whose answers the environment chooses, and ends with a value or
stops for a reason of its own. -/
inductive Program (Q : Type) (A : Q → Type) (O F α : Type) : Type
  | done (a : α)
  | stop (f : F)
  | say (o : O) (next : Program Q A O F α)
  | ask (q : Q) (next : A q → Program Q A O F α)

variable {Q : Type} {A : Q → Type} {O F α β σ ω : Type}

def bind (p : Program Q A O F α) (f : α → Program Q A O F β) : Program Q A O F β :=
  match p with
  | .done a => f a
  | .stop e => .stop e
  | .say o next => .say o (bind next f)
  | .ask q next => .ask q (fun a => bind (next a) f)

instance : Monad (Program Q A O F) where
  pure := .done
  bind := bind

theorem bind_assoc {γ : Type} (p : Program Q A O F α) (f : α → Program Q A O F β)
    (g : β → Program Q A O F γ) : (p >>= f) >>= g = p >>= fun a => f a >>= g := by
  change bind (bind p f) g = bind p fun a => bind (f a) g
  induction p with
  | done a | stop e => rfl
  | say o next ih => exact congrArg (Program.say o) ih
  | ask q next ih => exact congrArg (Program.ask q) (funext ih)

/-- The exchanges with the environment so far, oldest first. -/
abbrev Trace (A : Q → Type) := List (Sigma A)

/-- What a program may ask, say and stop with, given the exchanges before. -/
structure Contract (A : Q → Type) (O F : Type) where
  asks : Trace A → Q → Prop
  tells : Trace A → O → Prop
  stops : Trace A → F → Prop

/-- Every way through the program from the given history keeps the contract and
ends in a value that satisfies the postcondition, when the environment only
gives answers that `env` allows. -/
def Safe (env : ∀ q, A q → Prop) (C : Contract A O F) (post : Trace A → α → Prop) :
    Program Q A O F α → Trace A → Prop
  | .done a, tr => post tr a
  | .stop f, tr => C.stops tr f
  | .say o next, tr => C.tells tr o ∧ Safe env C post next tr
  | .ask q next, tr =>
      C.asks tr q ∧ ∀ a, env q a → Safe env C post (next a) (tr ++ [⟨q, a⟩])

section Rules

variable {env : ∀ q, A q → Prop} {C : Contract A O F} {post : Trace A → α → Prop}
  {goal : Trace A → β → Prop}

theorem Safe.bind {p : Program Q A O F α} {tr : Trace A} {f : α → Program Q A O F β}
    (h : Safe env C post p tr) (hf : ∀ tr a, post tr a → Safe env C goal (f a) tr) :
    Safe env C goal (p >>= f) tr := by
  induction p generalizing tr with
  | done a => exact hf tr a h
  | stop e => exact h
  | say o next ih => exact ⟨h.1, ih h.2⟩
  | ask q next ih => exact ⟨h.1, fun a ha => ih a (h.2 a ha)⟩

end Rules

/-- The configurations of a loop: `start` runs first, then `body` is repeated
while the state is `running`. A configuration is the program still to run. -/
inductive Reaches (env : ∀ q, A q → Prop) (body : σ → Program Q A O F σ) (running : σ → Prop)
    (start : Program Q A O F σ) : Trace A → Program Q A O F σ → Prop
  | start : Reaches env body running start [] start
  | say {tr o next} : Reaches env body running start tr (.say o next) →
      Reaches env body running start tr next
  | answer {tr q next a} : Reaches env body running start tr (.ask q next) → env q a →
      Reaches env body running start (tr ++ [⟨q, a⟩]) (next a)
  | again {tr s} : Reaches env body running start tr (.done s) → running s →
      Reaches env body running start tr (body s)

section Loop

variable {env env' : ∀ q, A q → Prop} {body : σ → Program Q A O F σ} {running : σ → Prop}
  {start p : Program Q A O F σ} {tr : Trace A} {s : σ}

/-- The invariant rule. One round of the body is all that has to be checked. -/
theorem reaches_safe {C : Contract A O F} {inv : Trace A → σ → Prop}
    (hstart : Safe env C inv start [])
    (hbody : ∀ tr s, inv tr s → running s → Safe env C inv (body s) tr)
    (h : Reaches env body running start tr p) : Safe env C inv p tr := by
  induction h with
  | start => exact hstart
  | say _ ih => exact ih.2
  | answer _ ha ih => exact ih.2 _ ha
  | again _ hs ih => exact hbody _ _ ih hs

/-- Each exchange of a run was made from a configuration the run passed through. -/
theorem reaches_exchange (h : Reaches env body running start tr p) {past later : Trace A} {q : Q}
    {a : A q} (htr : tr = past ++ ⟨q, a⟩ :: later) :
    env q a ∧ ∃ next, Reaches env body running start past (.ask q next) := by
  induction h generalizing later with
  | start => simp at htr
  | say _ ih => exact ih htr
  | @answer tr q' next a' hr ha ih =>
    obtain rfl | ⟨rest, e, rfl⟩ := List.eq_nil_or_concat later
    · obtain ⟨rfl, he⟩ := List.append_inj' htr rfl
      cases he
      exact ⟨ha, next, hr⟩
    · have hsplit : tr ++ [⟨q', a'⟩] = (past ++ ⟨q, a⟩ :: rest) ++ [e] := by simpa using htr
      exact ih (List.append_inj' hsplit rfl).1
  | again _ _ ih => exact ih htr

theorem reaches_allowed (h : Reaches env body running start tr p) : ∀ e ∈ tr, env e.1 e.2 := by
  intro e he
  obtain ⟨past, later, htr⟩ := List.append_of_mem he
  exact (reaches_exchange h htr).1

/-- What an environment allows is a matter of the exchanges alone. -/
theorem reaches_restrict (h : Reaches env' body running start tr p)
    (hall : ∀ e ∈ tr, env e.1 e.2) : Reaches env body running start tr p := by
  induction h with
  | start => exact .start
  | say _ ih => exact .say (ih hall)
  | @answer tr q next a _ _ ih =>
    have hlast : env q a := hall ⟨q, a⟩ (by simp)
    exact .answer (ih fun e he => hall e (List.mem_append_left _ he)) hlast
  | again _ hs ih => exact .again (ih hall) hs

/-- The configurations of a program on its own. -/
abbrev Within (env : ∀ q, A q → Prop) (p : Program Q A O F σ) :
    Trace A → Program Q A O F σ → Prop := Reaches env .done (fun _ => False) p

theorem within_safe {C : Contract A O F} {post : Trace A → σ → Prop} (hs : Safe env C post start [])
    (h : Within env start tr p) : Safe env C post p tr :=
  reaches_safe hs (fun _ _ _ hf => hf.elim) h

/-- A run is at some point of its start, or at some point of a round that began
in a state with the invariant. -/
theorem reaches_rounds {inv : Trace A → σ → Prop}
    (hstart : ∀ tr s, Within env start tr (.done s) → inv tr s)
    (hround : ∀ past s r s', Reaches env body running start past (.done s) → inv past s →
      running s → Within env (body s) r (.done s') → inv (past ++ r) s')
    (h : Reaches env body running start tr p) :
    Within env start tr p ∨ ∃ past s r, Reaches env body running start past (.done s) ∧ inv past s ∧
      running s ∧ Within env (body s) r p ∧ tr = past ++ r := by
  induction h with
  | start => exact .inl .start
  | say _ ih =>
    obtain h | ⟨past, s, r, hp, hi, hs, h, rfl⟩ := ih
    · exact .inl (.say h)
    · exact .inr ⟨past, s, r, hp, hi, hs, .say h, rfl⟩
  | answer _ ha ih =>
    obtain h | ⟨past, s, r, hp, hi, hs, h, rfl⟩ := ih
    · exact .inl (.answer h ha)
    · exact .inr ⟨past, s, _, hp, hi, hs, .answer h ha, List.append_assoc ..⟩
  | @again tr s hr hs ih =>
    refine .inr ⟨tr, s, [], hr, ?_, hs, .start, (List.append_nil tr).symm⟩
    obtain h | ⟨past, s', r, hp, hi, hs', h, rfl⟩ := ih
    · exact hstart tr s h
    · exact hround past s' r s hp hi hs' h

/-- The induction over the rounds of a run. -/
theorem reaches_done {inv : Trace A → σ → Prop}
    (hstart : ∀ tr s, Within env start tr (.done s) → inv tr s)
    (hround : ∀ past s r s', Reaches env body running start past (.done s) → inv past s →
      running s → Within env (body s) r (.done s') → inv (past ++ r) s')
    (h : Reaches env body running start tr (.done s)) : inv tr s := by
  obtain hw | ⟨past, s', r, hp, hi, hs, hw, rfl⟩ := reaches_rounds hstart hround h
  · exact hstart tr s hw
  · exact hround past s' r s hp hi hs hw

end Loop

section Silence

/-- The program asks nothing. -/
def Silent : Program Q A O F α → Prop
  | .done _ | .stop _ => True
  | .say _ next => Silent next
  | .ask _ _ => False

theorem Silent.bind {p : Program Q A O F α} {f : α → Program Q A O F β} (h : Silent p)
    (hf : ∀ a, Silent (f a)) : Silent (p >>= f) := by
  induction p with
  | done a => exact hf a
  | stop e => trivial
  | say o next ih => exact ih h
  | ask q next => exact h.elim

variable {env : ∀ q, A q → Prop} {body : σ → Program Q A O F σ} {running : σ → Prop}
  {start p : Program Q A O F σ} {tr : Trace A}

end Silence

section Replay

/-- Run against a deterministic environment, up to the first question it does
not answer. -/
def replay (respond : ω → (q : Q) → Option (A q × ω)) :
    Program Q A O F α → ω → Trace A → Program Q A O F α × ω × Trace A
  | .done a, w, tr => (.done a, w, tr)
  | .stop f, w, tr => (.stop f, w, tr)
  | .say _ next, w, tr => replay respond next w tr
  | .ask q next, w, tr =>
      match respond w q with
      | none => (.ask q next, w, tr)
      | some (a, w) => replay respond (next a) w (tr ++ [⟨q, a⟩])

def replayLoop (respond : ω → (q : Q) → Option (A q × ω)) (body : σ → Program Q A O F σ)
    (running : σ → Bool) : Nat → Program Q A O F σ → ω → Trace A → Program Q A O F σ × Trace A
  | 0, p, w, tr => ((replay respond p w tr).1, (replay respond p w tr).2.2)
  | n + 1, p, w, tr =>
      match replay respond p w tr with
      | (.done s, w, tr) =>
          if running s then replayLoop respond body running n (body s) w tr else (.done s, tr)
      | (p, _, tr) => (p, tr)

/-- What is said on the way, and when. -/
def said (respond : ω → (q : Q) → Option (A q × ω)) :
    Program Q A O F α → ω → Trace A → List (Trace A × O)
  | .done _, _, _ => []
  | .stop _, _, _ => []
  | .say o next, w, tr => (tr, o) :: said respond next w tr
  | .ask q next, w, tr =>
      match respond w q with
      | none => []
      | some (a, w) => said respond (next a) w (tr ++ [⟨q, a⟩])

def saidLoop (respond : ω → (q : Q) → Option (A q × ω)) (body : σ → Program Q A O F σ)
    (running : σ → Bool) : Nat → Program Q A O F σ → ω → Trace A → List (Trace A × O)
  | 0, p, w, tr => said respond p w tr
  | n + 1, p, w, tr =>
      said respond p w tr ++
        match replay respond p w tr with
        | (.done s, w, tr) =>
            if running s then saidLoop respond body running n (body s) w tr else []
        | _ => []

variable {env : ∀ q, A q → Prop} {body : σ → Program Q A O F σ} {running : σ → Bool}
  {start p : Program Q A O F σ} {respond : ω → (q : Q) → Option (A q × ω)}

theorem replay_reaches (hrespond : ∀ w q a w', respond w q = some (a, w') → env q a)
    {w : ω} {tr : Trace A} (h : Reaches env body (running ·) start tr p) :
    Reaches env body (running ·) start (replay respond p w tr).2.2 (replay respond p w tr).1 := by
  induction p generalizing w tr with
  | done a | stop f => exact h
  | say o next ih => exact ih (.say h)
  | ask q next ih =>
    simp only [replay]
    split
    · exact h
    · next a w' he => exact ih a (.answer h (hrespond _ _ _ _ he))

theorem replayLoop_reaches (hrespond : ∀ w q a w', respond w q = some (a, w') → env q a)
    (n : Nat) {w : ω} {tr : Trace A} (h : Reaches env body (running ·) start tr p) :
    Reaches env body (running ·) start (replayLoop respond body running n p w tr).2
      (replayLoop respond body running n p w tr).1 := by
  induction n generalizing p w tr with
  | zero => exact replay_reaches hrespond h
  | succ n ih =>
    have hr := replay_reaches hrespond (w := w) h
    simp only [replayLoop]
    split
    · next s w' tr' he =>
      rw [he] at hr
      split
      · next hs => exact ih (.again hr hs)
      · exact hr
    · next p' w' tr' _ he => rwa [he] at hr

theorem said_reaches (hrespond : ∀ w q a w', respond w q = some (a, w') → env q a)
    {w : ω} {tr : Trace A} (h : Reaches env body (running ·) start tr p) :
    ∀ x ∈ said respond p w tr, ∃ next, Reaches env body (running ·) start x.1 (.say x.2 next) := by
  induction p generalizing w tr with
  | done a | stop f => simp [said]
  | say o next ih =>
    intro x hx
    obtain rfl | hx := List.mem_cons.mp hx
    · exact ⟨next, h⟩
    · exact ih (.say h) x hx
  | ask q next ih =>
    simp only [said]
    split
    · simp
    · next a w' he => exact ih a (.answer h (hrespond _ _ _ _ he))

theorem saidLoop_reaches (hrespond : ∀ w q a w', respond w q = some (a, w') → env q a)
    (n : Nat) {w : ω} {tr : Trace A} (h : Reaches env body (running ·) start tr p) :
    ∀ x ∈ saidLoop respond body running n p w tr,
      ∃ next, Reaches env body (running ·) start x.1 (.say x.2 next) := by
  induction n generalizing p w tr with
  | zero => exact said_reaches hrespond h
  | succ n ih =>
    have hr := replay_reaches hrespond (w := w) h
    intro x hx
    obtain hx | hx := List.mem_append.mp hx
    · exact said_reaches hrespond h x hx
    · split at hx
      · next s w' tr' he =>
        rw [he] at hr
        split at hx
        · next hs => exact ih (.again hr hs) x hx
        · simp at hx
      · simp at hx

end Replay

end SvnCurses.Interaction
