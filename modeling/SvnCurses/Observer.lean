import SvnCurses.Interaction

namespace SvnCurses.Observer

open Interaction

variable {Q : Type} {A : Q → Type} {O F M α β σ : Type}

/-- An observer of a run. It hears what is said and sees the exchanges. -/
structure Monitor (A : Q → Type) (O M : Type) where
  heard : M → O → M
  saw : M → Sigma A → M

/-- What a program may ask, say and stop with, given what the observer has made
of the run and the exchanges before. -/
structure Duties (A : Q → Type) (O F M : Type) where
  asks : M → Trace A → Q → Prop
  tells : M → Trace A → O → Prop
  stops : M → Trace A → F → Prop

/-- Every way through the program keeps the duties and ends with the postcondition,
from what the observer has made of the run so far. -/
def Watched (env : ∀ q, A q → Prop) (w : Monitor A O M) (D : Duties A O F M)
    (post : M → Trace A → α → Prop) : Program Q A O F α → M → Trace A → Prop
  | .done a, m, tr => post m tr a
  | .stop f, m, tr => D.stops m tr f
  | .say o next, m, tr => D.tells m tr o ∧ Watched env w D post next (w.heard m o) tr
  | .ask q next, m, tr =>
      D.asks m tr q ∧ ∀ a, env q a → Watched env w D post (next a) (w.saw m ⟨q, a⟩) (tr ++ [⟨q, a⟩])

/-- The configurations of a loop, each with what the observer has made of the run. -/
inductive Observed (env : ∀ q, A q → Prop) (w : Monitor A O M) (body : σ → Program Q A O F σ)
    (running : σ → Prop) (start : Program Q A O F σ) (init : M) :
    M → Trace A → Program Q A O F σ → Prop
  | start : Observed env w body running start init init [] start
  | say {m tr o next} : Observed env w body running start init m tr (.say o next) →
      Observed env w body running start init (w.heard m o) tr next
  | answer {m tr q next a} : Observed env w body running start init m tr (.ask q next) → env q a →
      Observed env w body running start init (w.saw m ⟨q, a⟩) (tr ++ [⟨q, a⟩]) (next a)
  | again {m tr s} : Observed env w body running start init m tr (.done s) → running s →
      Observed env w body running start init m tr (body s)

variable {env : ∀ q, A q → Prop} {w : Monitor A O M} {body : σ → Program Q A O F σ}
  {running : σ → Prop} {start p : Program Q A O F σ} {init m : M} {tr : Trace A}

/-- Observing a run does not change it. -/
theorem observed_reaches (h : Observed env w body running start init m tr p) :
    Reaches env body running start tr p := by
  induction h with
  | start => exact .start
  | say _ ih => exact .say ih
  | answer _ ha ih => exact .answer ih ha
  | again _ hs ih => exact .again ih hs

theorem reaches_observed (w : Monitor A O M) (init : M) (h : Reaches env body running start tr p) :
    ∃ m, Observed env w body running start init m tr p := by
  induction h with
  | start => exact ⟨init, .start⟩
  | say _ ih =>
    obtain ⟨m, h⟩ := ih
    exact ⟨_, .say h⟩
  | answer _ ha ih =>
    obtain ⟨m, h⟩ := ih
    exact ⟨_, .answer h ha⟩
  | again _ hs ih =>
    obtain ⟨m, h⟩ := ih
    exact ⟨m, .again h hs⟩

/-- What every observation keeps holds in every run, whatever the program does. -/
theorem observed_monitor {inv : M → Trace A → Prop} (hinit : inv init [])
    (hheard : ∀ m tr o, inv m tr → inv (w.heard m o) tr)
    (hsaw : ∀ m tr e, inv m tr → inv (w.saw m e) (tr ++ [e]))
    (h : Observed env w body running start init m tr p) : inv m tr := by
  induction h with
  | start => exact hinit
  | say _ ih => exact hheard _ _ _ ih
  | answer _ _ ih => exact hsaw _ _ _ ih
  | again _ _ ih => exact ih

/-- The invariant rule. What is known of the run without its observer may be used
for each round of the body. -/
theorem observed_watched {D : Duties A O F M} {inv : M → Trace A → σ → Prop}
    (hstart : Watched env w D inv start init [])
    (hbody : ∀ m tr s, Reaches env body running start tr (.done s) → inv m tr s → running s →
      Watched env w D inv (body s) m tr)
    (h : Observed env w body running start init m tr p) : Watched env w D inv p m tr := by
  induction h with
  | start => exact hstart
  | say _ ih => exact ih.2
  | answer _ ha ih => exact ih.2 _ ha
  | again h hs ih => exact hbody _ _ _ (observed_reaches h) ih hs

/-- A configuration without exchanges since its round began is the first one of the
round, when each round begins with a question. -/
theorem observed_rounds (hbody : ∀ s, ∃ q next, body s = .ask q next)
    (h : Observed env w body running start init m tr p) :
    Within env start tr p ∨
      ∃ past s r m', Observed env w body running start init m' past (.done s) ∧ running s ∧
        Within env (body s) r p ∧ tr = past ++ r ∧ (r = [] → m = m' ∧ p = body s) := by
  induction h with
  | start => exact .inl .start
  | say _ ih =>
    obtain h | ⟨past, s, r, m', hp, hs, h, rfl, hfirst⟩ := ih
    · exact .inl (.say h)
    · refine .inr ⟨past, s, r, m', hp, hs, .say h, rfl, fun hr => ?_⟩
      obtain ⟨q, next, hask⟩ := hbody s
      have hsay := (hfirst hr).2
      rw [hask] at hsay
      cases hsay
  | answer _ ha ih =>
    obtain h | ⟨past, s, r, m', hp, hs, h, rfl, hfirst⟩ := ih
    · exact .inl (.answer h ha)
    · refine .inr ⟨past, s, _, m', hp, hs, .answer h ha, List.append_assoc .., fun hr => ?_⟩
      simp at hr
  | @again m tr s h hs ih =>
    exact .inr ⟨tr, s, [], m, h, hs, .start, (List.append_nil tr).symm, fun _ => ⟨rfl, rfl⟩⟩

section Rules

variable {D : Duties A O F M} {post : M → Trace A → α → Prop} {goal : M → Trace A → β → Prop}

theorem Watched.bind {p : Program Q A O F α} {f : α → Program Q A O F β}
    (h : Watched env w D post p m tr)
    (hf : ∀ m tr a, post m tr a → Watched env w D goal (f a) m tr) :
    Watched env w D goal (p >>= f) m tr := by
  induction p generalizing m tr with
  | done a => exact hf m tr a h
  | stop e => exact h
  | say o next ih => exact ⟨h.1, ih h.2⟩
  | ask q next ih => exact ⟨h.1, fun a ha => ih a (h.2 a ha)⟩

theorem Watched.mono {p : Program Q A O F α} {weak : M → Trace A → α → Prop}
    (h : Watched env w D post p m tr) (hw : ∀ m tr a, post m tr a → weak m tr a) :
    Watched env w D weak p m tr := by
  induction p generalizing m tr with
  | done a => exact hw m tr a h
  | stop e => exact h
  | say o next ih => exact ⟨h.1, ih h.2⟩
  | ask q next ih => exact ⟨h.1, fun a ha => ih a (h.2 a ha)⟩

end Rules

end SvnCurses.Observer
