import Mathlib.Data.List.Lex
import Mathlib.Data.List.Basic

namespace SvnCurses.Forests

/-- Trees side by side, each with a name and a label at its root. -/
inductive Forest (N A : Type)
  | nil
  | cons (name : N) (label : A) (children rest : Forest N A)

section Walk

variable {N A I : Type}

def Forest.names : Forest N A → List N
  | .nil => []
  | .cons name _ _ rest => name :: rest.names

/-- The trees that stand side by side come in the order of their names. -/
def Forest.Ordered (r : N → N → Prop) : Forest N A → Prop
  | .nil => True
  | .cons name _ children rest =>
      (∀ other ∈ rest.names, r name other) ∧ children.Ordered r ∧ rest.Ordered r

def Forest.All (P : N → A → Prop) : Forest N A → Prop
  | .nil => True
  | .cons name label children rest => P name label ∧ children.All P ∧ rest.All P

/-- Which trees a walk enters, and what it hands down in them. -/
structure Plan (N A I : Type) where
  enters : A → Bool
  down : List N → I → A → I

/-- A node as a walk comes to it: its path, what was handed down, and its label. -/
abbrev Visit (N A I : Type) := List N × I × A

/-- The nodes from a path on, each before those below it. -/
def Plan.preorder (plan : Plan N A I) (path : List N) (i : I) : Forest N A → List (Visit N A I)
  | .nil => []
  | .cons name label children rest =>
      (path ++ [name], i, label) ::
        ((if plan.enters label then
            plan.preorder (path ++ [name]) (plan.down (path ++ [name]) i label) children
          else []) ++
          plan.preorder path i rest)

/-- What is found at the end of the names, on a way that the walk enters. -/
def Plan.find? [DecidableEq N] (plan : Plan N A I) (path : List N) (i : I) :
    Forest N A → List N → Option (I × A)
  | .nil, _ => none
  | _, [] => none
  | .cons name label children rest, first :: names =>
      if first = name then
        if names = [] then some (i, label)
        else if plan.enters label then
          plan.find? (path ++ [name]) (plan.down (path ++ [name]) i label) children names
        else none
      else plan.find? path i rest (first :: names)

def Forest.decideOrdered (r : N → N → Prop) [DecidableRel r] :
    (f : Forest N A) → Decidable (f.Ordered r)
  | .nil => .isTrue trivial
  | .cons name _ children rest =>
      letI := children.decideOrdered r
      letI := rest.decideOrdered r
      inferInstanceAs (Decidable
        ((∀ other ∈ rest.names, r name other) ∧ children.Ordered r ∧ rest.Ordered r))

instance (r : N → N → Prop) [DecidableRel r] (f : Forest N A) : Decidable (f.Ordered r) :=
  f.decideOrdered r

def Forest.decideAll (P : N → A → Prop) [∀ name label, Decidable (P name label)] :
    (f : Forest N A) → Decidable (f.All P)
  | .nil => .isTrue trivial
  | .cons name label children rest =>
      letI := children.decideAll P
      letI := rest.decideAll P
      inferInstanceAs (Decidable (P name label ∧ children.All P ∧ rest.All P))

instance (P : N → A → Prop) [∀ name label, Decidable (P name label)] (f : Forest N A) :
    Decidable (f.All P) := f.decideAll P

variable {r : N → N → Prop} {plan : Plan N A I} {path : List N} {i : I} {f : Forest N A}
  {v : Visit N A I}

theorem preorder_below (h : v ∈ plan.preorder path i f) :
    ∃ name ∈ f.names, ∃ names, v.1 = path ++ name :: names := by
  induction f generalizing path i with
  | nil => exact absurd h List.not_mem_nil
  | cons name label children rest ihc ihr =>
    obtain rfl | h := List.mem_cons.mp h
    · exact ⟨name, List.mem_cons_self, [], rfl⟩
    · obtain h | h := List.mem_append.mp h
      · split at h
        · obtain ⟨below, _, names, hv⟩ := ihc h
          exact ⟨name, List.mem_cons_self, below :: names, by rw [hv]; simp⟩
        · exact absurd h List.not_mem_nil
      · obtain ⟨other, hother, names, hv⟩ := ihr h
        exact ⟨other, List.mem_cons_of_mem _ hother, names, hv⟩

theorem preorder_outside {names : List N} {j : I} {a : A} {first : N} (h : first ∉ f.names) :
    (path ++ first :: names, j, a) ∉ plan.preorder path i f := by
  intro hmem
  obtain ⟨name, hname, more, hpath⟩ := preorder_below hmem
  have hfirst := (List.cons.inj (List.append_cancel_left hpath)).1
  exact h (hfirst ▸ hname)

/-- In an ordered forest a walk comes to just what is found. -/
theorem mem_preorder [DecidableEq N] (hirrefl : ∀ name, ¬ r name name) (hf : f.Ordered r)
    {names : List N} {j : I} {a : A} :
    (path ++ names, j, a) ∈ plan.preorder path i f ↔ plan.find? path i f names = some (j, a) := by
  induction f generalizing path i names with
  | nil => simp [Plan.preorder, Plan.find?]
  | cons name label children rest ihc ihr =>
    obtain ⟨hless, hchildren, hrest⟩ := hf
    cases names with
    | nil =>
      refine ⟨fun hmem => ?_, fun hfind => by simp [Plan.find?] at hfind⟩
      obtain ⟨_, _, more, hpath⟩ := preorder_below hmem
      have hlength := congrArg List.length hpath
      simp at hlength
    | cons first more =>
      have hpath : path ++ first :: more = path ++ [first] ++ more := by simp
      rw [Plan.preorder, Plan.find?, List.mem_cons, List.mem_append]
      by_cases hfirst : first = name
      · subst hfirst
        have hrest : (path ++ first :: more, j, a) ∉ plan.preorder path i rest :=
          preorder_outside fun hmem => hirrefl first (hless first hmem)
        rw [if_pos rfl, or_iff_left hrest]
        by_cases hmore : more = []
        · subst hmore
          rw [if_pos rfl, or_iff_left]
          · simp [eq_comm]
          · intro hmem
            split at hmem
            · obtain ⟨_, _, below, hbelow⟩ := preorder_below hmem
              have hlength := congrArg List.length hbelow
              simp at hlength
            · exact List.not_mem_nil hmem
        · rw [if_neg hmore, or_iff_right (by simp [hmore])]
          split
          · rw [hpath]
            exact ihc hchildren
          · simp
      · have hchild : (path ++ first :: more, j, a) ∉ if plan.enters label = true then
            plan.preorder (path ++ [name]) (plan.down (path ++ [name]) i label) children
            else [] := by
          intro hmem
          split at hmem
          · obtain ⟨_, _, below, hbelow⟩ := preorder_below hmem
            rw [List.append_assoc] at hbelow
            exact hfirst (List.cons.inj (List.append_cancel_left hbelow)).1
          · exact List.not_mem_nil hmem
        rw [if_neg hfirst, or_iff_right (by simp [hfirst]), or_iff_right hchild]
        exact ihr hrest

end Walk

end SvnCurses.Forests
