import SvnCurses.Shell

namespace SvnCurses.ShellLexes

open Shell

/-- The text is read as these tokens wherever a token may begin, whether a blank
or the end of the input comes after it. -/
def Lexes (t : Text) (ts : List Token) : Prop :=
  (∀ rest, scan .blank (t ++ ' ' :: rest) = (scan .blank rest).map (ts ++ ·)) ∧
    scan .blank t = some ts

theorem ordinary_spec {c : Char} (h : ordinary c) :
    isBlank c = false ∧ startsOperator c = false ∧ isQuote c = false ∧ isActive c = false := by
  simpa [ordinary, and_assoc] using h

theorem wordStep_ordinary {c : Char} (h : ordinary c) (w : Option Word) :
    wordStep w c = .word (w.getD [] ++ [(c, .plain)]) := by
  obtain ⟨_, _, hq, ha⟩ := ordinary_spec h
  simp only [isQuote, List.mem_cons, List.not_mem_nil, or_false, decide_eq_false_iff_not,
    not_or] at hq
  simp [wordStep, hq, ha]

theorem step_word_ordinary {c : Char} (h : ordinary c) (w : Word) :
    step (.word w) c = ([], .word (w ++ [(c, .plain)])) := by
  obtain ⟨hb, ho, _⟩ := ordinary_spec h
  simp [step, hb, ho, wordStep_ordinary h]

theorem step_blank_ordinary {c : Char} (h : ordinary c) (hc : c ≠ '#') :
    step .blank c = ([], .word [(c, .plain)]) := by
  obtain ⟨hb, ho, _⟩ := ordinary_spec h
  simp [step, startStep, hb, ho, hc, wordStep_ordinary h]

theorem map_nil_append (o : Option (List Token)) : o.map ([] ++ ·) = o := by
  cases o <;> rfl

theorem map_map_append (o : Option (List Token)) (ts us : List Token) :
    (o.map (ts ++ ·)).map (us ++ ·) = o.map ((us ++ ts) ++ ·) := by
  cases o <;> simp

theorem scan_word {t : Text} (ht : ∀ c ∈ t, ordinary c) (w : Word) (rest : Text) :
    scan (.word w) (t ++ rest) = scan (.word (w ++ marked .plain t)) rest := by
  induction t generalizing w with
  | nil => simp [marked]
  | cons c t ih =>
    rw [List.cons_append, scan, step_word_ordinary (ht c (by simp))]
    dsimp only
    rw [map_nil_append, ih (fun d hd => ht d (by simp [hd]))]
    simp [marked]

theorem scan_blank_word {t : Text} (ht : PlainWord t) (rest : Text) :
    scan .blank (t ++ rest) = scan (.word (marked .plain t)) rest := by
  obtain ⟨hne, hhash, hord⟩ := ht
  cases t with
  | nil => exact absurd rfl hne
  | cons c t =>
    have hc : c ≠ '#' := by simpa using hhash
    rw [List.cons_append, scan, step_blank_ordinary (hord c (by simp)) hc]
    dsimp only
    rw [map_nil_append, scan_word (fun d hd => hord d (by simp [hd]))]
    simp [marked]

/-- A word that has been read ends at a blank or at the end of the input. -/
theorem lexes_of_word {t : Text} {w : Word}
    (h : ∀ rest, scan .blank (t ++ rest) = scan (.word w) rest) : Lexes t [.word w] := by
  constructor
  · intro rest
    rw [h]
    rfl
  · have hend := h []
    rwa [List.append_nil] at hend

theorem lexes_plain {t : Text} (ht : PlainWord t) : Lexes t [.word (marked .plain t)] :=
  lexes_of_word (scan_blank_word ht)

theorem lexes_nil : Lexes [] [] := ⟨fun rest => by simp [scan, step, startStep, isBlank], rfl⟩

theorem scan_blanks (k : Nat) (rest : Text) :
    scan .blank (List.replicate k ' ' ++ rest) = scan .blank rest := by
  induction k with
  | zero => rfl
  | succ k ih =>
    rw [List.replicate_succ, List.cons_append, scan]
    simp only [step, startStep, isBlank, decide_true, Bool.true_or, ↓reduceIte]
    rw [map_nil_append, ih]

theorem Lexes.indent {t : Text} {ts : List Token} (h : Lexes t ts) (k : Nat) :
    Lexes (List.replicate k ' ' ++ t) ts := by
  refine ⟨fun rest => ?_, ?_⟩
  · rw [List.append_assoc, scan_blanks, h.1]
  · rw [scan_blanks, h.2]

theorem Lexes.pad {t : Text} {ts : List Token} (h : Lexes t ts) (k : Nat) :
    Lexes (t ++ List.replicate k ' ') ts := by
  cases k with
  | zero => simpa using h
  | succ k =>
    refine ⟨fun rest => ?_, ?_⟩
    · rw [List.append_assoc, List.replicate_succ, List.cons_append, h.1, scan_blanks]
      exact congrArg _ (scan_blanks 1 rest)
    · rw [List.replicate_succ, h.1, ← List.append_nil (List.replicate k ' '), scan_blanks]
      simp [scan, finish]

theorem Lexes.seq {t u : Text} {ts us : List Token} (ht : Lexes t ts) (hu : Lexes u us) :
    Lexes (t ++ ' ' :: u) (ts ++ us) := by
  refine ⟨fun rest => ?_, ?_⟩
  · rw [List.append_assoc, List.cons_append, ht.1, hu.1, map_map_append]
  · rw [ht.1, hu.2]
    rfl

theorem lexes_intercalate {ι : Type} {f : ι → Text} {g : ι → List Token} {xs : List ι}
    (h : ∀ x ∈ xs, Lexes (f x) (g x)) : Lexes ([' '].intercalate (xs.map f)) (xs.flatMap g) := by
  induction xs with
  | nil => exact lexes_nil
  | cons x xs ih =>
    have hx := h x (by simp)
    cases xs with
    | nil => simpa using hx
    | cons y ys =>
      have hrest := ih (fun z hz => h z (by simp [hz]))
      have hjoin : [' '].intercalate ((x :: y :: ys).map f) =
          f x ++ ' ' :: [' '].intercalate ((y :: ys).map f) := by
        simp [List.intercalate]
      rw [hjoin, List.flatMap_cons]
      exact hx.seq hrest

theorem lexes_output : Lexes ['>'] [.operator ['>']] := by
  constructor
  · intro rest
    simp only [List.singleton_append, scan]
    rw [map_map_append]
    rfl
  · rfl

/-- A quoted piece and a plain one after it make one word. -/
theorem lexes_quoted {t u : Text} (ht : '\'' ∉ t) (hu : ∀ c ∈ u, ordinary c) :
    Lexes ('\'' :: t ++ '\'' :: u) [.word (marked .quoted t ++ marked .plain u)] := by
  have hquoted : ∀ (t : Text) (w : Word) (rest : Text), '\'' ∉ t →
      scan (.single w) (t ++ rest) = scan (.single (w ++ marked .quoted t)) rest := by
    intro t
    induction t with
    | nil => simp [marked]
    | cons c t ih =>
      intro w rest hc
      have hne : c ≠ '\'' := fun he => hc (by simp [he])
      rw [List.cons_append, scan]
      simp only [step, hne, ↓reduceIte]
      rw [map_nil_append, ih _ _ (fun h => hc (by simp [h]))]
      simp [marked]
  apply lexes_of_word
  intro rest
  have hopen : step .blank '\'' = ([], .single []) := rfl
  have hclose : ∀ w, step (.single w) '\'' = ([], .word w) := fun w => rfl
  rw [List.cons_append, List.cons_append, scan, hopen, map_nil_append, List.append_assoc,
    hquoted t _ _ ht, List.cons_append, scan, hclose, map_nil_append, scan_word hu]
  rfl

end SvnCurses.ShellLexes
