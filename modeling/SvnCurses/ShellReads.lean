import SvnCurses.ShellLexes

namespace SvnCurses.ShellReads

open Shell ShellLexes

/-- The characters that are not blanks. The shell drops some of them when it
removes quotes and comments, and it never adds one. -/
def inked (t : Text) : Nat := t.countP (fun c => !isBlank c)

def inkedWord (w : Word) : Nat := inked (w.map Prod.fst)

def inkedToken : Token → Nat
  | .word w | .number w => inkedWord w
  | .operator op => inked op

def inkedTokens (ts : List Token) : Nat := (ts.map inkedToken).sum

/-- What the current token holds already. -/
def pending : Mode → Nat
  | .blank | .comment => 0
  | .word w | .single w | .double w => inkedWord w
  | .escape w => inkedWord (w.getD [])
  | .doubleEscape w => inkedWord w + 1
  | .operator op => inked op

@[simp] theorem inked_nil : inked [] = 0 := rfl

theorem inked_cons (c : Char) (t : Text) : inked (c :: t) = inked [c] + inked t := by
  simp only [inked, List.countP_cons, List.countP_nil]
  omega

@[simp] theorem inked_append (t u : Text) : inked (t ++ u) = inked t + inked u := List.countP_append

theorem inked_blank {c : Char} (h : isBlank c = true) : inked [c] = 0 := by
  simp [inked, h]

theorem inked_char {c : Char} (h : isBlank c = false) : inked [c] = 1 := by
  simp [inked, h]

@[simp] theorem inkedWord_nil : inkedWord [] = 0 := rfl

@[simp] theorem inkedWord_concat (w : Word) (c : Char) (m : Mark) :
    inkedWord (w ++ [(c, m)]) = inkedWord w + inked [c] := by
  simp [inkedWord]

@[simp] theorem inkedTokens_nil : inkedTokens [] = 0 := rfl

@[simp] theorem inkedTokens_append (ts us : List Token) :
    inkedTokens (ts ++ us) = inkedTokens ts + inkedTokens us := by
  simp [inkedTokens]

@[simp] theorem inkedTokens_cons (t : Token) (ts : List Token) :
    inkedTokens (t :: ts) = inkedToken t + inkedTokens ts := by
  simp [inkedTokens]

theorem inkedToken_delimited (w : Word) (c : Char) : inkedToken (delimited w c) = inkedWord w := by
  simp only [delimited]
  split <;> rfl

theorem pending_wordStep (w : Option Word) (c : Char) :
    pending (wordStep w c) ≤ inkedWord (w.getD []) + inked [c] := by
  simp only [wordStep]
  split_ifs <;> simp [pending]

theorem pending_startStep (c : Char) : pending (startStep c) ≤ inked [c] := by
  have hword := pending_wordStep none c
  simp only [Option.getD_none, inkedWord_nil, Nat.zero_add] at hword
  simp only [startStep]
  split_ifs
  · exact Nat.zero_le _
  · exact Nat.zero_le _
  · exact Nat.le_refl _
  · exact hword

theorem step_inked (m : Mode) (c : Char) :
    inkedTokens (step m c).1 + pending (step m c).2 ≤ pending m + inked [c] := by
  cases m with
  | blank => simpa [step, pending] using pending_startStep c
  | word w =>
    have hword := pending_wordStep (some w) c
    simp only [step]
    split_ifs with hb ho
    · simp [inkedToken, pending]
    · simp [inkedToken_delimited, pending]
    · simpa [pending] using hword
  | escape w =>
    simp only [step]
    split_ifs
    · cases w <;> simp [pending]
    · simp [pending]
  | single w => simp only [step]; split_ifs <;> simp [pending]
  | double w =>
    simp only [step]
    split_ifs with hq he
    · simp [pending]
    · subst he
      simp [pending, inked, isBlank]
    · simp [pending]
    · simp [pending]
  | doubleEscape w =>
    simp only [step]
    split_ifs
    · simp [pending]; omega
    · simp [pending]
    · have hslash : inked ['\\', c] = 1 + inked [c] := by
        rw [inked_cons]
        rfl
      simp [pending, inkedWord, hslash]
      omega
  | operator op =>
    have hstart := pending_startStep c
    simp only [step]
    split_ifs
    · simp [pending]
    · simpa [inkedToken, pending] using hstart
  | comment => simp only [step]; split_ifs <;> simp [pending]

theorem finish_inked {m : Mode} {ts : List Token} (h : finish m = some ts) :
    inkedTokens ts ≤ pending m := by
  cases m <;> simp only [finish, Option.some.injEq, reduceCtorEq] at h <;> subst h <;>
    simp [pending, inkedToken]

theorem scan_inked {m : Mode} {t : Text} {ts : List Token} (h : scan m t = some ts) :
    inkedTokens ts ≤ pending m + inked t := by
  induction t generalizing m ts with
  | nil => simpa using finish_inked h
  | cons c t ih =>
    obtain ⟨us, hus, rfl⟩ := Option.map_eq_some_iff.mp h
    have hstep := step_inked m c
    have hrest := ih hus
    rw [inkedTokens_append, inked_cons]
    omega

/-- A word that the shell passes on as it is. -/
def Kept (t : Token) : Prop := ∃ w, t = .word w ∧ ∀ p ∈ w, p.2 ≠ Mark.active

def wordOf : Token → Option Word
  | .word w | .number w => some w
  | .operator _ => none

def pendingWord : Mode → Option Word
  | .word w | .single w | .double w | .doubleEscape w => some w
  | .escape w => w
  | .blank | .operator _ | .comment => none

theorem wordOf_delimited (w : Word) (c : Char) : wordOf (delimited w c) = some w := by
  simp only [delimited]
  split <;> rfl

theorem pendingWord_wordStep (w : Word) (c : Char) :
    ∃ v, pendingWord (wordStep (some w) c) = some (w ++ v) := by
  simp only [wordStep]
  split_ifs
  · exact ⟨[], by simp [pendingWord]⟩
  · exact ⟨[], by simp [pendingWord]⟩
  · exact ⟨[], by simp [pendingWord]⟩
  · exact ⟨[(c, _)], rfl⟩
  · exact ⟨[(c, _)], rfl⟩

/-- A word once begun only grows until its token is delimited. -/
theorem step_pendingWord {m : Mode} {w : Word} (h : pendingWord m = some w) (c : Char) :
    (∃ t, (step m c).1 = [t] ∧ wordOf t = some w) ∨
      (step m c).1 = [] ∧ ∃ v, pendingWord (step m c).2 = some (w ++ v) := by
  cases m with
  | blank | operator | comment => cases h
  | word u =>
    cases h
    simp only [step]
    split_ifs
    · exact .inl ⟨_, rfl, rfl⟩
    · exact .inl ⟨_, rfl, wordOf_delimited w c⟩
    · exact .inr ⟨rfl, pendingWord_wordStep w c⟩
  | escape u =>
    cases h
    apply Or.inr
    simp only [step]
    split_ifs
    · exact ⟨rfl, [], by simp [pendingWord]⟩
    · exact ⟨rfl, _, rfl⟩
  | single u =>
    cases h
    apply Or.inr
    simp only [step]
    split_ifs
    · exact ⟨rfl, [], by simp [pendingWord]⟩
    · exact ⟨rfl, _, rfl⟩
  | double u =>
    cases h
    apply Or.inr
    simp only [step]
    split_ifs
    · exact ⟨rfl, [], by simp [pendingWord]⟩
    · exact ⟨rfl, [], by simp [pendingWord]⟩
    · exact ⟨rfl, _, rfl⟩
    · exact ⟨rfl, _, rfl⟩
  | doubleEscape u =>
    cases h
    apply Or.inr
    simp only [step]
    split_ifs
    · exact ⟨rfl, [], by simp [pendingWord]⟩
    · exact ⟨rfl, _, rfl⟩
    · exact ⟨rfl, _, rfl⟩

theorem scan_pendingWord {m : Mode} {w : Word} {t : Text} {ts : List Token}
    (hm : pendingWord m = some w) (h : scan m t = some ts) :
    ∃ tok v rest, ts = tok :: rest ∧ wordOf tok = some (w ++ v) := by
  induction t generalizing m w ts with
  | nil =>
    cases m with
    | word u =>
      cases hm
      cases h
      exact ⟨.word w, [], [], rfl, by simp [wordOf]⟩
    | blank | operator | comment => cases hm
    | escape | single | double | doubleEscape => cases h
  | cons c t ih =>
    obtain ⟨us, hus, rfl⟩ := Option.map_eq_some_iff.mp h
    obtain ⟨tok, htok, hw⟩ | ⟨hnil, v, hv⟩ := step_pendingWord hm c
    · exact ⟨tok, [], us, by rw [htok]; rfl, by simpa using hw⟩
    · obtain ⟨tok, v', rest, rfl, hw⟩ := ih hv hus
      exact ⟨tok, v ++ v', rest, by rw [hnil]; rfl, by simpa using hw⟩

theorem scan_operator {op t : Text} {ts : List Token} (h : scan (.operator op) t = some ts) :
    ∃ op', .operator op' ∈ ts := by
  induction t generalizing op ts with
  | nil =>
    cases h
    exact ⟨op, by simp⟩
  | cons c t ih =>
    obtain ⟨us, hus, rfl⟩ := Option.map_eq_some_iff.mp h
    simp only [step] at hus ⊢
    split_ifs at hus ⊢ with hop
    · obtain ⟨op', hmem⟩ := ih hus
      exact ⟨op', by simpa using hmem⟩
    · exact ⟨op, by simp⟩

/-- Blanks apart, every character stands for itself and none begins a comment.
The flag tells whether a token may begin here. -/
def Untouched : Bool → Text → Prop
  | _, [] => True
  | start, c :: t =>
      if isBlank c then Untouched true t
      else ordinary c ∧ (start → c ≠ '#') ∧ Untouched false t

/-- When all words are kept and nothing was dropped, a character that begins or
continues a word is an unquoted one that means itself. -/
theorem wordStep_of_scan {w : Option Word} {c : Char} {t : Text} {ts : List Token}
    (hc : isBlank c = false) (h : scan (wordStep w c) t = some ts) (hkept : ∀ tok ∈ ts, Kept tok)
    (hink : inkedWord (w.getD []) + inked (c :: t) ≤ inkedTokens ts) :
    isQuote c = false ∧ isActive c = false := by
  have hle := scan_inked h
  have hlost : pending (wordStep w c) ≠ inkedWord (w.getD []) := by
    rw [inked_cons, inked_char hc] at hink
    omega
  have hquote : isQuote c = false := by
    by_contra hq
    apply hlost
    simp only [isQuote, List.mem_cons, List.not_mem_nil, or_false, decide_eq_true_eq,
      Bool.not_eq_false] at hq
    obtain rfl | rfl | rfl := hq <;> rfl
  refine ⟨hquote, ?_⟩
  by_contra ha
  rw [Bool.not_eq_false] at ha
  have hnot : c ≠ '\\' ∧ c ≠ '\'' ∧ c ≠ '"' := by simpa [isQuote, not_or] using hquote
  have hstep : wordStep w c = .word (w.getD [] ++ [(c, .active)]) := by
    simp [wordStep, hnot, ha]
  rw [hstep] at h
  obtain ⟨tok, v, rest, rfl, hw⟩ := scan_pendingWord rfl h
  obtain ⟨u, rfl, hu⟩ := hkept tok (by simp)
  cases hw
  exact hu (c, .active) (by simp) rfl

/-- The words come out with nothing dropped only when there was nothing to
drop: no quotes, no comment, no operator. -/
theorem untouched_of_scan {m : Mode} {t : Text} {ts : List Token}
    (hm : m = .blank ∨ ∃ w, m = .word w ∧ ∀ p ∈ w, isBlank p.1 = false)
    (h : scan m t = some ts) (hkept : ∀ tok ∈ ts, Kept tok)
    (hink : pending m + inked t ≤ inkedTokens ts) :
    Untouched (m = .blank) t ∧ ∀ w, .word w ∈ ts → ∀ p ∈ w, isBlank p.1 = false := by
  induction t generalizing m ts with
  | nil =>
    refine ⟨trivial, ?_⟩
    obtain rfl | ⟨w, rfl, hw⟩ := hm
    · cases h
      simp
    · cases h
      intro u hu
      cases List.mem_singleton.mp hu
      exact hw
  | cons c t ih =>
    obtain ⟨us, hus, rfl⟩ := Option.map_eq_some_iff.mp h
    have hkept' : ∀ tok ∈ us, Kept tok := fun tok htok => hkept tok (List.mem_append_right _ htok)
    have hop : ∀ op, step m c ≠ ((step m c).1, .operator op) := by
      intro op he
      rw [he] at hus
      obtain ⟨op', hmem⟩ := scan_operator hus
      obtain ⟨w, hw, _⟩ := hkept' _ hmem
      cases hw
    obtain rfl | ⟨w, rfl, hw⟩ := hm
    · by_cases hb : isBlank c
      · have hstep : step .blank c = ([], .blank) := by simp [step, startStep, hb]
        rw [hstep] at hus hink ⊢
        have hrest := ih (.inl rfl) hus hkept' (by
          rw [inked_cons, inked_blank hb] at hink
          simpa using hink)
        simpa [Untouched, hb] using hrest
      · rw [Bool.not_eq_true] at hb
        have hhash : c ≠ '#' := by
          rintro rfl
          have hle := scan_inked hus
          rw [inked_cons, inked_char hb] at hink
          simp only [show step .blank '#' = ([], .comment) from rfl, pending, List.nil_append]
            at hle hink
          omega
        have hso : startsOperator c = false := by
          by_contra hso
          exact hop [c] (by simp [step, startStep, hb, hhash, hso])
        have hstep : step .blank c = ([], wordStep none c) := by
          simp [step, startStep, hb, hhash, hso]
        rw [hstep] at hus hink ⊢
        obtain ⟨hq, ha⟩ := wordStep_of_scan hb hus hkept' (by simpa [pending] using hink)
        have hord : ordinary c := by simp [ordinary, hb, hso, hq, ha]
        rw [wordStep_ordinary hord] at hus hink ⊢
        have hrest := ih (.inr ⟨_, rfl, by simpa using hb⟩) hus hkept' (by
          rw [inked_cons] at hink
          simpa [pending, inkedWord] using hink)
        simpa [Untouched, hb, hord, hhash] using hrest
    · by_cases hb : isBlank c
      · have hstep : step (.word w) c = ([.word w], .blank) := by simp [step, hb]
        rw [hstep] at hus hink ⊢
        have hrest := ih (.inl rfl) hus hkept' (by
          rw [inked_cons, inked_blank hb] at hink
          simpa [pending, inkedToken] using hink)
        refine ⟨by simpa [Untouched, hb] using hrest.1, fun u hu => ?_⟩
        obtain hu | hu := List.mem_append.mp hu
        · cases List.mem_singleton.mp hu
          exact hw
        · exact hrest.2 u hu
      · rw [Bool.not_eq_true] at hb
        have hso : startsOperator c = false := by
          by_contra hso
          exact hop [c] (by simp [step, hb, hso])
        have hstep : step (.word w) c = ([], wordStep (some w) c) := by simp [step, hb, hso]
        rw [hstep] at hus hink ⊢
        obtain ⟨hq, ha⟩ := wordStep_of_scan hb hus hkept' (by simpa [pending] using hink)
        have hord : ordinary c := by simp [ordinary, hb, hso, hq, ha]
        rw [wordStep_ordinary hord] at hus hink ⊢
        have hrest := ih (.inr ⟨_, rfl, by
          intro p hp
          obtain hp | hp := List.mem_append.mp hp
          · exact hw p hp
          · rw [List.mem_singleton.mp hp]
            exact hb⟩) hus hkept' (by
          rw [inked_cons] at hink
          simp only [pending, inkedWord_concat, Option.getD_some, List.nil_append] at hink ⊢
          omega)
        simpa [Untouched, hb, hord] using hrest

theorem parse_words {ts : List Token} {c : Command} (h : parse ts = some c)
    (hr : c.redirects = []) : ts = c.words.map .word := by
  induction ts using parse.induct generalizing c with
  | case1 =>
    cases h
    rfl
  | case2 w ts ih =>
    obtain ⟨d, hd, rfl⟩ := Option.map_eq_some_iff.mp h
    exact congrArg (Token.word w :: ·) (ih hd hr)
  | case3 op w ts hop ih | case5 n op w ts hop ih =>
    simp only [parse, hop, ↓reduceIte] at h
    obtain ⟨d, _, rfl⟩ := Option.map_eq_some_iff.mp h
    cases hr
  | case4 op w ts hop | case6 n op w ts hop => simp only [parse, if_neg hop, reduceCtorEq] at h
  | case7 ts h₁ h₂ h₃ h₄ => simp_all [parse]

/-- A command line without redirections has as many words as tokens. -/
theorem length_of_reads {t : Text} {ts : List Token} {ws : List Text} (h : Reads t ws)
    (hts : scan .blank t = some ts) : ts.length = ws.length := by
  obtain ⟨c, hread, hws, hr⟩ := h
  rw [readCommand, hts, Option.bind_some] at hread
  have hlen := congrArg List.length hws
  rw [List.length_map, List.length_map] at hlen
  rw [parse_words hread hr, List.length_map, hlen]

theorem value_some {w : Word} {t : Text} (h : value w = some t) :
    (∀ p ∈ w, p.2 ≠ .active) ∧ w.map Prod.fst = t := by
  simp only [value] at h
  split at h
  · next hw => exact ⟨hw, by simpa using h⟩
  · cases h

/-- A command line that comes out as words with the ink it went in with means
itself throughout, and its words hold no blanks. -/
theorem untouched_of_reads {t : Text} {ws : List Text} (h : Reads t ws)
    (hink : inked t ≤ (ws.map inked).sum) :
    Untouched true t ∧ ∀ w ∈ ws, ∀ c ∈ w, isBlank c = false := by
  obtain ⟨c, hread, hws, hr⟩ := h
  obtain ⟨ts, hts, hparse⟩ := Option.bind_eq_some_iff.mp hread
  have htokens := parse_words hparse hr
  have hvalue : ∀ w ∈ c.words, ∃ v ∈ ws, value w = some v := by
    intro w hw
    have hmem : value w ∈ ws.map some := hws ▸ List.mem_map_of_mem hw
    obtain ⟨v, hv, he⟩ := List.mem_map.mp hmem
    exact ⟨v, hv, he.symm⟩
  have hkept : ∀ tok ∈ ts, Kept tok := by
    intro tok htok
    rw [htokens] at htok
    obtain ⟨w, hw, rfl⟩ := List.mem_map.mp htok
    obtain ⟨v, _, hv⟩ := hvalue w hw
    exact ⟨w, rfl, (value_some hv).1⟩
  have hcount : (ws.map inked).sum = inkedTokens ts := by
    have hmap : ∀ (us : List Word) (vs : List Text), us.map value = vs.map some →
        (vs.map inked).sum = inkedTokens (us.map .word) := by
      intro us
      induction us with
      | nil =>
        intro vs hvs
        cases vs with
        | nil => rfl
        | cons v vs => cases hvs
      | cons u us ih =>
        intro vs hvs
        cases vs with
        | nil => cases hvs
        | cons v vs =>
          obtain ⟨hu, hus⟩ := List.cons.inj hvs
          simp [ih vs hus, inkedToken, inkedWord, (value_some hu).2]
    rw [htokens]
    exact hmap c.words ws hws
  obtain ⟨hunt, hblank⟩ := untouched_of_scan (.inl rfl) hts hkept (by
    rw [← hcount]
    simpa [pending] using hink)
  refine ⟨by simpa using hunt, fun v hv ch hch => ?_⟩
  have hmem : some v ∈ c.words.map value := hws ▸ List.mem_map_of_mem hv
  obtain ⟨w, hw, he⟩ := List.mem_map.mp hmem
  have hfst := (value_some he).2
  rw [← hfst] at hch
  obtain ⟨p, hp, rfl⟩ := List.mem_map.mp hch
  exact hblank w (by rw [htokens]; exact List.mem_map_of_mem hw) p hp

theorem untouched_append {b : Bool} {t u : Text} (h : Untouched b (t ++ ' ' :: u)) :
    Untouched true u := by
  induction t generalizing b with
  | nil => simpa [Untouched, isBlank] using h
  | cons c t ih =>
    simp only [List.cons_append, Untouched] at h
    split at h
    · exact ih h
    · exact ih h.2.2

/-- A word without blanks, in its place in such a command line, is plain. -/
theorem plainWord_of_untouched {t u : Text} (h : Untouched true (t ++ u)) (hne : t ≠ [])
    (hblank : ∀ c ∈ t, isBlank c = false) : PlainWord t := by
  have hord : ∀ (b : Bool) (t : Text), Untouched b (t ++ u) → (∀ c ∈ t, isBlank c = false) →
      ∀ c ∈ t, ordinary c := by
    intro b t
    induction t generalizing b with
    | nil => simp
    | cons c t ih =>
      intro h hblank d hd
      simp only [List.cons_append, Untouched, hblank c (by simp), Bool.false_eq_true,
        ↓reduceIte] at h
      obtain rfl | hd := List.mem_cons.mp hd
      · exact h.1
      · exact ih false h.2.2 (fun e he => hblank e (by simp [he])) d hd
  refine ⟨hne, ?_, hord true t h hblank⟩
  cases t with
  | nil => exact absurd rfl hne
  | cons c t =>
    simp only [List.cons_append, Untouched, hblank c (by simp), Bool.false_eq_true,
      ↓reduceIte] at h
    simpa using h.2.1

theorem value_plain (t : Text) : value (marked .plain t) = some t := by
  simp [value, marked, Function.comp_def]

theorem parse_plain (ws : List Text) :
    parse (ws.map fun w => .word (marked .plain w)) = some ⟨ws.map (marked .plain), []⟩ := by
  induction ws with
  | nil => rfl
  | cons w ws ih => simp [parse, ih, addWord]

theorem reads_of_lexes {t : Text} {ws : List Text}
    (h : Lexes t (ws.map fun w => .word (marked .plain w))) : Reads t ws := by
  refine ⟨⟨ws.map (marked .plain), []⟩, ?_, ?_, rfl⟩
  · simp only [readCommand, h.2, Option.bind_some, parse_plain]
  · simp [value_plain, Function.comp_def]

end SvnCurses.ShellReads
