import Mathlib.Data.List.Basic
import Mathlib.Tactic.Ring

namespace SvnCurses.Cpp

/-- The characters of a `std::string`, one `Char` for each `char` it stores. -/
abbrev Str := List Char

/-- Comparing strings with `==`, as a search in a vector of them does, decides equality. -/
instance : LawfulBEq Str := inferInstance

inductive Exception
  | lengthError
  | outOfRange
  | runtimeError (what : Str)
  deriving DecidableEq

inductive Undefined
  | signedOverflow
  | vectorIndex
  | popBackOnEmpty
  | frontOnEmpty
  deriving DecidableEq

/-- Why an evaluation has no value: it throws, or its behaviour is undefined. -/
inductive Fault
  | thrown (e : Exception)
  | undefined (u : Undefined)
  deriving DecidableEq

/-- An evaluation that goes on after another one has a value when both have. -/
theorem bind_ok {ε α β : Type} {e : Except ε α} {f : α → Except ε β} {b : β} :
    e >>= f = .ok b ↔ ∃ a, e = .ok a ∧ f a = .ok b := by
  cases e with
  | error fault => simp [Bind.bind, Except.bind]
  | ok a => simp [Bind.bind, Except.bind]

theorem bind_error {α β : Type} {e : Except Fault α} {f : α → Except Fault β} {fault : Fault} :
    e >>= f = .error fault ↔ e = .error fault ∨ ∃ a, e = .ok a ∧ f a = .error fault := by
  cases e with
  | error other => simp [Bind.bind, Except.bind]
  | ok a => simp [Bind.bind, Except.bind]

section Int

def intMin : Int := -2 ^ 31

def intMax : Int := 2 ^ 31 - 1

/-- The value of a signed `int` expression. Overflow is undefined. -/
def checked (x : Int) : Except Fault Int :=
  if intMin ≤ x ∧ x ≤ intMax then .ok x else .error (.undefined .signedOverflow)

/-- The conversion to `size_t`. As reduction modulo 2^64 commutes with sums and
differences, it is also applied once to a whole `size_t` expression. -/
def toSize (x : Int) : Nat := (x % 2 ^ 64).toNat

/-- The conversion of a `size_t` back to `int`. -/
def narrow (n : Nat) : Int := Int.bmod n (2 ^ 32)

theorem checked_ok {x y : Int} : checked x = .ok y ↔ x = y ∧ intMin ≤ x ∧ x ≤ intMax := by
  constructor
  · intro h
    unfold checked at h
    split at h <;> simp_all
  · rintro ⟨rfl, h⟩
    exact if_pos h

theorem toSize_of_nonneg {x : Int} (h : 0 ≤ x) (hx : x < 2 ^ 64) : (toSize x : Int) = x := by
  unfold toSize
  omega

theorem toSize_of_neg {x : Int} (h : x < 0) (hx : -2 ^ 64 ≤ x) : (toSize x : Int) = x + 2 ^ 64 := by
  unfold toSize
  omega

theorem narrow_toSize (x : Int) : narrow (toSize x) = Int.bmod x (2 ^ 32) := by
  have hnonneg : (0 : Int) ≤ x % 2 ^ 64 := Int.emod_nonneg _ (by decide)
  unfold narrow toSize
  rw [Int.toNat_of_nonneg hnonneg, ← Int.emod_bmod (x % 2 ^ 64), ← Int.emod_bmod x]
  congr 1
  omega

theorem bmod_of_inRange {x : Int} (h : intMin ≤ x) (hx : x ≤ intMax) :
    Int.bmod x (2 ^ 32) = x := by
  unfold intMin at h
  unfold intMax at hx
  rw [Int.bmod_eq_iff (by decide)]
  omega

end Int

section String

/-- `std::string::max_size` of the standard library the program is built with. -/
def maxSize : Nat := 2 ^ 62 - 1

/-- `append(count, c)`, the count converted to `size_type` as the call does. -/
def append (s : Str) (count : Int) (c : Char) : Except Fault Str :=
  if maxSize - s.length < toSize count then .error (.thrown .lengthError)
  else .ok (s ++ List.replicate (toSize count) c)

def insertAt (s : Str) (pos : Nat) (t : Str) : Except Fault Str :=
  if s.length < pos then .error (.thrown .outOfRange)
  else if maxSize - s.length < t.length then .error (.thrown .lengthError)
  else .ok (s.take pos ++ t ++ s.drop pos)

def popBack (s : Str) : Except Fault Str :=
  if s = [] then .error (.undefined .popBackOnEmpty) else .ok s.dropLast

def front (s : Str) : Except Fault Char :=
  match s with
  | [] => .error (.undefined .frontOnEmpty)
  | c :: _ => .ok c

/-- `operator[]` of a vector, the index converted to `size_type`. -/
def index {α : Type} (v : List α) (i : Int) : Except Fault α :=
  match v[toSize i]? with
  | none => .error (.undefined .vectorIndex)
  | some a => .ok a

/-- `boost::join`. -/
def join (items : List Str) (separator : Str) : Str := separator.intercalate items

/-- `boost::split` on one separator, without token compression. -/
def split (s : Str) (separator : Char) : List Str := s.splitOn separator

/-- The characters a C string function reads of a buffer. -/
def cString (s : Str) : Str := s.takeWhile (· ≠ '\x00')

theorem append_ok {s t : Str} {count : Int} {c : Char} (hmin : intMin ≤ count)
    (hmax : count ≤ intMax) (h : append s count c = .ok t) :
    0 ≤ count ∧ t = s ++ List.replicate count.toNat c := by
  unfold intMin at hmin
  unfold intMax at hmax
  unfold append maxSize at h
  split at h
  · cases h
  · next hfit =>
    -- a negative count is within 2^31 of 2^64 after the conversion
    have hnonneg : 0 ≤ count := by
      by_contra hneg
      have := toSize_of_neg (x := count) (by omega) (by omega)
      omega
    have hsize : toSize count = count.toNat := by
      have := toSize_of_nonneg hnonneg (by omega)
      omega
    rw [hsize] at h
    cases h
    exact ⟨hnonneg, rfl⟩

/-- A string can be extended by a count that is not negative and leaves it a string. -/
theorem append_iff {s : Str} {count : Int} {c : Char} (hs : s.length ≤ maxSize)
    (hmin : intMin ≤ count) (hmax : count ≤ intMax) :
    (∃ t, append s count c = .ok t) ↔ 0 ≤ count ∧ s.length + count ≤ maxSize := by
  unfold intMin at hmin
  unfold intMax at hmax
  constructor
  · rintro ⟨t, ht⟩
    have hnonneg := (append_ok hmin hmax ht).1
    have hsize := toSize_of_nonneg hnonneg (by omega)
    unfold append at ht
    split at ht
    · cases ht
    · exact ⟨hnonneg, by omega⟩
  · rintro ⟨hnonneg, hfit⟩
    have hsize := toSize_of_nonneg hnonneg (by omega)
    unfold append
    rw [if_neg (by omega)]
    exact ⟨_, rfl⟩

theorem append_zero (s : Str) (c : Char) : append s 0 c = .ok s := by
  simp [append, toSize]

theorem insertAt_ok {s t u : Str} {pos : Nat} :
    insertAt s pos t = .ok u ↔
      pos ≤ s.length ∧ t.length ≤ maxSize - s.length ∧ s.take pos ++ t ++ s.drop pos = u := by
  unfold insertAt
  by_cases hpos : s.length < pos
  · rw [if_pos hpos]
    simp [Nat.not_le.mpr hpos]
  rw [if_neg hpos]
  by_cases hroom : maxSize - s.length < t.length
  · rw [if_pos hroom]
    simp [Nat.not_le.mpr hroom]
  · rw [if_neg hroom]
    simp [Nat.not_lt.mp hpos, Nat.not_lt.mp hroom]

theorem popBack_ok {s t : Str} : popBack s = .ok t ↔ s ≠ [] ∧ s.dropLast = t := by
  unfold popBack
  split <;> simp_all

theorem index_ok {α : Type} {v : List α} {i : Int} {a : α} :
    index v i = .ok a ↔ v[toSize i]? = some a := by
  unfold index
  split <;> simp_all

theorem split_ne_nil (s : Str) (c : Char) : split s c ≠ [] := List.splitOnP_ne_nil _ _

theorem split_length (s : Str) (c : Char) : (split s c).length = s.count c + 1 := by
  induction s with
  | nil => rfl
  | cons d s ih =>
    rw [split, List.splitOn_cons_eq_if_modifyHead]
    by_cases h : d = c
    · simpa [h, split] using ih
    · simpa [h, split] using ih

/-- The pieces hold what the string holds, apart from the separators. -/
theorem split_mem {s t : Str} {c d : Char} (ht : t ∈ split s c) (hd : d ∈ t) : d ∈ s ∧ d ≠ c := by
  induction s generalizing t with
  | nil =>
    obtain rfl := List.mem_singleton.mp ht
    cases hd
  | cons e s ih =>
    rw [split, List.splitOn_cons_eq_if_modifyHead] at ht
    by_cases he : e = c
    · rw [if_pos (beq_iff_eq.mpr he)] at ht
      obtain rfl | ht := List.mem_cons.mp ht
      · cases hd
      · exact ⟨List.mem_cons_of_mem e (ih ht hd).1, (ih ht hd).2⟩
    · rw [if_neg (by simpa using he)] at ht
      obtain ⟨first, rest, hpieces⟩ := List.exists_cons_of_ne_nil (split_ne_nil s c)
      have hmem : ∀ u ∈ first :: rest, d ∈ u → d ∈ s ∧ d ≠ c := fun u hu => ih (hpieces ▸ hu)
      rw [← split, hpieces, List.modifyHead_cons] at ht
      obtain rfl | ht := List.mem_cons.mp ht
      · obtain rfl | hd := List.mem_cons.mp hd
        · exact ⟨List.mem_cons_self, he⟩
        · have hfirst := hmem first List.mem_cons_self hd
          exact ⟨List.mem_cons_of_mem e hfirst.1, hfirst.2⟩
      · have hrest := hmem t (List.mem_cons_of_mem first ht) hd
        exact ⟨List.mem_cons_of_mem e hrest.1, hrest.2⟩

theorem join_split (s : Str) (c : Char) : join (split s c) [c] = s := List.intercalate_splitOn c

end String

section Stream

/-- The characters up to and with the first newline, at most `room` of them, and
what the stream still holds. -/
def readLine : Nat → Str → Str × Str
  | 0, s => ([], s)
  | _ + 1, [] => ([], [])
  | room + 1, c :: s =>
      if c = '\n' then ([c], s) else (c :: (readLine room s).1, (readLine room s).2)

/-- `fgets` with a buffer of the given size. Without a character left it reports
the end of the stream. -/
def fgets (size : Nat) (s : Str) : Option (Str × Str) :=
  if s = [] then none else some (readLine (size - 1) s)

theorem readLine_append (room : Nat) (s : Str) :
    (readLine room s).1 ++ (readLine room s).2 = s := by
  induction room generalizing s with
  | zero => rfl
  | succ room ih =>
    cases s with
    | nil => rfl
    | cons c s =>
      simp only [readLine]
      split
      · rfl
      · simpa using ih s

theorem readLine_ne_nil {room : Nat} {s : Str} (hr : 0 < room) (hs : s ≠ []) :
    (readLine room s).1 ≠ [] := by
  cases room with
  | zero => omega
  | succ room =>
    cases s with
    | nil => exact absurd rfl hs
    | cons c s =>
      simp only [readLine]
      split <;> simp

end Stream

end SvnCurses.Cpp
