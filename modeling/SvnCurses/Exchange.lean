import Mathlib.Data.List.Induction

namespace SvnCurses.Exchange

variable {α : Type}

/-- Exchange two elements in place. -/
def swap (xs : List α) (i j : Nat) : List α :=
  match xs[i]?, xs[j]? with
  | some a, some b => (xs.set i b).set j a
  | _, _ => xs

/-- Reverse the range of this length in place, from its ends inwards. -/
def reverseRange (xs : List α) (start : Nat) : Nat → List α
  | len + 2 => reverseRange (swap xs start (start + len + 1)) (start + 1) len
  | _ => xs

/-- Exchange the two neighbouring ranges of these lengths: reverse them together,
and then each of them. -/
def exchangeRanges (xs : List α) (start len1 len2 : Nat) : List α :=
  reverseRange (reverseRange (reverseRange xs start (len1 + len2)) start len2) (start + len2) len1

theorem swap_ends (y y' : α) (xs mid zs : List α) :
    swap (xs ++ y :: (mid ++ y' :: zs)) xs.length (xs.length + mid.length + 1) =
      xs ++ y' :: (mid ++ y :: zs) := by
  have hlast : xs.length + mid.length + 1 = xs.length + (mid.length + 1) := by omega
  have hfirst : (xs ++ y :: (mid ++ y' :: zs))[xs.length]? = some y := by simp
  have hsecond : (xs ++ y :: (mid ++ y' :: zs))[xs.length + mid.length + 1]? = some y' := by
    rw [hlast, List.getElem?_append_right (by omega)]
    simp
  rw [swap, hfirst, hsecond, hlast]
  simp

theorem reverseRange_blocks (xs ys zs : List α) :
    reverseRange (xs ++ (ys ++ zs)) xs.length ys.length = xs ++ (ys.reverse ++ zs) := by
  induction ys using List.bidirectionalRec generalizing xs zs with
  | nil => rfl
  | singleton y => rfl
  | cons_append y mid y' ih =>
    have hlen : (y :: (mid ++ [y'])).length = mid.length + 2 := by simp
    have hleft : xs ++ (y :: (mid ++ [y']) ++ zs) = xs ++ y :: (mid ++ y' :: zs) := by simp
    have hinner := ih (xs ++ [y']) (y :: zs)
    rw [List.length_append, List.length_singleton, List.append_assoc, List.singleton_append]
      at hinner
    rw [hlen, hleft, reverseRange, swap_ends, hinner]
    simp

/-- Three reversals in place exchange two neighbouring blocks. -/
theorem exchangeRanges_blocks (xs ys zs ws : List α) :
    exchangeRanges (xs ++ (ys ++ (zs ++ ws))) xs.length ys.length zs.length =
      xs ++ (zs ++ (ys ++ ws)) := by
  have hboth := reverseRange_blocks xs (ys ++ zs) ws
  rw [List.length_append, List.append_assoc, List.reverse_append, List.append_assoc] at hboth
  have hfirst := reverseRange_blocks xs zs.reverse (ys.reverse ++ ws)
  rw [List.length_reverse, List.reverse_reverse] at hfirst
  have hsecond := reverseRange_blocks (xs ++ zs) ys.reverse ws
  rw [List.length_reverse, List.reverse_reverse, List.length_append, List.append_assoc,
    List.append_assoc] at hsecond
  rw [exchangeRanges, hboth, hfirst, hsecond]

end SvnCurses.Exchange
