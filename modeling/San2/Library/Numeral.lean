import Mathlib.Data.List.Induction
import Mathlib.Tactic.Ring

/-!
# Numerals in any base

A list of digits, most significant first, is a numeral. Its value does not change when its
digits are put together in pairs, which are the digits of a numeral in the square of the
base.
-/

namespace Numeral

/-- The value of a numeral. -/
def value (base : ℕ) (digits : List ℕ) : ℕ :=
  digits.foldl (fun acc d => base * acc + d) 0

/-- The digits of an even number of digits, two by two. -/
def pairs (base : ℕ) : List ℕ → List ℕ
  | [] => []
  | [_] => []
  | high :: low :: digits => (base * high + low) :: pairs base digits

variable {base : ℕ}

/-- No digits stand for zero. -/
@[simp] theorem value_nil : value base [] = 0 := rfl

/-- Accumulating from `start` shifts it past the digits that follow. -/
theorem foldl_value (digits : List ℕ) (start : ℕ) :
    digits.foldl (fun acc d => base * acc + d) start =
      start * base ^ digits.length + value base digits := by
  induction digits generalizing start with
  | nil => simp
  | cons d digits ih =>
    simp only [value, List.foldl_cons, List.length_cons, Nat.mul_zero, Nat.zero_add]
    rw [ih (base * start + d), ih d]
    ring

/-- The leading digit carries the highest weight. -/
theorem value_cons (d : ℕ) (digits : List ℕ) :
    value base (d :: digits) = d * base ^ digits.length + value base digits := by
  have h := @foldl_value base digits d
  simpa [value] using h

/-- Leading zeros do not count. -/
theorem value_replicate_zero_append (count : ℕ) (digits : List ℕ) :
    value base (List.replicate count 0 ++ digits) = value base digits := by
  induction count with
  | zero => rfl
  | succ count ih =>
    rw [List.replicate_succ, List.cons_append, value_cons, Nat.zero_mul, Nat.zero_add]
    exact ih

/-- Two digits make one pair. -/
theorem length_pairs (digits : List ℕ) : (pairs base digits).length = digits.length / 2 := by
  induction digits using pairs.induct with
  | case1 => simp [pairs]
  | case2 d => simp [pairs]
  | case3 high low digits ih =>
    rw [pairs, List.length_cons, ih, List.length_cons, List.length_cons]
    omega

/-- The pairs are the digits of the same number in the square of the base. -/
theorem value_pairs {digits : List ℕ} (heven : digits.length % 2 = 0) :
    value (base * base) (pairs base digits) = value base digits := by
  induction digits using pairs.induct with
  | case1 => rfl
  | case2 d => simp at heven
  | case3 high low digits ih =>
    rw [List.length_cons, List.length_cons] at heven
    have hrest : digits.length % 2 = 0 := by omega
    have hweight : (base * base) ^ (digits.length / 2) = base ^ digits.length := by
      have htwice : digits.length = 2 * (digits.length / 2) := by omega
      conv_rhs => rw [htwice, pow_mul, sq]
    rw [pairs, value_cons, value_cons, value_cons, ih hrest, length_pairs, hweight,
      List.length_cons, pow_succ]
    ring

end Numeral
