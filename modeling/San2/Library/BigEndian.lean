import Mathlib.Data.List.Induction
import Mathlib.Data.Nat.Bitwise
import Mathlib.Data.Nat.Log
import Mathlib.Tactic.Ring

/-!
# Big-endian byte numerals

A byte string read from its most significant byte is a numeral in base 256.
This file fixes the value of such a numeral, the encoding of a number into a
given number of bytes, and the encoding without leading zero bytes. Nothing here
depends on the program; the wire formats and the big-number conversions are
instances of these three functions.
-/

namespace BigEndian

/-- The value of a byte string, most significant byte first. -/
def value (bytes : List UInt8) : ℕ :=
  bytes.foldl (fun acc b => 256 * acc + b.toNat) 0

/-- The `width` low-order base-256 digits of a number, most significant first. -/
def bytes : ℕ → ℕ → List UInt8
  | 0, _ => []
  | width + 1, n => bytes width (n / 256) ++ [UInt8.ofNat n]

/-- An encoding has exactly the requested width. -/
@[simp] theorem length_bytes (width n : ℕ) : (bytes width n).length = width := by
  induction width generalizing n with
  | zero => rfl
  | succ width ih => simp [bytes, ih]

/-- The empty numeral denotes zero. -/
@[simp] theorem value_nil : value [] = 0 := rfl

/-- Appending one byte is one base-256 accumulation step. -/
theorem value_append_singleton (xs : List UInt8) (b : UInt8) :
    value (xs ++ [b]) = 256 * value xs + b.toNat := by
  simp [value, List.foldl_append]

/-- Accumulating from `start` shifts it past the digits that follow. -/
theorem foldl_value (xs : List UInt8) (start : ℕ) :
    xs.foldl (fun acc b => 256 * acc + b.toNat) start =
      start * 256 ^ xs.length + value xs := by
  induction xs generalizing start with
  | nil => simp
  | cons b xs ih =>
    simp only [value, List.foldl_cons, List.length_cons, Nat.mul_zero, Nat.zero_add]
    rw [ih (256 * start + b.toNat), ih b.toNat]
    ring

/-- Concatenating numerals concatenates their digits. -/
theorem value_append (xs ys : List UInt8) :
    value (xs ++ ys) = value xs * 256 ^ ys.length + value ys := by
  rw [value, List.foldl_append]
  exact foldl_value ys _

/-- The leading byte carries the highest weight. -/
theorem value_cons (b : UInt8) (xs : List UInt8) :
    value (b :: xs) = b.toNat * 256 ^ xs.length + value xs := by
  have h := value_append [b] xs
  simpa [value] using h

/-- A numeral of `n` bytes is below `256 ^ n`. -/
theorem value_lt (xs : List UInt8) : value xs < 256 ^ xs.length := by
  induction xs using List.reverseRecOn with
  | nil => simp
  | append_singleton xs b ih =>
    have hb := b.toNat_lt
    rw [value_append_singleton, List.length_append, List.length_singleton, pow_succ]
    omega

/-- Decoding an encoding keeps the digits that fit. -/
theorem value_bytes (width n : ℕ) : value (bytes width n) = n % 256 ^ width := by
  induction width generalizing n with
  | zero => simp [bytes, Nat.mod_one]
  | succ width ih =>
    have hmod : n % (256 * 256 ^ width) = n % 256 + 256 * (n / 256 % 256 ^ width) := Nat.mod_mul
    rw [bytes, value_append_singleton, ih, pow_succ' 256 width, hmod, UInt8.toNat_ofNat']
    omega

/-- Decoding an encoding that is wide enough gives the number back. -/
theorem value_bytes_of_lt {width n : ℕ} (h : n < 256 ^ width) : value (bytes width n) = n := by
  rw [value_bytes, Nat.mod_eq_of_lt h]

/-- Encoding the value of a numeral at its own length gives it back. -/
theorem bytes_value (xs : List UInt8) : bytes xs.length (value xs) = xs := by
  induction xs using List.reverseRecOn with
  | nil => rfl
  | append_singleton xs b ih =>
    have hb := b.toNat_lt
    have hdiv : (256 * value xs + b.toNat) / 256 = value xs := by omega
    rw [List.length_append, List.length_singleton, bytes, value_append_singleton, hdiv, ih]
    congr 2
    apply UInt8.toNat_inj.mp
    rw [UInt8.toNat_ofNat']
    omega

/-- An encoding keeps only the digits that it has room for. -/
theorem bytes_mod (width n : ℕ) : bytes width (n % 256 ^ width) = bytes width n := by
  have h := bytes_value (bytes width n)
  rwa [length_bytes, value_bytes] at h

/-- Numbers that fit are determined by their encodings. -/
theorem bytes_injective (width : ℕ) {m n : ℕ} (hm : m < 256 ^ width) (hn : n < 256 ^ width)
    (h : bytes width m = bytes width n) : m = n := by
  rw [← value_bytes_of_lt hm, ← value_bytes_of_lt hn, h]

/-- Leading zero bytes do not change the value. -/
@[simp] theorem value_replicate_zero_append (k : ℕ) (xs : List UInt8) :
    value (List.replicate k 0 ++ xs) = value xs := by
  induction k with
  | zero => rfl
  | succ k ih => rw [List.replicate_succ, List.cons_append, value_cons, ih]; simp

/-- The digit at position `k` from the front. -/
theorem getElem_bytes (width n k : ℕ) (hk : k < (bytes width n).length) :
    (bytes width n)[k] = UInt8.ofNat (n / 256 ^ (width - 1 - k)) := by
  induction width generalizing n with
  | zero => simp at hk
  | succ width ih =>
    simp only [length_bytes] at hk
    simp only [bytes]
    by_cases hlast : k < width
    · rw [List.getElem_append_left (by simpa using hlast), ih, Nat.div_div_eq_div_mul, ← pow_succ']
      congr 3
      omega
    · have hkw : k = width := by omega
      subst hkw
      simp

/-- Bit `j` of byte `k`, counted from the least significant end, is bit `8 * k + j`. -/
theorem testBit_byte (n k j : ℕ) (hj : j < 8) :
    (UInt8.ofNat (n / 256 ^ k)).toNat.testBit j = n.testBit (8 * k + j) := by
  have hpow : (256 : ℕ) ^ k = 2 ^ (8 * k) := by rw [pow_mul]; norm_num
  rw [UInt8.toNat_ofNat', show (2 : ℕ) ^ 8 = 2 ^ 8 from rfl, Nat.testBit_mod_two_pow, hpow,
    Nat.testBit_div_two_pow]
  simp [hj, Nat.add_comm]

/-- A number whose bits are those of another with the bytes taken in the opposite
order is encoded by the reversed byte string. -/
theorem bytes_eq_reverse_of_testBit {width m n : ℕ}
    (h : ∀ i < 8 * width, m.testBit i = n.testBit (8 * (width - 1 - i / 8) + i % 8)) :
    bytes width m = (bytes width n).reverse := by
  apply List.ext_getElem
  · simp
  · intro k hk _
    have hkw : k < width := by simpa using hk
    rw [getElem_bytes, List.getElem_reverse, getElem_bytes]
    apply UInt8.toNat_inj.mp
    apply Nat.eq_of_testBit_eq
    intro j
    by_cases hj : j < 8
    · rw [testBit_byte _ _ _ hj, testBit_byte _ _ _ hj, h _ (by omega)]
      simp only [length_bytes]
      congr 1
      omega
    · have hbig (b : UInt8) : b.toNat.testBit j = false := by
        apply Nat.testBit_lt_two_pow
        exact lt_of_lt_of_le b.toNat_lt (Nat.pow_le_pow_right (by norm_num) (by omega))
      rw [hbig, hbig]

/-- The number of bytes in the shortest numeral of `n`; zero has none. -/
def byteLength (n : ℕ) : ℕ := if n = 0 then 0 else Nat.log 256 n + 1

/-- The shortest numeral of `n`: no leading zero byte, and zero is empty. -/
def minimal (n : ℕ) : List UInt8 := bytes (byteLength n) n

/-- A number fits in its own byte length. -/
theorem lt_pow_byteLength (n : ℕ) : n < 256 ^ byteLength n := by
  unfold byteLength
  split
  · omega
  · exact Nat.lt_pow_succ_log_self (by norm_num) n

/-- The shortest encoding has as many bytes as the number needs. -/
@[simp] theorem length_minimal (n : ℕ) : (minimal n).length = byteLength n := length_bytes _ _

/-- The shortest numeral denotes the number it was made from. -/
@[simp] theorem value_minimal (n : ℕ) : value (minimal n) = n :=
  value_bytes_of_lt (lt_pow_byteLength n)

/-- A number fits in `k` bytes exactly when its shortest numeral does. -/
theorem byteLength_le_iff {n k : ℕ} : byteLength n ≤ k ↔ n < 256 ^ k := by
  constructor
  · intro h
    exact lt_of_lt_of_le (lt_pow_byteLength n) (Nat.pow_le_pow_right (by norm_num) h)
  · intro h
    unfold byteLength
    split
    · exact Nat.zero_le k
    · exact Nat.log_lt_of_lt_pow ‹_› h

/-- The shortest numeral of a nonzero number begins with a nonzero byte. -/
theorem minimal_head_ne_zero {n : ℕ} (hn : n ≠ 0) :
    ∃ b rest, minimal n = b :: rest ∧ b ≠ 0 := by
  cases hm : minimal n with
  | nil =>
    have h := value_minimal n
    rw [hm, value_nil] at h
    exact absurd h.symm hn
  | cons b rest =>
    refine ⟨b, rest, rfl, ?_⟩
    rintro rfl
    have hlen : byteLength n = rest.length + 1 := by
      rw [← length_minimal, hm, List.length_cons]
    have hvalue : value rest = n := by
      have h := value_minimal n
      rw [hm, value_cons] at h
      simpa using h
    have hle := byteLength_le_iff.mpr (hvalue ▸ value_lt rest)
    omega

end BigEndian
