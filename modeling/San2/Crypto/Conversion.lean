import Mathlib.Data.List.TakeWhile
import San2.Utils.Hex

/-!
# The other hexadecimal decoder

`DragonSRP::Conversion` has a decoder of its own. It counts in `int` where `hexToBytes`
counts in `size_t`, so the two of them part at strings that are too long for an `int`.
-/

namespace San2.DragonSRP.Conversion

open Utils

/-- The end of a call of `hexstring2bytes`. -/
inductive HexOutcome
  /-- An `int` overflows, or memory behind the string is read. -/
  | undefined
  /-- `ConversionException` -/
  | throws (message : String)
  /-- `std::length_error`, from a `resize` to a negative length. -/
  | lengthError
  | returns (bytes : Bytes)
  deriving DecidableEq, Repr

/-- The conversion of a `size_t` to `int`. -/
def intOfSize (size : ℕ) : ℤ :=
  let word := size % 4294967296
  if word < 2147483648 then word else (word : ℤ) - 4294967296

/-- `hexnormalize`, with the number that it leaves in its argument. -/
def hexnormalize (c : UInt8) : Option UInt8 :=
  if 0x30 ≤ c ∧ c ≤ 0x39 then some (c - 48)
  else if 0x41 ≤ c ∧ c ≤ 0x46 then some (c - 55)
  else if 0x61 ≤ c ∧ c ≤ 0x66 then some (c - 87)
  else none

/-- The message of the exception for a character. -/
def invalidCharacter : String :=
  "Invalid character detected - hex string can only consist of 0..9 a..f A..F; " ++
    "Didnt you forgot to trim newline?"

/-- The loop of `hextobyte` on what follows `hexstring + i * 2`. -/
def hextobyteLoop (lenout : ℤ) (i : ℕ) (result : Bytes) : Bytes → HexOutcome
  | c1 :: c2 :: rest =>
    if lenout ≤ i then .returns result
    else if 2147483647 < i * 2 then .undefined
    else
      match hexnormalize c1, hexnormalize c2 with
      | some c1, some c2 => hextobyteLoop lenout (i + 1) (result ++ [c1 * 16 + c2]) rest
      | _, _ => .throws invalidCharacter
  | _ => if lenout ≤ i then .returns result else .undefined

/-- `hexstring2bytes`: `hextobyte` on the string up to its first NUL, and `array2bytes` on
what it returns. -/
def hexstring2bytes (str : Bytes) : HexOutcome :=
  let hexstring := str.takeWhile (· ≠ 0)
  if hexstring.length % 2 ≠ 0 then .throws "Hex string must have even number of characters."
  else
    let lenout := intOfSize (hexstring.length / 2)
    match hextobyteLoop lenout 0 [] hexstring with
    | .returns arr => if lenout < 0 then .lengthError else .returns arr
    | other => other

/-- A size that an `int` can hold stays as it is. -/
theorem intOfSize_of_lt {size : ℕ} (h : size < 2147483648) : intOfSize size = size := by
  unfold intOfSize
  dsimp only
  rw [Nat.mod_eq_of_lt (by omega), if_pos h]

/-- An `int` is never more than the size that it was made of. -/
theorem intOfSize_le (size : ℕ) : intOfSize size ≤ size := by
  unfold intOfSize
  dsimp only
  split_ifs <;> omega

/-- The digits are the same ones as those of `isxdigit`. -/
theorem hexnormalize_eq : ∀ c : UInt8,
    hexnormalize c = if isxdigit c = true then some (UInt8.ofNat (digitValue c)) else none := by
  decide +kernel

/-- As long as `i` stays below `lenout` and twice `i` is an `int`, the loop goes on over
pairs of digits. -/
theorem hextobyteLoop_of_allHex {lenout : ℤ} {str : Bytes} {i steps : ℕ} (result : Bytes)
    (hlength : 2 * steps ≤ str.length) (hlenout : (i : ℤ) + steps ≤ lenout)
    (hint : i + steps ≤ 1073741824) (h : AllHex (str.take (2 * steps))) :
    hextobyteLoop lenout i result str =
      hextobyteLoop lenout (i + steps) (result ++ pairBytes (str.take (2 * steps)))
        (str.drop (2 * steps)) := by
  induction steps generalizing i result str with
  | zero => simp [pairBytes]
  | succ steps ih =>
    have htwice : 2 * (steps + 1) = 2 * steps + 1 + 1 := by omega
    rcases str with _ | ⟨high, _ | ⟨low, str⟩⟩
    · rw [List.length_nil] at hlength
      omega
    · rw [List.length_singleton] at hlength
      omega
    · rw [htwice, List.take_succ_cons, List.take_succ_cons] at h
      obtain ⟨hhigh, h⟩ := allHex_cons.mp h
      obtain ⟨hlow, h⟩ := allHex_cons.mp h
      have hbyte : UInt8.ofNat (digitValue high) * 16 + UInt8.ofNat (digitValue low) =
          UInt8.ofNat (16 * digitValue high + digitValue low) := by
        rw [UInt8.ofNat_add, UInt8.ofNat_mul, UInt8.mul_comm]
        rfl
      have hlen : 2 * steps ≤ str.length := by
        simp only [List.length_cons] at hlength
        omega
      have hnext : ((i + 1 : ℕ) : ℤ) + steps ≤ lenout := by push_cast at hlenout ⊢; omega
      have hrest := ih (i := i + 1)
        (result ++ [UInt8.ofNat (16 * digitValue high + digitValue low)]) hlen hnext (by omega) h
      rw [hextobyteLoop, if_neg (by omega), if_neg (by omega), hexnormalize_eq, hexnormalize_eq,
        if_pos hhigh, if_pos hlow]
      dsimp only
      rw [hbyte, hrest, htwice, List.take_succ_cons, List.take_succ_cons, List.drop_succ_cons,
        List.drop_succ_cons, pairBytes, List.append_assoc]
      rw [Nat.add_right_comm, Nat.add_assoc i steps 1]
      rfl

/-- A pair that is not made of digits ends the loop. -/
theorem hextobyteLoop_of_not_allHex {lenout : ℤ} {str : Bytes} {i steps : ℕ} (result : Bytes)
    (hlength : 2 * steps ≤ str.length) (hlenout : (i : ℤ) + steps ≤ lenout)
    (hint : i + steps ≤ 1073741824) (h : ¬AllHex (str.take (2 * steps))) :
    hextobyteLoop lenout i result str = .throws invalidCharacter := by
  induction steps generalizing i result str with
  | zero => exact absurd (by simp [AllHex]) h
  | succ steps ih =>
    have htwice : 2 * (steps + 1) = 2 * steps + 1 + 1 := by omega
    rcases str with _ | ⟨high, _ | ⟨low, str⟩⟩
    · rw [List.length_nil] at hlength
      omega
    · rw [List.length_singleton] at hlength
      omega
    · rw [htwice, List.take_succ_cons, List.take_succ_cons, allHex_cons, allHex_cons] at h
      have hlen : 2 * steps ≤ str.length := by
        simp only [List.length_cons] at hlength
        omega
      have hnext : ((i + 1 : ℕ) : ℤ) + steps ≤ lenout := by push_cast at hlenout ⊢; omega
      rw [hextobyteLoop, if_neg (by omega), if_neg (by omega), hexnormalize_eq, hexnormalize_eq]
      by_cases hhigh : isxdigit high = true
      · by_cases hlow : isxdigit low = true
        · rw [if_pos hhigh, if_pos hlow]
          have hrest : ¬AllHex (str.take (2 * steps)) := fun hrest => h ⟨hhigh, hlow, hrest⟩
          exact ih _ hlen hnext (by omega) hrest
        · rw [if_pos hhigh, if_neg hlow]
      · rw [if_neg hhigh]

/-- Behind `lenout` bytes the loop is over. -/
theorem hextobyteLoop_of_le {lenout : ℤ} {i : ℕ} (result str : Bytes) (h : lenout ≤ i) :
    hextobyteLoop lenout i result str = .returns result := by
  unfold hextobyteLoop
  split
  · exact if_pos h
  · exact if_pos h

/-- Twice the number `2 ^ 30` is no `int`. -/
theorem hextobyteLoop_of_lt {lenout : ℤ} {i : ℕ} (result str : Bytes) (h : i < lenout)
    (hint : 1073741824 ≤ i) : hextobyteLoop lenout i result str = .undefined := by
  unfold hextobyteLoop
  split
  · rw [if_neg (by omega), if_pos (by omega)]
  · exact if_neg (by omega)

/-- Both decoders accept the string and yield the same bytes, or both refuse it. -/
structure Agrees (str : Bytes) : Prop where
  defined : hexstring2bytes str ≠ .undefined
  same : ∀ bytes, hexstring2bytes str = .returns bytes ↔ hexToBytes str = (true, bytes)

/-- The characters whose digits decide whether the decoders agree: those that
`hextobyteLoop` looks at before it ends or `i * 2` overflows, and all of them where a negative
`lenout` makes `array2bytes` throw in any case. -/
def lookedAt (length : ℕ) : ℕ :=
  let lenout := intOfSize (length / 2)
  if lenout < 0 then length else min (2 * lenout.toNat) 2147483648

/-- The string is short enough, or refused for one of the characters that are looked at. -/
def Comparable (str : Bytes) : Prop :=
  str.length ≤ 2147483648 ∨ ¬AllHex (str.take (lookedAt str.length))

/-- A string without a zero is its own text. -/
theorem takeWhile_of_nul_not_mem {str : Bytes} (h : (0 : UInt8) ∉ str) :
    str.takeWhile (· ≠ 0) = str := by
  rw [List.takeWhile_eq_self_iff]
  intro c hc
  have hne : c ≠ 0 := ne_of_mem_of_not_mem hc h
  simpa using hne

/-- A prefix of digits. -/
theorem AllHex.take {str : Bytes} (h : AllHex str) (count : ℕ) : AllHex (str.take count) :=
  fun c hc => h c (List.mem_of_mem_take hc)

/-- Where `hexstring2bytes` throws, the decoders agree if `hexToBytes` refuses the string. -/
theorem agrees_of_throws {str : Bytes} {message : String}
    (hend : hexstring2bytes str = .throws message)
    (h : ¬AllHex str) : Agrees str := by
  constructor
  · rw [hend]
    simp
  · intro bytes
    rw [hend]
    refine iff_of_false (by simp) ?_
    intro hbytes
    have htrue := (hexToBytes_iff str).mp (congrArg Prod.fst hbytes)
    exact h htrue

section Even

variable {str : Bytes} (heven : str.length % 2 = 0) (hnul : (0 : UInt8) ∉ str)
include heven hnul

/-- Where the size becomes negative the string cannot be made, else the loop decides. -/
theorem hexstring2bytes_eq : hexstring2bytes str =
    match hextobyteLoop (intOfSize (str.length / 2)) 0 [] str with
    | .returns arr => if intOfSize (str.length / 2) < 0 then .lengthError else .returns arr
    | other => other := by
  unfold hexstring2bytes
  rw [takeWhile_of_nul_not_mem hnul]
  exact if_neg (by omega)

/-- For a string that is not too long the two conversions agree. -/
theorem agrees_of_short (hshort : str.length ≤ 2147483648) : Agrees str := by
  have hstring := hexstring2bytes_eq heven hnul
  have hlenout : intOfSize (str.length / 2) = (str.length / 2 : ℕ) :=
    intOfSize_of_lt (by omega)
  have htake : str.take (2 * (str.length / 2)) = str := List.take_of_length_le (by omega)
  rw [hlenout] at hstring
  by_cases hhex : AllHex str
  · have hbytes := (hexToBytes_eq str).1 hhex
    have hloop := @hextobyteLoop_of_allHex (str.length / 2 : ℕ) str 0 (str.length / 2) [] (by omega)
      (by omega) (by omega) (by rwa [htake])
    rw [htake] at hloop
    rw [hloop.trans (hextobyteLoop_of_le _ _ (by omega))] at hstring
    have hreturns : hexstring2bytes str = .returns (pairBytes str) := by
      rw [hstring]
      exact if_neg (by omega)
    rw [if_neg (by omega)] at hbytes
    constructor
    · rw [hreturns]
      simp
    · intro bytes
      rw [hreturns, hbytes]
      simp
  · have hloop := @hextobyteLoop_of_not_allHex (str.length / 2 : ℕ) str 0 (str.length / 2) []
      (by omega) (by omega) (by omega) (by rwa [htake])
    rw [hloop] at hstring
    exact agrees_of_throws hstring hhex

/-- The count of the bytes wraps around to a negative number. -/
theorem agrees_iff_of_negative (hnegative : intOfSize (str.length / 2) < 0) :
    Agrees str ↔ ¬AllHex str := by
  have hstring := hexstring2bytes_eq heven hnul
  rw [hextobyteLoop_of_le _ _ (by omega)] at hstring
  have hend : hexstring2bytes str = .lengthError := hstring.trans (if_pos hnegative)
  constructor
  · intro h hhex
    have hbytes := (h.same _).mpr ((hexToBytes_eq str).1 hhex)
    rw [hend] at hbytes
    cases hbytes
  · intro hhex
    constructor
    · rw [hend]
      simp
    · intro bytes
      rw [hend]
      refine iff_of_false (by simp) ?_
      intro hbytes
      exact hhex ((hexToBytes_iff str).mp (congrArg Prod.fst hbytes))

/-- More characters than `i * 2` can count, or fewer bytes than the string has. -/
theorem agrees_iff_of_long {lenout : ℕ} (hlong : 2147483648 < str.length)
    (hlenout : intOfSize (str.length / 2) = lenout) :
    Agrees str ↔ ¬AllHex (str.take (min (2 * lenout) 2147483648)) := by
  have hstring := hexstring2bytes_eq heven hnul
  have hle := intOfSize_le (str.length / 2)
  obtain ⟨steps, hsteps⟩ : ∃ steps, steps = min lenout 1073741824 := ⟨_, rfl⟩
  have hlooked : min (2 * lenout) 2147483648 = 2 * steps := by omega
  rw [hlenout] at hstring
  rw [hlooked]
  constructor
  · intro h hhex
    have hloop := @hextobyteLoop_of_allHex lenout str 0 steps [] (by omega) (by omega) (by omega)
      hhex
    by_cases hmore : lenout ≤ 1073741824
    · rw [hloop.trans (hextobyteLoop_of_le _ _ (by omega))] at hstring
      have hreturns : hexstring2bytes str = .returns (pairBytes (str.take (2 * steps))) := by
        rw [hstring]
        exact if_neg (by omega)
      have hbytes := (h.same _).mp hreturns
      have hall := (hexToBytes_iff str).mp (congrArg Prod.fst hbytes)
      have hlength := (hexToBytes_value hall).1
      rw [hbytes] at hlength
      dsimp only at hlength
      rw [length_pairBytes, List.length_take] at hlength
      omega
    · rw [hloop.trans (hextobyteLoop_of_lt _ _ (by omega) (by omega))] at hstring
      exact h.defined hstring
  · intro hhex
    have hloop := @hextobyteLoop_of_not_allHex lenout str 0 steps [] (by omega) (by omega)
      (by omega) hhex
    rw [hloop] at hstring
    exact agrees_of_throws hstring fun hall => hhex (AllHex.take hall _)

/-- The decoders agree on a string exactly if it is comparable. -/
theorem agrees_iff : Agrees str ↔ Comparable str := by
  unfold Comparable lookedAt
  dsimp only
  by_cases hshort : str.length ≤ 2147483648
  · exact iff_of_true (agrees_of_short heven hnul hshort) (.inl hshort)
  · rw [or_iff_right hshort]
    by_cases hnegative : intOfSize (str.length / 2) < 0
    · rw [if_pos hnegative, List.take_length]
      exact agrees_iff_of_negative heven hnul hnegative
    · obtain ⟨lenout, hlenout⟩ := Int.eq_ofNat_of_zero_le (not_lt.mp hnegative)
      rw [if_neg hnegative, hlenout]
      exact agrees_iff_of_long heven hnul (by omega) hlenout

end Even

/-- What the decoders make of a string: `hexToBytes` accepts digits only, their number is the
value of the bytes, bytes that were written come back, and `hexstring2bytes` agrees. -/
structure HexConversion (str : Bytes) : Prop where
  accepts : (hexToBytes str).1 = true ↔ ∀ c ∈ str, isxdigit c = true
  value : (∀ c ∈ str, isxdigit c = true) →
    (hexToBytes str).2.length = (str.length + 1) / 2 ∧
      BigEndian.value (hexToBytes str).2 = hexValue str
  roundTrip : ∀ bytes : Bytes, hexToBytes (bytes.flatMap byteToString) = (true, bytes)
  agrees : str.length % 2 = 0 → (0 : UInt8) ∉ str → Agrees str

/-- `hexToBytes` is right for every string. The other decoder agrees with it on the strings
whose length it can count. -/
theorem hexConversion_iff (str : Bytes) :
    HexConversion str ↔ (str.length % 2 = 0 → (0 : UInt8) ∉ str → Comparable str) := by
  constructor
  · intro h heven hnul
    exact (agrees_iff heven hnul).mp (h.agrees heven hnul)
  · intro h
    exact ⟨hexToBytes_iff str, hexToBytes_value, hexToBytes_byteToString,
      fun heven hnul => (agrees_iff heven hnul).mpr (h heven hnul)⟩

/-- Of `2 ^ 32` zeros the one decoder makes `2 ^ 31` bytes, and the other one an exception. -/
theorem hexConversion_zeros : ¬HexConversion (List.replicate 4294967296 0x30) := by
  intro h
  have hlength : (List.replicate 4294967296 (0x30 : UInt8)).length = 4294967296 :=
    List.length_replicate
  have heven : (List.replicate 4294967296 (0x30 : UInt8)).length % 2 = 0 := by omega
  have hhex : AllHex (List.replicate 4294967296 0x30) := by
    intro c hc
    rw [List.eq_of_mem_replicate hc]
    rfl
  have hnul : (0 : UInt8) ∉ List.replicate 4294967296 (0x30 : UInt8) := by
    intro hzero
    exact absurd (List.eq_of_mem_replicate hzero) (by decide)
  have hnegative : intOfSize ((List.replicate 4294967296 (0x30 : UInt8)).length / 2) < 0 := by
    rw [hlength]
    decide
  exact (agrees_iff_of_negative heven hnul hnegative).mp (h.agrees heven hnul) hhex

end San2.DragonSRP.Conversion
