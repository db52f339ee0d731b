import Mathlib.Data.FinEnum
import San2.Library.Numeral
import San2.Utils.Endian

/-!
# Bytes as hexadecimal digits

`byteToString` writes a byte as two digits. `hexToBytes` reads a string of digits, of which
a single one in front stands for a byte of its own. It passes two characters at a time to
`strtoul`, which takes much more than two digits, and looks at where `strtoul` stopped.
-/

namespace San2.Utils

/-- `isxdigit` in the C locale. -/
def isxdigit (c : UInt8) : Bool :=
  (0x30 ≤ c && c ≤ 0x39) || (0x41 ≤ c && c ≤ 0x46) || (0x61 ≤ c && c ≤ 0x66)

/-- `isspace` in the C locale. -/
def isspace (c : UInt8) : Bool := c = 0x20 || (0x09 ≤ c && c ≤ 0x0D)

/-- What a hexadecimal digit stands for. -/
def digitValue (c : UInt8) : ℕ :=
  if c ≤ 0x39 then (c - 0x30).toNat else if c ≤ 0x46 then (c - 0x37).toNat else (c - 0x57).toNat

/-- The number that a string of hexadecimal digits denotes. -/
def hexValue (str : Bytes) : ℕ := Numeral.value 16 (str.map digitValue)

/-- `strtoul(buf, &pend, 16)` on the characters of a buffer up to its first NUL: the number
and the position of `pend`. Blanks, a sign and the prefix 0x may stand before the digits;
without a digit behind it the prefix is a zero with something else behind it. -/
def strtoul (buf : Bytes) : UInt64 × ℕ :=
  let str := buf.takeWhile (· ≠ 0)
  let blanks := (str.takeWhile isspace).length
  let rest := str.drop blanks
  let sign := if rest.head? = some 0x2B ∨ rest.head? = some 0x2D then 1 else 0
  let negative := rest.head? = some 0x2D
  let rest := rest.drop sign
  let base :=
    match rest with
    | zero :: x :: d :: _ =>
      if zero = 0x30 ∧ (x = 0x78 ∨ x = 0x58) ∧ isxdigit d = true then 2 else 0
    | _ => 0
  let digits := (rest.drop base).takeWhile isxdigit
  if digits = [] then (0, 0)
  else
    let number := hexValue digits
    (if 18446744073709551616 ≤ number then 0xFFFFFFFFFFFFFFFF
      else if negative then -UInt64.ofNat number
      else UInt64.ofNat number,
      blanks + sign + base + digits.length)

/-- The characters that the table is made of. -/
def upperDigits : Bytes := [0x30, 0x31, 0x32, 0x33, 0x34, 0x35, 0x36, 0x37, 0x38, 0x39, 0x41, 0x42,
  0x43, 0x44, 0x45, 0x46]

/-- The rows of the table go from "00" to "0F", from "10" to "1F" and so on. -/
def hexTable : List Bytes :=
  upperDigits.flatMap fun high => upperDigits.map fun low => [high, low]

/-- The two digits of a byte. -/
def byteToString (b : UInt8) : Bytes := hexTable.getD b.toNat []

/-- The two characters in `buf`, if `strtoul` stops at the terminating zero. -/
def parsePair (high low : UInt8) : Option UInt8 :=
  let (x, pend) := strtoul [high, low, 0]
  if pend ≠ 2 then none else some (UInt8.ofNat x.toNat)

/-- The loop of `hexToBytes`. Behind the bytes that are done `data` holds zeros. -/
def hexLoop (length : ℕ) : Bytes → Bytes → Bool × Bytes
  | done, high :: low :: str =>
    let data := done ++ List.replicate (length - done.length) 0
    if !isxdigit high then (false, data)
    else
      match parsePair high low with
      | none => (false, data)
      | some x => hexLoop length (done ++ [x]) str
  | done, _ => (true, done)

/-- `hexToBytes` and what it leaves in `data`, whose old contents it clears. -/
def hexToBytes (str : Bytes) : Bool × Bytes :=
  let lengthOverflow := str.length % 2
  let length := lengthOverflow + str.length / 2
  match str with
  | [] => (true, [])
  | first :: rest =>
    if lengthOverflow = 1 then
      match parsePair 0x30 first with
      | none => (false, List.replicate length 0)
      | some x => hexLoop length [x] rest
    else hexLoop length [] str

/-- A hexadecimal digit is neither a terminator nor a blank nor a sign. -/
theorem isxdigit_cases : ∀ c : UInt8, isxdigit c = true →
    c ≠ 0 ∧ isspace c = false ∧ c ≠ 0x2B ∧ c ≠ 0x2D := by
  decide +kernel

/-- A hexadecimal digit is worth less than 16. -/
theorem digitValue_lt : ∀ c : UInt8, isxdigit c = true → digitValue c < 16 := by
  decide +kernel

/-- A buffer that begins with a digit and is too short for a prefix. -/
theorem strtoul_of_isxdigit {high : UInt8} (hhigh : isxdigit high = true) (low : UInt8) :
    strtoul [high, low, 0] =
      if isxdigit low = true then (UInt64.ofNat (16 * digitValue high + digitValue low), 2)
      else (UInt64.ofNat (digitValue high), 1) := by
  obtain ⟨hne, hblank, hplus, hminus⟩ := isxdigit_cases high hhigh
  have hhighlt := digitValue_lt high hhigh
  by_cases hlow : isxdigit low = true
  · have hlowne := (isxdigit_cases low hlow).1
    have hlowlt := digitValue_lt low hlow
    have hvalue : hexValue [high, low] = 16 * digitValue high + digitValue low := by
      simp [hexValue, Numeral.value]
    have hsmall : ¬18446744073709551616 ≤ 16 * digitValue high + digitValue low := by omega
    simp [strtoul, hne, hlowne, hblank, hplus, hminus, hhigh, hlow, hvalue, hsmall]
  · have hvalue : hexValue [high] = digitValue high := by simp [hexValue, Numeral.value]
    have hsmall : ¬18446744073709551616 ≤ digitValue high := by omega
    by_cases hzero : low = 0
    · have hnul : isxdigit 0 = false := by decide
      simp [strtoul, hne, hzero, hblank, hplus, hminus, hhigh, hvalue, hsmall, hnul]
    · simp [strtoul, hne, hzero, hblank, hplus, hminus, hhigh, hlow, hvalue, hsmall]

/-- Behind a digit `strtoul` stops at the end of the buffer only if the other character is a
digit, too. -/
theorem parsePair_of_isxdigit {high : UInt8} (hhigh : isxdigit high = true) (low : UInt8) :
    parsePair high low =
      if isxdigit low = true then some (UInt8.ofNat (16 * digitValue high + digitValue low))
      else none := by
  have hhighlt := digitValue_lt high hhigh
  unfold parsePair
  rw [strtoul_of_isxdigit hhigh]
  by_cases hlow : isxdigit low = true
  · have hlowlt := digitValue_lt low hlow
    have hsize : 16 * digitValue high + digitValue low < UInt64.size := by
      have hvalues : UInt64.size = 18446744073709551616 := rfl
      omega
    rw [if_pos hlow, if_pos hlow]
    dsimp only
    rw [if_neg (by decide), UInt64.toNat_ofNat_of_lt' hsize]
  · rw [if_neg hlow, if_neg hlow]
    exact if_pos (by decide)

/-- A single character gets a zero in front of it. -/
theorem parsePair_zero (low : UInt8) :
    parsePair 0x30 low =
      if isxdigit low = true then some (UInt8.ofNat (digitValue low)) else none := by
  have hzero : digitValue 0x30 = 0 := by decide
  rw [parsePair_of_isxdigit (by decide), hzero, Nat.mul_zero, Nat.zero_add]

/-- The string consists of digits. -/
def AllHex (str : Bytes) : Prop := ∀ c ∈ str, isxdigit c = true

/-- Whether a text is hexadecimal can be computed. -/
instance (str : Bytes) : Decidable (AllHex str) := inferInstanceAs (Decidable (∀ c ∈ str, _))

/-- The bytes of a string of pairs. -/
def pairBytes : Bytes → Bytes
  | [] => []
  | [_] => []
  | high :: low :: str => UInt8.ofNat (16 * digitValue high + digitValue low) :: pairBytes str

/-- A text is hexadecimal if its first character and the others are. -/
theorem allHex_cons {c : UInt8} {str : Bytes} :
    AllHex (c :: str) ↔ isxdigit c = true ∧ AllHex str := List.forall_mem_cons

/-- Two texts are hexadecimal if they are together. -/
theorem allHex_append {left right : Bytes} :
    AllHex (left ++ right) ↔ AllHex left ∧ AllHex right := List.forall_mem_append

/-- Two digits make a byte. -/
theorem length_pairBytes (str : Bytes) : (pairBytes str).length = str.length / 2 := by
  induction str using pairBytes.induct with
  | case1 => simp [pairBytes]
  | case2 c => simp [pairBytes]
  | case3 high low str ih =>
    rw [pairBytes, List.length_cons, ih, List.length_cons, List.length_cons]
    omega

/-- The bytes are the digits in base 256. -/
theorem map_toNat_pairBytes {str : Bytes} (h : AllHex str) :
    (pairBytes str).map UInt8.toNat = Numeral.pairs 16 (str.map digitValue) := by
  induction str using pairBytes.induct with
  | case1 => rfl
  | case2 c => rfl
  | case3 high low str ih =>
    obtain ⟨hhigh, h⟩ := allHex_cons.mp h
    obtain ⟨hlow, hstr⟩ := allHex_cons.mp h
    have hhighlt := digitValue_lt high hhigh
    have hlowlt := digitValue_lt low hlow
    have hsize : 16 * digitValue high + digitValue low < UInt8.size := by
      have hvalues : UInt8.size = 256 := rfl
      omega
    rw [pairBytes, List.map_cons, ih hstr, UInt8.toNat_ofNat_of_lt' hsize]
    rfl

/-- The number in big-endian order is the numeral to base 256. -/
theorem bigEndian_value_eq (bytes : Bytes) :
    BigEndian.value bytes = Numeral.value 256 (bytes.map UInt8.toNat) := by
  unfold BigEndian.value Numeral.value
  rw [List.foldl_map]

/-- The bytes have the value of the string. -/
theorem value_pairBytes {str : Bytes} (h : AllHex str) (heven : str.length % 2 = 0) :
    BigEndian.value (pairBytes str) = hexValue str := by
  have hdigits : (str.map digitValue).length % 2 = 0 := by rwa [List.length_map]
  have hpairs : Numeral.value (16 * 16) (Numeral.pairs 16 (str.map digitValue)) = hexValue str :=
    Numeral.value_pairs hdigits
  rw [bigEndian_value_eq, map_toNat_pairBytes h]
  exact hpairs

/-- The loop takes the digits two by two. -/
theorem hexLoop_eq {length : ℕ} {str : Bytes} (heven : str.length % 2 = 0) (done : Bytes) :
    (AllHex str → hexLoop length done str = (true, done ++ pairBytes str)) ∧
      (¬AllHex str → (hexLoop length done str).1 = false) := by
  induction str using pairBytes.induct generalizing done with
  | case1 => exact ⟨fun _ => by simp [hexLoop, pairBytes], fun h => absurd (by simp [AllHex]) h⟩
  | case2 c => simp at heven
  | case3 high low str ih =>
    rw [List.length_cons, List.length_cons] at heven
    have hrest : str.length % 2 = 0 := by omega
    rw [allHex_cons, allHex_cons, hexLoop]
    by_cases hhigh : isxdigit high = true
    · rw [parsePair_of_isxdigit hhigh]
      by_cases hlow : isxdigit low = true
      · obtain ⟨hall, hnot⟩ := ih hrest
          (done ++ [UInt8.ofNat (16 * digitValue high + digitValue low)])
        simp only [hhigh, hlow, Bool.not_true, Bool.false_eq_true, if_false, if_true, true_and]
        refine ⟨fun h => ?_, hnot⟩
        rw [hall h, List.append_assoc]
        rfl
      · simp [hhigh, hlow]
    · simp [hhigh]

/-- A string of digits is accepted, and a single digit in front gives a byte of its own. -/
theorem hexToBytes_eq (str : Bytes) :
    (AllHex str → hexToBytes str = (true,
      if str.length % 2 = 1 then
        UInt8.ofNat (digitValue (str.headD 0)) :: pairBytes str.tail
      else pairBytes str)) ∧
    (¬AllHex str → (hexToBytes str).1 = false) := by
  unfold hexToBytes
  cases str with
  | nil => exact ⟨fun _ => rfl, fun h => absurd (by simp [AllHex]) h⟩
  | cons first rest =>
    dsimp only
    by_cases hodd : (first :: rest).length % 2 = 1
    · have hrest : rest.length % 2 = 0 := by
        rw [List.length_cons] at hodd
        omega
      rw [if_pos hodd, if_pos hodd, parsePair_zero, allHex_cons]
      by_cases hfirst : isxdigit first = true
      · rw [if_pos hfirst, and_iff_right hfirst]
        exact hexLoop_eq hrest _
      · rw [if_neg hfirst]
        exact ⟨fun h => absurd h.1 hfirst, fun _ => rfl⟩
    · have heven : (first :: rest).length % 2 = 0 := by omega
      rw [if_neg hodd, if_neg hodd]
      exact hexLoop_eq heven []

/-- A string is accepted exactly if it consists of digits. -/
theorem hexToBytes_iff (str : Bytes) : (hexToBytes str).1 = true ↔ AllHex str := by
  obtain ⟨hall, hnot⟩ := hexToBytes_eq str
  constructor
  · intro h
    by_contra hnone
    rw [hnot hnone] at h
    cases h
  · intro h
    rw [hall h]

/-- The bytes of an accepted string. -/
theorem hexToBytes_value {str : Bytes} (h : AllHex str) :
    (hexToBytes str).2.length = (str.length + 1) / 2 ∧
      BigEndian.value (hexToBytes str).2 = hexValue str := by
  rw [(hexToBytes_eq str).1 h]
  dsimp only
  split_ifs with hodd
  · cases str with
    | nil => simp at hodd
    | cons first rest =>
      obtain ⟨hfirst, hrest⟩ := allHex_cons.mp h
      rw [List.length_cons] at hodd ⊢
      have heven : rest.length % 2 = 0 := by omega
      have hlt := digitValue_lt first hfirst
      have hsize : digitValue first < UInt8.size := by
        have hvalues : UInt8.size = 256 := rfl
        omega
      have hweight : (256 : ℕ) ^ (rest.length / 2) = 16 ^ rest.length := by
        have htwice : rest.length = 2 * (rest.length / 2) := by omega
        conv_rhs => rw [htwice, pow_mul]
        norm_num
      constructor
      · rw [List.length_cons, List.tail_cons, length_pairBytes]
        omega
      · rw [BigEndian.value_cons, List.tail_cons, value_pairBytes hrest heven, length_pairBytes,
          hweight, List.headD_cons, UInt8.toNat_ofNat_of_lt' hsize, hexValue, hexValue,
          List.map_cons, Numeral.value_cons, List.length_map]
  · have heven : str.length % 2 = 0 := by omega
    rw [length_pairBytes, value_pairBytes h heven]
    exact ⟨by omega, rfl⟩

/-- Every entry of the table has two digits. -/
theorem mem_hexTable {entry : Bytes} (h : entry ∈ hexTable) :
    entry.length = 2 ∧ AllHex entry := by
  have hdigits : ∀ c ∈ upperDigits, isxdigit c = true := by decide +kernel
  obtain ⟨high, hhigh, hentry⟩ := List.mem_flatMap.mp h
  obtain ⟨low, hlow, rfl⟩ := List.mem_map.mp hentry
  refine ⟨rfl, allHex_cons.mpr ⟨hdigits high hhigh, allHex_cons.mpr ⟨hdigits low hlow, ?_⟩⟩⟩
  simp [AllHex]

/-- The table has the bytes in their order. -/
theorem map_pairBytes_hexTable :
    hexTable.map pairBytes = (List.range 256).map fun n => [UInt8.ofNat n] := by
  decide +kernel

/-- The table has an entry for each byte. -/
theorem length_hexTable : hexTable.length = 256 := by
  have h := congrArg List.length map_pairBytes_hexTable
  rwa [List.length_map, List.length_map, List.length_range] at h

/-- The table has the two digits of every byte. -/
theorem byteToString_eq (b : UInt8) : (byteToString b).length = 2 ∧ AllHex (byteToString b) ∧
    pairBytes (byteToString b) = [b] := by
  have hlength : b.toNat < hexTable.length := by
    rw [length_hexTable]
    exact b.toNat_lt
  have hentry : hexTable[b.toNat]? = some (byteToString b) := by
    unfold byteToString
    rw [List.getD_eq_getElem _ _ hlength, List.getElem?_eq_getElem hlength]
  obtain ⟨htwo, hhex⟩ := mem_hexTable (List.mem_of_getElem? hentry)
  refine ⟨htwo, hhex, ?_⟩
  have hmap : (hexTable.map pairBytes)[b.toNat]? = some (pairBytes (byteToString b)) := by
    rw [List.getElem?_map, hentry]
    rfl
  rw [map_pairBytes_hexTable, List.getElem?_map, List.getElem?_range b.toNat_lt] at hmap
  have hb : [UInt8.ofNat b.toNat] = pairBytes (byteToString b) := Option.some.inj hmap
  rw [UInt8.ofNat_toNat] at hb
  exact hb.symm

/-- Pairs are read one after the other. -/
theorem pairBytes_append {left : Bytes} (hlength : left.length = 2) (right : Bytes) :
    pairBytes (left ++ right) = pairBytes left ++ pairBytes right := by
  obtain ⟨high, low, rfl⟩ := List.length_eq_two.mp hlength
  rfl

/-- What `byteToString` writes for the bytes of a string. -/
theorem flatMap_byteToString (bytes : Bytes) :
    AllHex (bytes.flatMap byteToString) ∧
      (bytes.flatMap byteToString).length = 2 * bytes.length ∧
      pairBytes (bytes.flatMap byteToString) = bytes := by
  induction bytes with
  | nil => exact ⟨by simp [AllHex], rfl, rfl⟩
  | cons b bytes ih =>
    obtain ⟨hhex, hlength, hbytes⟩ := ih
    obtain ⟨hlengthb, hhexb, hb⟩ := byteToString_eq b
    rw [List.flatMap_cons]
    refine ⟨allHex_append.mpr ⟨hhexb, hhex⟩, ?_, ?_⟩
    · rw [List.length_append, List.length_cons]
      omega
    · rw [pairBytes_append hlengthb, hb, hbytes]
      rfl

/-- Decoding what `byteToString` has written gives back the bytes. -/
theorem hexToBytes_byteToString (bytes : Bytes) :
    hexToBytes (bytes.flatMap byteToString) = (true, bytes) := by
  obtain ⟨hhex, hlength, hbytes⟩ := flatMap_byteToString bytes
  rw [(hexToBytes_eq _).1 hhex, if_neg (by omega), hbytes]

end San2.Utils
