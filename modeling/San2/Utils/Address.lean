import San2.Network.CCapsule
import San2.Utils.Hex

/-!
# Addresses as text

An address is written as 64 hexadecimal digits. A user may leave out the zeros in front:
`getExpandedAddress` puts them back before it decodes the text.
-/

namespace San2.Utils

open Network

/-- `exapndHexSanAddress`: the result, and the string that it leaves in its argument. -/
def exapndHexSanAddress (strAddress : Bytes) : Bool × Bytes :=
  if strAddress.length = sanAddressSize * 2 then (true, strAddress)
  else if sanAddressSize * 2 < strAddress.length then (false, strAddress)
  else
    let remainingSize := sanAddressSize * 2 - strAddress.length
    let nullPrefix := List.replicate remainingSize 0x30
    (true, nullPrefix ++ strAddress)

/-- What `string2address` and `string2appid` have in common: the result, and the array that
is left in the argument. -/
def string2array {size : ℕ} (str : Bytes) (array : FixedBytes size) : Bool × FixedBytes size :=
  match hexToBytes str with
  | (false, _) => (false, array)
  | (true, b) => if h : b.length = size then (true, ⟨b, h⟩) else (false, array)

/-- `string2address` -/
def string2address (strAddress : Bytes) (sanAddress : SanAddress) : Bool × SanAddress :=
  string2array strAddress sanAddress

/-- `string2appid` -/
def string2appid (strAppId : Bytes) (sanAppId : SanApplicationId) : Bool × SanApplicationId :=
  string2array strAppId sanAppId

/-- `getExpandedAddress` -/
def getExpandedAddress (strAddress : Bytes) (sanAddress : SanAddress) : Bool × SanAddress :=
  match exapndHexSanAddress strAddress with
  | (false, _) => (false, sanAddress)
  | (true, strAddress) => string2address strAddress sanAddress

/-- `address2string` -/
def address2string (sanAddress : SanAddress) : Bytes := sanAddress.val.flatMap byteToString

/-- `appid2string` -/
def appid2string (sanAppId : SanApplicationId) : Bytes := sanAppId.val.flatMap byteToString

/-- The address with a given number, in big-endian order. -/
def addressOfNumber (number : ℕ) : SanAddress :=
  ⟨BigEndian.bytes sanAddressSize number, BigEndian.length_bytes _ _⟩

/-- The texts that are accepted have 63 or 64 digits. -/
theorem string2address_eq (strAddress : Bytes) (sanAddress : SanAddress) :
    string2address strAddress sanAddress =
      if AllHex strAddress ∧ (strAddress.length = 63 ∨ strAddress.length = 64) then
        (true, addressOfNumber (hexValue strAddress))
      else (false, sanAddress) := by
  unfold string2address string2array
  rcases hbytes : hexToBytes strAddress with ⟨ok, b⟩
  cases ok with
  | false =>
    have hnot : ¬AllHex strAddress := by
      rw [← hexToBytes_iff, hbytes]
      exact Bool.false_ne_true
    rw [if_neg fun h => hnot h.1]
  | true =>
    have hhex : AllHex strAddress := (hexToBytes_iff strAddress).mp (by rw [hbytes])
    obtain ⟨hlength, hvalue⟩ := hexToBytes_value hhex
    rw [hbytes] at hlength hvalue
    dsimp only at hlength hvalue ⊢
    have hbytes32 : sanAddressSize = 32 := rfl
    by_cases hsize : b.length = sanAddressSize
    · have hdigits : strAddress.length = 63 ∨ strAddress.length = 64 := by omega
      rw [dif_pos hsize, if_pos ⟨hhex, hdigits⟩]
      have haddress : b = BigEndian.bytes sanAddressSize (hexValue strAddress) := by
        rw [← hvalue, ← hsize, BigEndian.bytes_value]
      exact Prod.ext rfl (Subtype.ext haddress)
    · have hdigits : ¬(strAddress.length = 63 ∨ strAddress.length = 64) := by omega
      rw [dif_neg hsize, if_neg fun h => hdigits h.2]

/-- Zeros in front of a number are digits. -/
theorem allHex_replicate_zero (count : ℕ) : AllHex (List.replicate count 0x30) := by
  intro c hc
  rw [List.eq_of_mem_replicate hc]
  rfl

/-- Zeros in front do not change the number. -/
theorem hexValue_replicate_zero_append (count : ℕ) (str : Bytes) :
    hexValue (List.replicate count 0x30 ++ str) = hexValue str := by
  have hzero : digitValue 0x30 = 0 := by decide
  unfold hexValue
  rw [List.map_append, List.map_replicate, hzero, Numeral.value_replicate_zero_append]

/-- Of a full length, only the digits matter. -/
theorem string2address_full {strAddress : Bytes} (h : strAddress.length = 64)
    (sanAddress : SanAddress) :
    string2address strAddress sanAddress =
      if AllHex strAddress then (true, addressOfNumber (hexValue strAddress))
      else (false, sanAddress) := by
  have hiff : (AllHex strAddress ∧ (strAddress.length = 63 ∨ strAddress.length = 64)) ↔
      AllHex strAddress := and_iff_left (.inr h)
  rw [string2address_eq]
  simp only [hiff]

/-- Up to 64 digits are accepted. -/
theorem getExpandedAddress_eq (strAddress : Bytes) (sanAddress : SanAddress) :
    getExpandedAddress strAddress sanAddress =
      if strAddress.length ≤ 64 ∧ AllHex strAddress then
        (true, addressOfNumber (hexValue strAddress))
      else (false, sanAddress) := by
  have hdigits : sanAddressSize * 2 = 64 := rfl
  unfold getExpandedAddress exapndHexSanAddress
  rw [hdigits]
  by_cases hfull : strAddress.length = 64
  · rw [if_pos hfull]
    dsimp only
    have hiff : (strAddress.length ≤ 64 ∧ AllHex strAddress) ↔ AllHex strAddress :=
      and_iff_right (by omega)
    simp only [string2address_full hfull, hiff]
  · rw [if_neg hfull]
    by_cases hlong : 64 < strAddress.length
    · rw [if_pos hlong]
      have hnot : ¬(strAddress.length ≤ 64 ∧ AllHex strAddress) := by omega
      rw [if_neg hnot]
    · rw [if_neg hlong]
      dsimp only
      have hlength : (List.replicate (64 - strAddress.length) 0x30 ++ strAddress).length = 64 := by
        rw [List.length_append, List.length_replicate]
        omega
      have hiff : AllHex (List.replicate (64 - strAddress.length) 0x30 ++ strAddress) ↔
          strAddress.length ≤ 64 ∧ AllHex strAddress := by
        rw [allHex_append, and_iff_right (allHex_replicate_zero _), and_iff_right (by omega)]
      rw [string2address_full hlength, hexValue_replicate_zero_append]
      simp only [hiff]

/-- The text of an address is decoded to the address. -/
theorem string2address_address2string (a sanAddress : SanAddress) :
    string2address (address2string a) sanAddress = (true, a) := by
  unfold string2address string2array address2string
  rw [hexToBytes_byteToString]
  exact dif_pos a.property

/-- The text of an address is expanded to the address. -/
theorem getExpandedAddress_address2string (a sanAddress : SanAddress) :
    getExpandedAddress (address2string a) sanAddress = (true, a) := by
  have hlength : (address2string a).length = sanAddressSize * 2 := by
    have hbytes := (flatMap_byteToString a.val).2.1
    rw [a.property, Nat.mul_comm] at hbytes
    exact hbytes
  unfold getExpandedAddress exapndHexSanAddress
  rw [if_pos hlength]
  exact string2address_address2string a sanAddress

/-- What `getExpandedAddress` does with a text. -/
structure Expands (strAddress : Bytes) (sanAddress : SanAddress) : Prop where
  accepts : (getExpandedAddress strAddress sanAddress).1 = true ↔
    strAddress.length ≤ 64 ∧ ∀ c ∈ strAddress, isxdigit c = true
  /-- The address is the number that the text denotes. -/
  address : (getExpandedAddress strAddress sanAddress).1 = true →
    (getExpandedAddress strAddress sanAddress).2.val = BigEndian.bytes 32 (hexValue strAddress)
  unchanged : (getExpandedAddress strAddress sanAddress).1 = false →
    (getExpandedAddress strAddress sanAddress).2 = sanAddress

/-- Every text is expanded as `Expands` says. -/
theorem expands (strAddress : Bytes) (sanAddress : SanAddress) :
    Expands strAddress sanAddress := by
  by_cases h : strAddress.length ≤ 64 ∧ AllHex strAddress
  · have hresult := getExpandedAddress_eq strAddress sanAddress
    rw [if_pos h] at hresult
    constructor <;> rw [hresult]
    · exact iff_of_true rfl h
    · exact fun _ => rfl
    · exact fun hfalse => nomatch hfalse
  · have hresult := getExpandedAddress_eq strAddress sanAddress
    rw [if_neg h] at hresult
    constructor <;> rw [hresult]
    · exact iff_of_false Bool.false_ne_true h
    · exact fun htrue => nomatch htrue
    · exact fun _ => rfl

/-- Every text of up to 64 digits is an address and no other text is. The empty text is the
address zero, and the text of an address is decoded to the address, with and without the
expansion. -/
theorem address_text_correct (strAddress : Bytes) (sanAddress a : SanAddress) :
    Expands strAddress sanAddress ∧
      getExpandedAddress [] sanAddress = (true, FixedBytes.replicate 32 0) ∧
      getExpandedAddress (address2string a) sanAddress = (true, a) ∧
      string2address (address2string a) sanAddress = (true, a) := by
  have hzero : addressOfNumber (hexValue []) = FixedBytes.replicate 32 0 := by decide +kernel
  have hempty : ([] : Bytes).length ≤ 64 ∧ AllHex [] := ⟨Nat.zero_le _, by simp [AllHex]⟩
  refine ⟨expands strAddress sanAddress, ?_, getExpandedAddress_address2string a sanAddress,
    string2address_address2string a sanAddress⟩
  rw [getExpandedAddress_eq, if_pos hempty, hzero]

end San2.Utils
