import San2.Library.BigEndian
import Mathlib.Tactic.IntervalCases

/-!
# Host byte order

`basictypes.hpp` converts between the byte order of the host and big-endian
order. The host order is a parameter here: `ByteOrder.store` is the object
representation that `memcpy` copies out of a word and `ByteOrder.load` is the
word that `memcpy` assembles. The conversions are written with the same shifts
and masks as the source, and the main results say that a word converted to
big-endian order and stored on any host is the big-endian numeral of the word.
-/

namespace San2

/-- A string of bytes, `San2::Utils::bytes`. -/
abbrev Bytes := List UInt8

/-- A byte array of fixed size, `std::array<unsigned char, n>`. -/
abbrev FixedBytes (n : ℕ) := { bytes : Bytes // bytes.length = n }

/-- The `n` bytes of `data` from `position`, which must lie inside it. -/
def FixedBytes.read (n : ℕ) (data : Bytes) (position : ℕ)
    (h : position + n ≤ data.length) : FixedBytes n :=
  ⟨(data.drop position).take n, by rw [List.length_take, List.length_drop]; omega⟩

/-- The array with one value in every position. -/
def FixedBytes.replicate (n : ℕ) (b : UInt8) : FixedBytes n :=
  ⟨List.replicate n b, List.length_replicate⟩

namespace Utils

/-- The result of `san_byte_order`. -/
inductive ByteOrder
  | bigEndian
  | littleEndian
  deriving DecidableEq, Repr

/-- The bytes in memory of a word of the given width. -/
def ByteOrder.store (host : ByteOrder) (width word : ℕ) : Bytes :=
  match host with
  | .bigEndian => BigEndian.bytes width word
  | .littleEndian => (BigEndian.bytes width word).reverse

/-- The word whose object representation is the given bytes. -/
def ByteOrder.load (host : ByteOrder) (memory : Bytes) : ℕ :=
  match host with
  | .bigEndian => BigEndian.value memory
  | .littleEndian => BigEndian.value memory.reverse

/-- A word is stored in as many bytes as asked for. -/
@[simp] theorem ByteOrder.length_store (host : ByteOrder) (width word : ℕ) :
    (host.store width word).length = width := by
  cases host <;> simp [ByteOrder.store]

/-- Storing a loaded word restores the bytes it was loaded from. -/
theorem ByteOrder.store_load (host : ByteOrder) (memory : Bytes) :
    host.store memory.length (host.load memory) = memory := by
  cases host with
  | bigEndian => exact BigEndian.bytes_value memory
  | littleEndian =>
    have h := BigEndian.bytes_value memory.reverse
    rw [List.length_reverse] at h
    simp only [ByteOrder.store, ByteOrder.load, h, List.reverse_reverse]

/-- A loaded word fits in the bytes it was loaded from. -/
theorem ByteOrder.load_lt (host : ByteOrder) (memory : Bytes) :
    host.load memory < 256 ^ memory.length := by
  cases host with
  | bigEndian => exact BigEndian.value_lt memory
  | littleEndian => simpa [ByteOrder.load] using BigEndian.value_lt memory.reverse

namespace Endian

/-- `san_swap_uint16` -/
def sanSwapUint16 (val : UInt16) : UInt16 :=
  (val <<< 8) ||| (val >>> 8)

/-- `san_swap_uint32` -/
def sanSwapUint32 (val : UInt32) : UInt32 :=
  let val : UInt32 :=
    ((val <<< 8) &&& (0xFF00FF00 : UInt32)) ||| ((val >>> 8) &&& (0xFF00FF : UInt32))
  (val <<< 16) ||| (val >>> 16)

/-- `san_swap_uint64` -/
def sanSwapUint64 (val : UInt64) : UInt64 :=
  let val : UInt64 := ((val <<< 8) &&& (0xFF00FF00FF00FF00 : UInt64)) |||
    ((val >>> 8) &&& (0x00FF00FF00FF00FF : UInt64))
  let val : UInt64 := ((val <<< 16) &&& (0xFFFF0000FFFF0000 : UInt64)) |||
    ((val >>> 16) &&& (0x0000FFFF0000FFFF : UInt64))
  (val <<< 32) ||| (val >>> 32)

/-- The operands of the signed swap are promoted to `int`. -/
def sanSwapInt16 (val : Int16) : Int16 :=
  ((val.toInt32 <<< 8) ||| ((val.toInt32 >>> 8) &&& (0xFF : Int32))).toInt16

/-- The signed swap shifts arithmetically. The constant of its first mask is unsigned. -/
def sanSwapInt32 (val : Int32) : Int32 :=
  let val : Int32 := (((val <<< 8).toUInt32 &&& (0xFF00FF00 : UInt32)) |||
    ((val >>> 8) &&& (0xFF00FF : Int32)).toUInt32).toInt32
  (val <<< 16) ||| ((val >>> 16) &&& (0xFFFF : Int32))

/-- The signed swap shifts arithmetically and masks with unsigned constants. -/
def sanSwapInt64 (val : Int64) : Int64 :=
  let val : Int64 := (((val <<< 8).toUInt64 &&& (0xFF00FF00FF00FF00 : UInt64)) |||
    ((val >>> 8).toUInt64 &&& (0x00FF00FF00FF00FF : UInt64))).toInt64
  let val : Int64 := (((val <<< 16).toUInt64 &&& (0xFFFF0000FFFF0000 : UInt64)) |||
    ((val >>> 16).toUInt64 &&& (0x0000FFFF0000FFFF : UInt64))).toInt64
  ((val <<< 32).toUInt64 ||| ((val >>> 32).toUInt64 &&& (0xFFFFFFFF : UInt64))).toInt64

/-- `san_u_htobe16` -/
def sanUHtobe16 (host : ByteOrder) (val : UInt16) : UInt16 :=
  if host = .littleEndian then sanSwapUint16 val else val

/-- `san_u_htobe32` -/
def sanUHtobe32 (host : ByteOrder) (val : UInt32) : UInt32 :=
  if host = .littleEndian then sanSwapUint32 val else val

/-- `san_u_htobe64` -/
def sanUHtobe64 (host : ByteOrder) (val : UInt64) : UInt64 :=
  if host = .littleEndian then sanSwapUint64 val else val

/-- `san_u_be16toh` -/
def sanUBe16toh (host : ByteOrder) (val : UInt16) : UInt16 :=
  if host = .littleEndian then sanSwapUint16 val else val

/-- `san_u_be32toh` -/
def sanUBe32toh (host : ByteOrder) (val : UInt32) : UInt32 :=
  if host = .littleEndian then sanSwapUint32 val else val

/-- `san_u_be64toh` -/
def sanUBe64toh (host : ByteOrder) (val : UInt64) : UInt64 :=
  if host = .littleEndian then sanSwapUint64 val else val

/-- `san_s_htobe16` -/
def sanSHtobe16 (host : ByteOrder) (val : Int16) : Int16 :=
  if host = .littleEndian then sanSwapInt16 val else val

/-- `san_s_htobe32` -/
def sanSHtobe32 (host : ByteOrder) (val : Int32) : Int32 :=
  if host = .littleEndian then sanSwapInt32 val else val

/-- `san_s_htobe64` -/
def sanSHtobe64 (host : ByteOrder) (val : Int64) : Int64 :=
  if host = .littleEndian then sanSwapInt64 val else val

/-- The signed conversions are declared for unsigned words; the word is given as the swap gets it,
with its sign. -/
def sanSBe16toh (host : ByteOrder) (val : Int16) : UInt16 :=
  if host = .littleEndian then (sanSwapInt16 val).toUInt16 else val.toUInt16

/-- Like `sanSBe16toh`. -/
def sanSBe32toh (host : ByteOrder) (val : Int32) : UInt32 :=
  if host = .littleEndian then (sanSwapInt32 val).toUInt32 else val.toUInt32

/-- Like `sanSBe16toh`. -/
def sanSBe64toh (host : ByteOrder) (val : Int64) : UInt64 :=
  if host = .littleEndian then (sanSwapInt64 val).toUInt64 else val.toUInt64

/-- Swapping turns the two bytes around. -/
private theorem testBit_sanSwapUint16 (val : UInt16) {i : ℕ} (hi : i < 16) :
    (sanSwapUint16 val).toNat.testBit i = val.toNat.testBit (8 * (1 - i / 8) + i % 8) := by
  change (sanSwapUint16 val).toBitVec.getLsbD i = val.toBitVec.getLsbD _
  interval_cases i <;> simp [sanSwapUint16]

/-- Swapping turns the four bytes around. -/
private theorem testBit_sanSwapUint32 (val : UInt32) {i : ℕ} (hi : i < 32) :
    (sanSwapUint32 val).toNat.testBit i = val.toNat.testBit (8 * (3 - i / 8) + i % 8) := by
  change (sanSwapUint32 val).toBitVec.getLsbD i = val.toBitVec.getLsbD _
  interval_cases i <;> simp [sanSwapUint32]

/-- Swapping turns the eight bytes around. -/
private theorem testBit_sanSwapUint64 (val : UInt64) {i : ℕ} (hi : i < 64) :
    (sanSwapUint64 val).toNat.testBit i = val.toNat.testBit (8 * (7 - i / 8) + i % 8) := by
  change (sanSwapUint64 val).toBitVec.getLsbD i = val.toBitVec.getLsbD _
  interval_cases i <;> simp [sanSwapUint64]

/-- Swapping a 16-bit word reverses its bytes. -/
theorem bytes_sanSwapUint16 (val : UInt16) :
    BigEndian.bytes 2 (sanSwapUint16 val).toNat = (BigEndian.bytes 2 val.toNat).reverse :=
  BigEndian.bytes_eq_reverse_of_testBit fun _ hi => testBit_sanSwapUint16 val hi

/-- Swapping a 32-bit word reverses its bytes. -/
theorem bytes_sanSwapUint32 (val : UInt32) :
    BigEndian.bytes 4 (sanSwapUint32 val).toNat = (BigEndian.bytes 4 val.toNat).reverse :=
  BigEndian.bytes_eq_reverse_of_testBit fun _ hi => testBit_sanSwapUint32 val hi

/-- Swapping a 64-bit word reverses its bytes. -/
theorem bytes_sanSwapUint64 (val : UInt64) :
    BigEndian.bytes 8 (sanSwapUint64 val).toNat = (BigEndian.bytes 8 val.toNat).reverse :=
  BigEndian.bytes_eq_reverse_of_testBit fun _ hi => testBit_sanSwapUint64 val hi

/-- The signed swap permutes the same bits: the masks discard every copy of the
sign bit that the arithmetic shifts bring in. -/
theorem sanSwapInt16_toUInt16 (val : Int16) :
    (sanSwapInt16 val).toUInt16 = sanSwapUint16 val.toUInt16 := by
  apply UInt16.toBitVec_inj.mp
  apply BitVec.eq_of_getLsbD_eq
  intro i hi
  interval_cases i <;>
    simp [sanSwapInt16, sanSwapUint16, BitVec.getElem_sshiftRight, BitVec.getElem_signExtend]

/-- The same for words of 32 bits. -/
theorem sanSwapInt32_toUInt32 (val : Int32) :
    (sanSwapInt32 val).toUInt32 = sanSwapUint32 val.toUInt32 := by
  apply UInt32.toBitVec_inj.mp
  apply BitVec.eq_of_getLsbD_eq
  intro i hi
  interval_cases i <;> simp [sanSwapInt32, sanSwapUint32, BitVec.getElem_sshiftRight]

/-- The same for words of 64 bits. -/
theorem sanSwapInt64_toUInt64 (val : Int64) :
    (sanSwapInt64 val).toUInt64 = sanSwapUint64 val.toUInt64 := by
  apply UInt64.toBitVec_inj.mp
  apply BitVec.eq_of_getLsbD_eq
  intro i hi
  interval_cases i <;> simp [sanSwapInt64, sanSwapUint64, BitVec.getElem_sshiftRight]

/-- A 16-bit word converted to big-endian order is stored as its numeral. -/
theorem store_sanUHtobe16 (host : ByteOrder) (val : UInt16) :
    host.store 2 (sanUHtobe16 host val).toNat = BigEndian.bytes 2 val.toNat := by
  cases host with
  | bigEndian => rfl
  | littleEndian => simp [ByteOrder.store, sanUHtobe16, bytes_sanSwapUint16]

/-- A 32-bit word converted to big-endian order is stored as its numeral. -/
theorem store_sanUHtobe32 (host : ByteOrder) (val : UInt32) :
    host.store 4 (sanUHtobe32 host val).toNat = BigEndian.bytes 4 val.toNat := by
  cases host with
  | bigEndian => rfl
  | littleEndian => simp [ByteOrder.store, sanUHtobe32, bytes_sanSwapUint32]

/-- A 64-bit word converted to big-endian order is stored as its numeral. -/
theorem store_sanUHtobe64 (host : ByteOrder) (val : UInt64) :
    host.store 8 (sanUHtobe64 host val).toNat = BigEndian.bytes 8 val.toNat := by
  cases host with
  | bigEndian => rfl
  | littleEndian => simp [ByteOrder.store, sanUHtobe64, bytes_sanSwapUint64]

/-- The signed conversion of a word is stored like the unsigned one. -/
theorem store_sanSBe64toh (host : ByteOrder) (val : UInt64) :
    host.store 8 (sanSBe64toh host val.toInt64).toNat = BigEndian.bytes 8 val.toNat := by
  have h : sanSBe64toh host val.toInt64 = sanUHtobe64 host val := by
    simp [sanSBe64toh, sanUHtobe64, sanSwapInt64_toUInt64]
  rw [h, store_sanUHtobe64]

/-- The signed conversions do to a word what the unsigned ones do. -/
theorem sanSHtobe16_toUInt16 (host : ByteOrder) (val : Int16) :
    (sanSHtobe16 host val).toUInt16 = sanUHtobe16 host val.toUInt16 := by
  unfold sanSHtobe16 sanUHtobe16
  split_ifs
  · exact sanSwapInt16_toUInt16 val
  · rfl

/-- The signed conversion of 64 bits is the unsigned one of the same bits. -/
theorem sanSHtobe64_toUInt64 (host : ByteOrder) (val : Int64) :
    (sanSHtobe64 host val).toUInt64 = sanUHtobe64 host val.toUInt64 := by
  unfold sanSHtobe64 sanUHtobe64
  split_ifs
  · exact sanSwapInt64_toUInt64 val
  · rfl

/-- The signed conversion back of 16 bits is the unsigned one. -/
theorem sanSBe16toh_eq (host : ByteOrder) (val : Int16) :
    sanSBe16toh host val = sanUBe16toh host val.toUInt16 := by
  unfold sanSBe16toh sanUBe16toh
  rw [sanSwapInt16_toUInt16]

/-- The signed conversion back of 64 bits is the unsigned one. -/
theorem sanSBe64toh_eq (host : ByteOrder) (val : Int64) :
    sanSBe64toh host val = sanUBe64toh host val.toUInt64 := by
  unfold sanSBe64toh sanUBe64toh
  rw [sanSwapInt64_toUInt64]

/-- The signed conversion of 32 bits is the unsigned one of the same bits. -/
theorem sanSHtobe32_toUInt32 (host : ByteOrder) (val : Int32) :
    (sanSHtobe32 host val).toUInt32 = sanUHtobe32 host val.toUInt32 := by
  cases host with
  | bigEndian => rfl
  | littleEndian => simp [sanSHtobe32, sanUHtobe32, sanSwapInt32_toUInt32]

/-- The signed conversion back of 32 bits is the unsigned one. -/
theorem sanSBe32toh_eq (host : ByteOrder) (val : Int32) :
    sanSBe32toh host val = sanUBe32toh host val.toUInt32 := by
  unfold sanSBe32toh sanUBe32toh
  by_cases hhost : host = .littleEndian
  · rw [if_pos hhost, if_pos hhost, sanSwapInt32_toUInt32]
  · rw [if_neg hhost, if_neg hhost]

/-- A word loaded on a little-endian host and then byte-swapped is the number that the loaded
bytes denote. -/
private theorem swapped_load_eq {memory : Bytes} {width swapped : ℕ}
    (hlen : memory.length = width) (hswapped : swapped < 256 ^ width)
    (hswap : BigEndian.bytes width swapped =
      (BigEndian.bytes width (ByteOrder.littleEndian.load memory)).reverse) :
    swapped = BigEndian.value memory := by
  have hvalue := BigEndian.value_lt memory
  have hbytes := BigEndian.bytes_value memory
  have hloaded := BigEndian.bytes_value memory.reverse
  rw [List.length_reverse, hlen] at hloaded
  rw [hlen] at hvalue hbytes
  apply BigEndian.bytes_injective width hswapped hvalue
  rw [hswap, ByteOrder.load, hloaded, List.reverse_reverse, hbytes]

/-- Two bytes loaded from memory and converted to host order are the number
they denote in big-endian order. -/
theorem sanUBe16toh_load (host : ByteOrder) {memory : Bytes} (hlen : memory.length = 2) :
    sanUBe16toh host (UInt16.ofNat (host.load memory)) =
      UInt16.ofNat (BigEndian.value memory) := by
  cases host with
  | bigEndian => rfl
  | littleEndian =>
    have hlt := ByteOrder.littleEndian.load_lt memory
    have hvalue := BigEndian.value_lt memory
    rw [hlen] at hlt hvalue
    apply UInt16.toNat_inj.mp
    rw [UInt16.toNat_ofNat_of_lt' hvalue]
    apply swapped_load_eq hlen (UInt16.toNat_lt _)
    rw [sanUBe16toh, if_pos rfl, bytes_sanSwapUint16, UInt16.toNat_ofNat_of_lt' hlt]

/-- Four bytes loaded from memory and converted to host order are the number
they denote in big-endian order. -/
theorem sanUBe32toh_load (host : ByteOrder) {memory : Bytes} (hlen : memory.length = 4) :
    sanUBe32toh host (UInt32.ofNat (host.load memory)) =
      UInt32.ofNat (BigEndian.value memory) := by
  cases host with
  | bigEndian => rfl
  | littleEndian =>
    have hlt := ByteOrder.littleEndian.load_lt memory
    have hvalue := BigEndian.value_lt memory
    rw [hlen] at hlt hvalue
    apply UInt32.toNat_inj.mp
    rw [UInt32.toNat_ofNat_of_lt' hvalue]
    apply swapped_load_eq hlen (UInt32.toNat_lt _)
    rw [sanUBe32toh, if_pos rfl, bytes_sanSwapUint32, UInt32.toNat_ofNat_of_lt' hlt]

/-- Eight bytes loaded from memory and converted to host order are the number
they denote in big-endian order. -/
theorem sanUBe64toh_load (host : ByteOrder) {memory : Bytes} (hlen : memory.length = 8) :
    sanUBe64toh host (UInt64.ofNat (host.load memory)) =
      UInt64.ofNat (BigEndian.value memory) := by
  cases host with
  | bigEndian => rfl
  | littleEndian =>
    have hlt := ByteOrder.littleEndian.load_lt memory
    have hvalue := BigEndian.value_lt memory
    rw [hlen] at hlt hvalue
    apply UInt64.toNat_inj.mp
    rw [UInt64.toNat_ofNat_of_lt' hvalue]
    apply swapped_load_eq hlen (UInt64.toNat_lt _)
    rw [sanUBe64toh, if_pos rfl, bytes_sanSwapUint64, UInt64.toNat_ofNat_of_lt' hlt]

end Endian

end Utils

end San2
