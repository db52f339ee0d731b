import San2.Utils.Endian

/-!
# Packed integers

`CDataPack` writes fixed-width integers in big-endian order and reads them back
from a position of a byte string. A position is an `unsigned int`, and its sum with a
`sizeof` has 64 bits. Reading past the end gives zero.
-/

namespace San2.Utils.CDataPack

/-- `CDataPack::pack` for `uint16_t` -/
def packUint16 (host : ByteOrder) (num : UInt16) : Bytes :=
  host.store 2 (Endian.sanUHtobe16 host num).toNat

/-- `CDataPack::pack` for `uint32_t` -/
def packUint32 (host : ByteOrder) (num : UInt32) : Bytes :=
  host.store 4 (Endian.sanUHtobe32 host num).toNat

/-- `CDataPack::pack` for `uint64_t` -/
def packUint64 (host : ByteOrder) (num : UInt64) : Bytes :=
  host.store 8 (Endian.sanUHtobe64 host num).toNat

/-- `CDataPack::pack` for `int16_t` -/
def packInt16 (host : ByteOrder) (num : Int16) : Bytes :=
  host.store 2 (Endian.sanSHtobe16 host num).toUInt16.toNat

/-- `CDataPack::pack` for `int64_t` -/
def packInt64 (host : ByteOrder) (num : Int64) : Bytes :=
  host.store 8 (Endian.sanSHtobe64 host num).toUInt64.toNat

/-- `CDataPack::pack` for `int32_t` -/
def packInt32 (host : ByteOrder) (num : Int32) : Bytes :=
  host.store 4 (Endian.sanSHtobe32 host num).toUInt32.toNat

/-- `CDataPack::unpackUint16` -/
def unpackUint16 (host : ByteOrder) (data : Bytes) (position : UInt32) : UInt16 :=
  if data.length < position.toNat + 2 then 0
  else Endian.sanUBe16toh host (UInt16.ofNat (host.load ((data.drop position.toNat).take 2)))

/-- `CDataPack::unpackUint32` -/
def unpackUint32 (host : ByteOrder) (data : Bytes) (position : UInt32) : UInt32 :=
  if data.length < position.toNat + 4 then 0
  else Endian.sanUBe32toh host (UInt32.ofNat (host.load ((data.drop position.toNat).take 4)))

/-- `CDataPack::unpackUint64` -/
def unpackUint64 (host : ByteOrder) (data : Bytes) (position : UInt32) : UInt64 :=
  if data.length < position.toNat + 8 then 0
  else Endian.sanUBe64toh host (UInt64.ofNat (host.load ((data.drop position.toNat).take 8)))

/-- `CDataPack::unpackUint8` -/
def unpackUint8 (data : Bytes) (position : UInt32) : UInt8 :=
  if data.length < position.toNat + 1 then 0
  else UInt8.ofNat (BigEndian.value ((data.drop position.toNat).take 1))

/-- `CDataPack::unpackInt16` -/
def unpackInt16 (host : ByteOrder) (data : Bytes) (position : UInt32) : Int16 :=
  if data.length < position.toNat + 2 then 0
  else (Endian.sanSBe16toh host
    (UInt16.ofNat (host.load ((data.drop position.toNat).take 2))).toInt16).toInt16

/-- `CDataPack::unpackInt64` -/
def unpackInt64 (host : ByteOrder) (data : Bytes) (position : UInt32) : Int64 :=
  if data.length < position.toNat + 8 then 0
  else (Endian.sanSBe64toh host
    (UInt64.ofNat (host.load ((data.drop position.toNat).take 8))).toInt64).toInt64

/-- `CDataPack::unpackInt32` -/
def unpackInt32 (host : ByteOrder) (data : Bytes) (position : UInt32) : Int32 :=
  if data.length < position.toNat + 4 then 0
  else (Endian.sanSBe32toh host
    (UInt32.ofNat (host.load ((data.drop position.toNat).take 4))).toInt32).toInt32

/-- On either host 16 bits are packed in big-endian order. -/
@[simp] theorem packUint16_eq (host : ByteOrder) (num : UInt16) :
    packUint16 host num = BigEndian.bytes 2 num.toNat := Endian.store_sanUHtobe16 host num

/-- On either host 32 bits are packed in big-endian order. -/
@[simp] theorem packUint32_eq (host : ByteOrder) (num : UInt32) :
    packUint32 host num = BigEndian.bytes 4 num.toNat := Endian.store_sanUHtobe32 host num

/-- On either host 64 bits are packed in big-endian order. -/
@[simp] theorem packUint64_eq (host : ByteOrder) (num : UInt64) :
    packUint64 host num = BigEndian.bytes 8 num.toNat := Endian.store_sanUHtobe64 host num

/-- A signed number of 16 bits is packed as its two's complement. -/
@[simp] theorem packInt16_eq (host : ByteOrder) (num : Int16) :
    packInt16 host num = BigEndian.bytes 2 num.toUInt16.toNat := by
  rw [packInt16, Endian.sanSHtobe16_toUInt16, Endian.store_sanUHtobe16]

/-- A signed number of 64 bits is packed as its two's complement. -/
@[simp] theorem packInt64_eq (host : ByteOrder) (num : Int64) :
    packInt64 host num = BigEndian.bytes 8 num.toUInt64.toNat := by
  rw [packInt64, Endian.sanSHtobe64_toUInt64, Endian.store_sanUHtobe64]

/-- A signed number of 32 bits is packed as its two's complement. -/
@[simp] theorem packInt32_eq (host : ByteOrder) (num : Int32) :
    packInt32 host num = BigEndian.bytes 4 num.toUInt32.toNat := by
  rw [packInt32, Endian.sanSHtobe32_toUInt32, Endian.store_sanUHtobe32]

/-- Reading two bytes inside the string gives the number they denote. -/
theorem unpackUint16_eq (host : ByteOrder) {data : Bytes} {position : UInt32}
    (h : position.toNat + 2 ≤ data.length) :
    unpackUint16 host data position =
      UInt16.ofNat (BigEndian.value ((data.drop position.toNat).take 2)) := by
  rw [unpackUint16, if_neg (by omega)]
  exact Endian.sanUBe16toh_load host (by simp; omega)

/-- Reading four bytes inside the string gives the number they denote. -/
theorem unpackUint32_eq (host : ByteOrder) {data : Bytes} {position : UInt32}
    (h : position.toNat + 4 ≤ data.length) :
    unpackUint32 host data position =
      UInt32.ofNat (BigEndian.value ((data.drop position.toNat).take 4)) := by
  rw [unpackUint32, if_neg (by omega)]
  exact Endian.sanUBe32toh_load host (by simp; omega)

/-- Reading eight bytes inside the string gives the number they denote. -/
theorem unpackUint64_eq (host : ByteOrder) {data : Bytes} {position : UInt32}
    (h : position.toNat + 8 ≤ data.length) :
    unpackUint64 host data position =
      UInt64.ofNat (BigEndian.value ((data.drop position.toNat).take 8)) := by
  rw [unpackUint64, if_neg (by omega)]
  exact Endian.sanUBe64toh_load host (by simp; omega)

/-- A signed number is read like an unsigned one. -/
theorem unpackInt16_eq (host : ByteOrder) (data : Bytes) (position : UInt32) :
    unpackInt16 host data position = (unpackUint16 host data position).toInt16 := by
  unfold unpackInt16 unpackUint16
  split_ifs
  · rfl
  · rw [Endian.sanSBe16toh_eq, UInt16.toUInt16_toInt16]

/-- A signed number of 64 bits is the unsigned one of the same bits. -/
theorem unpackInt64_eq (host : ByteOrder) (data : Bytes) (position : UInt32) :
    unpackInt64 host data position = (unpackUint64 host data position).toInt64 := by
  unfold unpackInt64 unpackUint64
  split_ifs
  · rfl
  · rw [Endian.sanSBe64toh_eq, UInt64.toUInt64_toInt64]

/-- A signed number of 32 bits is the unsigned one of the same bits. -/
theorem unpackInt32_eq (host : ByteOrder) (data : Bytes) (position : UInt32) :
    unpackInt32 host data position = (unpackUint32 host data position).toInt32 := by
  unfold unpackInt32 unpackUint32
  split_ifs
  · rfl
  · rw [Endian.sanSBe32toh_eq, UInt32.toUInt32_toInt32]

/-- A packed 16-bit number is read back at its position. -/
theorem unpackUint16_append (host : ByteOrder) (before after : Bytes) (num : UInt16)
    (position : UInt32) (h : position.toNat = before.length) :
    unpackUint16 host (before ++ (BigEndian.bytes 2 num.toNat ++ after)) position = num := by
  rw [unpackUint16_eq host (by simp [h])]
  rw [h, List.drop_left, List.take_left' (BigEndian.length_bytes _ _),
    BigEndian.value_bytes_of_lt num.toNat_lt, UInt16.ofNat_toNat]

/-- A packed 32-bit number is read back at its position. -/
theorem unpackUint32_append (host : ByteOrder) (before after : Bytes) (num : UInt32)
    (position : UInt32) (h : position.toNat = before.length) :
    unpackUint32 host (before ++ (BigEndian.bytes 4 num.toNat ++ after)) position = num := by
  rw [unpackUint32_eq host (by simp [h])]
  rw [h, List.drop_left, List.take_left' (BigEndian.length_bytes _ _),
    BigEndian.value_bytes_of_lt num.toNat_lt, UInt32.ofNat_toNat]

/-- A packed 64-bit number is read back at its position. -/
theorem unpackUint64_append (host : ByteOrder) (before after : Bytes) (num : UInt64)
    (position : UInt32) (h : position.toNat = before.length) :
    unpackUint64 host (before ++ (BigEndian.bytes 8 num.toNat ++ after)) position = num := by
  rw [unpackUint64_eq host (by simp [h])]
  rw [h, List.drop_left, List.take_left' (BigEndian.length_bytes _ _),
    BigEndian.value_bytes_of_lt num.toNat_lt, UInt64.ofNat_toNat]

/-- A packed signed number is read back on any host, whatever follows it. -/
theorem unpackInt32_append (host reader : ByteOrder) (num : Int32) (after : Bytes) :
    unpackInt32 reader (packInt32 host num ++ after) 0 = num := by
  have hread := unpackUint32_append reader [] after num.toUInt32 0 rfl
  rw [List.nil_append] at hread
  rw [unpackInt32_eq, packInt32_eq, hread, Int32.toInt32_toUInt32]

/-- A packed result code is read back on any host. -/
theorem unpackInt32_packInt32 (host reader : ByteOrder) (num : Int32) :
    unpackInt32 reader (packInt32 host num) 0 = num := by
  have hread := unpackInt32_append host reader num []
  rwa [List.append_nil] at hread

/-- A packed result code has four bytes. -/
theorem length_packInt32 (host : ByteOrder) (num : Int32) : (packInt32 host num).length = 4 := by
  rw [packInt32_eq, BigEndian.length_bytes]

end San2.Utils.CDataPack
