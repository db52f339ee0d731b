import San2.Utils.CDataPack

/-!
# The integers that are packed

`CDataPack` packs integers of three widths, with and without a sign. What they have in common is
stated over the six kinds of them. A position is an `unsigned int` and a size has 64 bits, so that
the sum of a position and a width does not wrap around; but a length of 2³² or more is no position.
-/

namespace San2.Utils

/-- The signed and unsigned integers that can be packed. -/
inductive PackedInteger
  | int16
  | int32
  | int64
  | uint16
  | uint32
  | uint64

namespace PackedInteger

/-- The words of a kind. -/
abbrev Value : PackedInteger → Type
  | int16 => Int16
  | int32 => Int32
  | int64 => Int64
  | uint16 => UInt16
  | uint32 => UInt32
  | uint64 => UInt64

/-- The size of a word. -/
def width : PackedInteger → ℕ
  | int16 => 2
  | int32 => 4
  | int64 => 8
  | uint16 => 2
  | uint32 => 4
  | uint64 => 8

/-- The number that a word stands for. -/
def toInt : (kind : PackedInteger) → kind.Value → ℤ
  | int16, num => num.toInt
  | int32, num => num.toInt
  | int64, num => num.toInt
  | uint16, num => num.toNat
  | uint32, num => num.toNat
  | uint64, num => num.toNat

/-- What `unpack` returns for a string that is too short. -/
def zero : (kind : PackedInteger) → kind.Value
  | int16 => 0
  | int32 => 0
  | int64 => 0
  | uint16 => 0
  | uint32 => 0
  | uint64 => 0

/-- `CDataPack::pack` for each of them. -/
def pack (host : ByteOrder) : (kind : PackedInteger) → kind.Value → Bytes
  | int16, num => CDataPack.packInt16 host num
  | int32, num => CDataPack.packInt32 host num
  | int64, num => CDataPack.packInt64 host num
  | uint16, num => CDataPack.packUint16 host num
  | uint32, num => CDataPack.packUint32 host num
  | uint64, num => CDataPack.packUint64 host num

/-- The functions `CDataPack::unpack` for each of them. -/
def unpack (host : ByteOrder) : (kind : PackedInteger) → Bytes → UInt32 → kind.Value
  | int16 => CDataPack.unpackInt16 host
  | int32 => CDataPack.unpackInt32 host
  | int64 => CDataPack.unpackInt64 host
  | uint16 => CDataPack.unpackUint16 host
  | uint32 => CDataPack.unpackUint32 host
  | uint64 => CDataPack.unpackUint64 host

/-- The word that is returned for the bytes that `memcpy` has read. -/
def convert (host : ByteOrder) : (kind : PackedInteger) → Bytes → kind.Value
  | int16, memory => (Endian.sanSBe16toh host (UInt16.ofNat (host.load memory)).toInt16).toInt16
  | int32, memory => (Endian.sanSBe32toh host (UInt32.ofNat (host.load memory)).toInt32).toInt32
  | int64, memory => (Endian.sanSBe64toh host (UInt64.ofNat (host.load memory)).toInt64).toInt64
  | uint16, memory => Endian.sanUBe16toh host (UInt16.ofNat (host.load memory))
  | uint32, memory => Endian.sanUBe32toh host (UInt32.ofNat (host.load memory))
  | uint64, memory => Endian.sanUBe64toh host (UInt64.ofNat (host.load memory))

end PackedInteger

/-- `memcpy` out of a string, which has to hold all the bytes. -/
def memcpy (data : Bytes) (position size : ℕ) : Option Bytes :=
  if position + size ≤ data.length then some ((data.drop position).take size) else none

/-- An unpacking function, as far as it reads nothing past the end. -/
def unpackWithin {α : Type} (size : ℕ) (zero : α) (convert : Bytes → α) (data : Bytes)
    (position : UInt32) : Option α :=
  if data.length < position.toNat + size then some zero
  else (memcpy data position.toNat size).map convert

/-- A read that checks the length first stays within the string. -/
theorem unpackWithin_eq {α : Type} (size : ℕ) (zero : α) (convert : Bytes → α) (data : Bytes)
    (position : UInt32) :
    unpackWithin size zero convert data position =
      some (if data.length < position.toNat + size then zero
        else convert ((data.drop position.toNat).take size)) := by
  unfold unpackWithin memcpy
  split_ifs with hshort hinside
  · rfl
  · rfl
  · omega

/-- A byte is not converted. -/
theorem unpackWithin_eq_unpackUint8 (data : Bytes) (position : UInt32) :
    unpackWithin 1 0 (fun memory => UInt8.ofNat (BigEndian.value memory)) data position =
      some (CDataPack.unpackUint8 data position) :=
  unpackWithin_eq 1 0 _ data position

namespace PackedInteger

variable {kind : PackedInteger}

/-- The functions of the source are such reads. -/
theorem unpackWithin_eq_unpack (host : ByteOrder) (data : Bytes) (position : UInt32) :
    unpackWithin kind.width kind.zero (kind.convert host) data position =
      some (kind.unpack host data position) := by
  rw [unpackWithin_eq]
  cases kind with
  | int16 => rfl
  | int32 => rfl
  | int64 => rfl
  | uint16 => rfl
  | uint32 => rfl
  | uint64 => rfl

/-- The remainder of a signed number is the number of its bits. -/
theorem toNat_emod {width : ℕ} (word : BitVec width) :
    (word.toInt % 2 ^ width).toNat = word.toNat := by
  have hlt : (word.toNat : ℤ) < 2 ^ width := by exact_mod_cast word.isLt
  have hbmod := Int.bmod_emod (x := word.toNat) (m := 2 ^ width)
  rw [BitVec.toInt_eq_toNat_bmod]
  push_cast at hbmod
  rw [hbmod, Int.emod_eq_of_lt (Int.natCast_nonneg _) hlt, Int.toNat_natCast]

/-- The number that the bits of a word denote without a sign. -/
def bits : (kind : PackedInteger) → kind.Value → ℕ
  | int16, num => num.toUInt16.toNat
  | int32, num => num.toUInt32.toNat
  | int64, num => num.toUInt64.toNat
  | uint16, num => num.toNat
  | uint32, num => num.toNat
  | uint64, num => num.toNat

/-- The two's complement of a number is the number of its bits. -/
theorem toInt_emod (num : kind.Value) :
    (kind.toInt num % 2 ^ (8 * kind.width)).toNat = kind.bits num := by
  cases kind with
  | int16 => exact toNat_emod num.toBitVec
  | int32 => exact toNat_emod num.toBitVec
  | int64 => exact toNat_emod num.toBitVec
  | uint16 =>
    have hlt := num.toNat_lt
    change ((num.toNat : ℤ) % 2 ^ (8 * 2)).toNat = num.toNat
    omega
  | uint32 =>
    have hlt := num.toNat_lt
    change ((num.toNat : ℤ) % 2 ^ (8 * 4)).toNat = num.toNat
    omega
  | uint64 =>
    have hlt := num.toNat_lt
    change ((num.toNat : ℤ) % 2 ^ (8 * 8)).toNat = num.toNat
    omega

/-- Each kind is packed in big-endian order. -/
theorem pack_eq (host : ByteOrder) (num : kind.Value) :
    kind.pack host num = BigEndian.bytes kind.width (kind.bits num) := by
  cases kind with
  | int16 => exact CDataPack.packInt16_eq host num
  | int32 => exact CDataPack.packInt32_eq host num
  | int64 => exact CDataPack.packInt64_eq host num
  | uint16 => exact CDataPack.packUint16_eq host num
  | uint32 => exact CDataPack.packUint32_eq host num
  | uint64 => exact CDataPack.packUint64_eq host num

example : int16.pack .littleEndian (-2 : Int16) = [0xFF, 0xFE] := by decide +kernel

/-- A packed number is read back on any host, whatever stands before and behind it. -/
theorem unpack_append (host reader : ByteOrder) (before after : Bytes) (num : kind.Value)
    {position : UInt32} (h : position.toNat = before.length) :
    kind.unpack reader (before ++ kind.pack host num ++ after) position = num := by
  rw [pack_eq, List.append_assoc]
  cases kind with
  | int16 =>
    have hread := CDataPack.unpackUint16_append reader before after (Int16.toUInt16 num) _ h
    exact (CDataPack.unpackInt16_eq reader _ _).trans (congrArg UInt16.toInt16 hread)
  | int32 =>
    have hread := CDataPack.unpackUint32_append reader before after (Int32.toUInt32 num) _ h
    exact (CDataPack.unpackInt32_eq reader _ _).trans (congrArg UInt32.toInt32 hread)
  | int64 =>
    have hread := CDataPack.unpackUint64_append reader before after (Int64.toUInt64 num) _ h
    exact (CDataPack.unpackInt64_eq reader _ _).trans (congrArg UInt64.toInt64 hread)
  | uint16 => exact CDataPack.unpackUint16_append reader before after num _ h
  | uint32 => exact CDataPack.unpackUint32_append reader before after num _ h
  | uint64 => exact CDataPack.unpackUint64_append reader before after num _ h

end PackedInteger

open PackedInteger in
/-- Every kind of integer is packed in two's complement and big-endian order and read back behind
any string whose length is a position; nothing is read past the end, and where there is too little
to read the result is zero. The conversions do the same to the bits of a word with and without a
sign. -/
theorem packed_integers (host reader : ByteOrder) :
    (∀ (kind : PackedInteger) (num : kind.Value),
      kind.pack host num =
        BigEndian.bytes kind.width (kind.toInt num % 2 ^ (8 * kind.width)).toNat ∧
      ∀ before after : Bytes, before.length < 2 ^ 32 →
        unpackWithin kind.width kind.zero (kind.convert reader)
          (before ++ kind.pack host num ++ after) (UInt32.ofNat before.length) = some num) ∧
    (∀ (kind : PackedInteger) (data : Bytes) (position : UInt32),
      unpackWithin kind.width kind.zero (kind.convert host) data position =
        some (kind.unpack host data position) ∧
      (data.length < position.toNat + kind.width →
        unpackWithin kind.width kind.zero (kind.convert host) data position = some kind.zero)) ∧
    (∀ val : Int16, (Endian.sanSHtobe16 host val).toUInt16 = Endian.sanUHtobe16 host val.toUInt16 ∧
      Endian.sanSBe16toh host val = Endian.sanUBe16toh host val.toUInt16) ∧
    (∀ val : Int32, (Endian.sanSHtobe32 host val).toUInt32 = Endian.sanUHtobe32 host val.toUInt32 ∧
      Endian.sanSBe32toh host val = Endian.sanUBe32toh host val.toUInt32) ∧
    (∀ val : Int64, (Endian.sanSHtobe64 host val).toUInt64 = Endian.sanUHtobe64 host val.toUInt64 ∧
      Endian.sanSBe64toh host val = Endian.sanUBe64toh host val.toUInt64) := by
  refine ⟨fun kind num => ⟨?_, fun before after hlength => ?_⟩, fun kind data position => ⟨?_, ?_⟩,
    fun val => ⟨Endian.sanSHtobe16_toUInt16 host val, Endian.sanSBe16toh_eq host val⟩,
    fun val => ⟨Endian.sanSHtobe32_toUInt32 host val, Endian.sanSBe32toh_eq host val⟩,
    fun val => ⟨Endian.sanSHtobe64_toUInt64 host val, Endian.sanSBe64toh_eq host val⟩⟩
  · rw [toInt_emod, pack_eq]
  · rw [unpackWithin_eq_unpack, unpack_append host reader before after num
      (UInt32.toNat_ofNat_of_lt' hlength)]
  · exact unpackWithin_eq_unpack host data position
  · intro hshort
    rw [unpackWithin_eq, if_pos hshort]

/-- Two zero bytes at the front are read as zero. -/
theorem unpackUint16_replicate_zero (host : ByteOrder) {n : ℕ} (hn : 2 ≤ n) (after : Bytes) :
    CDataPack.unpackUint16 host (List.replicate n 0 ++ after) 0 = 0 := by
  obtain ⟨k, rfl⟩ := Nat.exists_eq_add_of_le' hn
  rw [CDataPack.unpackUint16_eq host (by simp; omega)]
  simp only [List.replicate_succ, List.cons_append, UInt32.toNat_zero, List.drop_zero,
    List.take_succ_cons, List.take_zero]
  decide

/-- The length 2³² is converted to the position zero, where other bytes stand. -/
theorem packed_integers_four_gibibytes :
    ¬ ∀ (host reader : ByteOrder) (kind : PackedInteger) (num : kind.Value) (before after : Bytes),
      unpackWithin kind.width kind.zero (kind.convert reader)
        (before ++ kind.pack host num ++ after) (UInt32.ofNat before.length) = some num := by
  intro h
  have hread := h .littleEndian .littleEndian .uint16 (1 : UInt16) (List.replicate (2 ^ 32) 0) []
  rw [PackedInteger.unpackWithin_eq_unpack, List.length_replicate, List.append_assoc] at hread
  have hzero := unpackUint16_replicate_zero .littleEndian (n := 2 ^ 32) (by norm_num)
    (PackedInteger.uint16.pack .littleEndian (1 : UInt16) ++ [])
  have hposition : UInt32.ofNat (2 ^ 32) = 0 := by decide
  rw [hposition] at hread
  exact absurd (hzero.symm.trans (Option.some.inj hread)) (by decide)

end San2.Utils
