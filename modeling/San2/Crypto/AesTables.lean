import San2.Crypto.AesStandard
import San2.Utils.Endian
import Mathlib.Tactic.FinCases

/-!
# Words and tables of the AES library

The library keeps a column of the state in a 32-bit word, byte `r` of the word
being row `r`, in the byte order of the host. Its round functions look up whole
columns in tables that the macros of `aestab.c` build from the substitution. The
lemmas say which column each table entry is.
-/

namespace San2.Aes

open Utils
open scoped Rijndael

/-- `bytes2word` -/
def bytes2word (host : ByteOrder) (b0 b1 b2 b3 : UInt32) : UInt32 :=
  match host with
  | .littleEndian => (b3 <<< 24) ||| (b2 <<< 16) ||| (b1 <<< 8) ||| b0
  | .bigEndian => (b0 <<< 24) ||| (b1 <<< 16) ||| (b2 <<< 8) ||| b3

/-- Byte `n` of a word. -/
def bval (host : ByteOrder) (x : UInt32) (n : Fin 4) : UInt8 :=
  match host with
  | .littleEndian => ((x >>> UInt32.ofNat (8 * n)) &&& 0xff).toUInt8
  | .bigEndian => ((x >>> UInt32.ofNat (24 - 8 * n)) &&& 0xff).toUInt8

/-- `WPOLY` -/
abbrev wpoly : UInt32 := 0x011b

/-- `f2` -/
def f2 (x : UInt32) : UInt32 := (x <<< 1) ^^^ (((x >>> 7) &&& (1 : UInt32)) * wpoly)

/-- `f4` -/
def f4 (x : UInt32) : UInt32 :=
  (x <<< 2) ^^^ (((x >>> 6) &&& (1 : UInt32)) * wpoly) ^^^
    (((x >>> 6) &&& (2 : UInt32)) * wpoly)

/-- `f8` -/
def f8 (x : UInt32) : UInt32 :=
  (x <<< 3) ^^^ (((x >>> 5) &&& (1 : UInt32)) * wpoly) ^^^
    (((x >>> 5) &&& (2 : UInt32)) * wpoly) ^^^ (((x >>> 5) &&& (4 : UInt32)) * wpoly)

/-- `f3` -/
def f3 (x : UInt32) : UInt32 := f2 x ^^^ x

/-- `f9` -/
def f9 (x : UInt32) : UInt32 := f8 x ^^^ x

/-- `fb` -/
def fb (x : UInt32) : UInt32 := f8 x ^^^ f2 x ^^^ x

/-- `fd` -/
def fd (x : UInt32) : UInt32 := f8 x ^^^ f4 x ^^^ x

/-- `fe` -/
def fe (x : UInt32) : UInt32 := f8 x ^^^ f4 x ^^^ f2 x

/-- `sb_data` -/
def sbData : List UInt8 :=
  [0x63, 0x7c, 0x77, 0x7b, 0xf2, 0x6b, 0x6f, 0xc5, 0x30, 0x01, 0x67, 0x2b,
    0xfe, 0xd7, 0xab, 0x76, 0xca, 0x82, 0xc9, 0x7d, 0xfa, 0x59, 0x47, 0xf0,
    0xad, 0xd4, 0xa2, 0xaf, 0x9c, 0xa4, 0x72, 0xc0, 0xb7, 0xfd, 0x93, 0x26,
    0x36, 0x3f, 0xf7, 0xcc, 0x34, 0xa5, 0xe5, 0xf1, 0x71, 0xd8, 0x31, 0x15,
    0x04, 0xc7, 0x23, 0xc3, 0x18, 0x96, 0x05, 0x9a, 0x07, 0x12, 0x80, 0xe2,
    0xeb, 0x27, 0xb2, 0x75, 0x09, 0x83, 0x2c, 0x1a, 0x1b, 0x6e, 0x5a, 0xa0,
    0x52, 0x3b, 0xd6, 0xb3, 0x29, 0xe3, 0x2f, 0x84, 0x53, 0xd1, 0x00, 0xed,
    0x20, 0xfc, 0xb1, 0x5b, 0x6a, 0xcb, 0xbe, 0x39, 0x4a, 0x4c, 0x58, 0xcf,
    0xd0, 0xef, 0xaa, 0xfb, 0x43, 0x4d, 0x33, 0x85, 0x45, 0xf9, 0x02, 0x7f,
    0x50, 0x3c, 0x9f, 0xa8, 0x51, 0xa3, 0x40, 0x8f, 0x92, 0x9d, 0x38, 0xf5,
    0xbc, 0xb6, 0xda, 0x21, 0x10, 0xff, 0xf3, 0xd2, 0xcd, 0x0c, 0x13, 0xec,
    0x5f, 0x97, 0x44, 0x17, 0xc4, 0xa7, 0x7e, 0x3d, 0x64, 0x5d, 0x19, 0x73,
    0x60, 0x81, 0x4f, 0xdc, 0x22, 0x2a, 0x90, 0x88, 0x46, 0xee, 0xb8, 0x14,
    0xde, 0x5e, 0x0b, 0xdb, 0xe0, 0x32, 0x3a, 0x0a, 0x49, 0x06, 0x24, 0x5c,
    0xc2, 0xd3, 0xac, 0x62, 0x91, 0x95, 0xe4, 0x79, 0xe7, 0xc8, 0x37, 0x6d,
    0x8d, 0xd5, 0x4e, 0xa9, 0x6c, 0x56, 0xf4, 0xea, 0x65, 0x7a, 0xae, 0x08,
    0xba, 0x78, 0x25, 0x2e, 0x1c, 0xa6, 0xb4, 0xc6, 0xe8, 0xdd, 0x74, 0x1f,
    0x4b, 0xbd, 0x8b, 0x8a, 0x70, 0x3e, 0xb5, 0x66, 0x48, 0x03, 0xf6, 0x0e,
    0x61, 0x35, 0x57, 0xb9, 0x86, 0xc1, 0x1d, 0x9e, 0xe1, 0xf8, 0x98, 0x11,
    0x69, 0xd9, 0x8e, 0x94, 0x9b, 0x1e, 0x87, 0xe9, 0xce, 0x55, 0x28, 0xdf,
    0x8c, 0xa1, 0x89, 0x0d, 0xbf, 0xe6, 0x42, 0x68, 0x41, 0x99, 0x2d, 0x0f,
    0xb0, 0x54, 0xbb, 0x16]

/-- `isb_data` -/
def isbData : List UInt8 :=
  [0x52, 0x09, 0x6a, 0xd5, 0x30, 0x36, 0xa5, 0x38, 0xbf, 0x40, 0xa3, 0x9e,
    0x81, 0xf3, 0xd7, 0xfb, 0x7c, 0xe3, 0x39, 0x82, 0x9b, 0x2f, 0xff, 0x87,
    0x34, 0x8e, 0x43, 0x44, 0xc4, 0xde, 0xe9, 0xcb, 0x54, 0x7b, 0x94, 0x32,
    0xa6, 0xc2, 0x23, 0x3d, 0xee, 0x4c, 0x95, 0x0b, 0x42, 0xfa, 0xc3, 0x4e,
    0x08, 0x2e, 0xa1, 0x66, 0x28, 0xd9, 0x24, 0xb2, 0x76, 0x5b, 0xa2, 0x49,
    0x6d, 0x8b, 0xd1, 0x25, 0x72, 0xf8, 0xf6, 0x64, 0x86, 0x68, 0x98, 0x16,
    0xd4, 0xa4, 0x5c, 0xcc, 0x5d, 0x65, 0xb6, 0x92, 0x6c, 0x70, 0x48, 0x50,
    0xfd, 0xed, 0xb9, 0xda, 0x5e, 0x15, 0x46, 0x57, 0xa7, 0x8d, 0x9d, 0x84,
    0x90, 0xd8, 0xab, 0x00, 0x8c, 0xbc, 0xd3, 0x0a, 0xf7, 0xe4, 0x58, 0x05,
    0xb8, 0xb3, 0x45, 0x06, 0xd0, 0x2c, 0x1e, 0x8f, 0xca, 0x3f, 0x0f, 0x02,
    0xc1, 0xaf, 0xbd, 0x03, 0x01, 0x13, 0x8a, 0x6b, 0x3a, 0x91, 0x11, 0x41,
    0x4f, 0x67, 0xdc, 0xea, 0x97, 0xf2, 0xcf, 0xce, 0xf0, 0xb4, 0xe6, 0x73,
    0x96, 0xac, 0x74, 0x22, 0xe7, 0xad, 0x35, 0x85, 0xe2, 0xf9, 0x37, 0xe8,
    0x1c, 0x75, 0xdf, 0x6e, 0x47, 0xf1, 0x1a, 0x71, 0x1d, 0x29, 0xc5, 0x89,
    0x6f, 0xb7, 0x62, 0x0e, 0xaa, 0x18, 0xbe, 0x1b, 0xfc, 0x56, 0x3e, 0x4b,
    0xc6, 0xd2, 0x79, 0x20, 0x9a, 0xdb, 0xc0, 0xfe, 0x78, 0xcd, 0x5a, 0xf4,
    0x1f, 0xdd, 0xa8, 0x33, 0x88, 0x07, 0xc7, 0x31, 0xb1, 0x12, 0x10, 0x59,
    0x27, 0x80, 0xec, 0x5f, 0x60, 0x51, 0x7f, 0xa9, 0x19, 0xb5, 0x4a, 0x0d,
    0x2d, 0xe5, 0x7a, 0x9f, 0x93, 0xc9, 0x9c, 0xef, 0xa0, 0xe0, 0x3b, 0x4d,
    0xae, 0x2a, 0xf5, 0xb0, 0xc8, 0xeb, 0xbb, 0x3c, 0x83, 0x53, 0x99, 0x61,
    0x17, 0x2b, 0x04, 0x7e, 0xba, 0x77, 0xd6, 0x26, 0xe1, 0x69, 0x14, 0x63,
    0x55, 0x21, 0x0c, 0x7d]

/-- `mm_data` -/
def mmData : List UInt8 := (List.range 256).map UInt8.ofNat

/-- `rc_data` -/
def rcData : List UInt8 :=
  [0x01, 0x02, 0x04, 0x08, 0x10, 0x20, 0x40, 0x80, 0x1b, 0x36]

/-- The macros `w0`, `w1`, `w2` and `w3`. -/
def w (host : ByteOrder) (p : UInt32) : Fin 4 → UInt32
  | 0 => bytes2word host p 0 0 0
  | 1 => bytes2word host 0 p 0 0
  | 2 => bytes2word host 0 0 p 0
  | 3 => bytes2word host 0 0 0 p

/-- The macros `u0`, `u1`, `u2` and `u3`. -/
def u (host : ByteOrder) (p : UInt32) : Fin 4 → UInt32
  | 0 => bytes2word host (f2 p) p p (f3 p)
  | 1 => bytes2word host (f3 p) (f2 p) p p
  | 2 => bytes2word host p (f3 p) (f2 p) p
  | 3 => bytes2word host p p (f3 p) (f2 p)

/-- The macros `v0`, `v1`, `v2` and `v3`. -/
def v (host : ByteOrder) (p : UInt32) : Fin 4 → UInt32
  | 0 => bytes2word host (fe p) (f9 p) (fd p) (fb p)
  | 1 => bytes2word host (fb p) (fe p) (f9 p) (fd p)
  | 2 => bytes2word host (fd p) (fb p) (fe p) (f9 p)
  | 3 => bytes2word host (f9 p) (fd p) (fb p) (fe p)

/-- Four tables of 256 words, each built by one macro from the same bytes. -/
abbrev Tables := Fin 4 → List UInt32

/-- Four tables, one for each row, of the values of a macro. -/
def buildTables (data : List UInt8) (macro4 : UInt32 → Fin 4 → UInt32) : Tables :=
  fun r => data.map fun b => macro4 b.toUInt32 r

/-- The table of a normal encryption round. -/
def tFn (host : ByteOrder) : Tables := buildTables sbData (u host)

/-- The table of the last encryption round, also used in the key schedule. -/
def tFl (host : ByteOrder) : Tables := buildTables sbData (w host)

/-- The table of a normal decryption round. -/
def tIn (host : ByteOrder) : Tables := buildTables isbData (v host)

/-- The table of the last decryption round. -/
def tIl (host : ByteOrder) : Tables := buildTables isbData (w host)

/-- The table of the inverse column mixing in the decryption key schedule. -/
def tIm (host : ByteOrder) : Tables := buildTables mmData (v host)

/-- The round constants. -/
def tRc (host : ByteOrder) (i : ℕ) : UInt32 :=
  (rcData.map fun b => w host b.toUInt32 0).getD i 0

/-- `four_tables`, given the four bytes that index the tables. -/
def fourTables (tab : Tables) (index : Fin 4 → UInt8) : UInt32 :=
  (tab 0).getD (index 0).toNat 0 ^^^ (tab 1).getD (index 1).toNat 0 ^^^
    (tab 2).getD (index 2).toNat 0 ^^^ (tab 3).getD (index 3).toNat 0

/-- The column that a word holds. -/
def column (host : ByteOrder) (x : UInt32) : Rijndael.Column Element := fun r => ⟨bval host x r⟩

/-- Where the lowest bit of byte `n` stands in a word. -/
def place (host : ByteOrder) (n : Fin 4) : ℕ :=
  match host with
  | .littleEndian => 8 * n
  | .bigEndian => 24 - 8 * n

/-- The bits of `bval` are those of its byte. -/
theorem getLsbD_bval (host : ByteOrder) (x : UInt32) (n : Fin 4) (i : ℕ) :
    (bval host x n).toBitVec.getLsbD i =
      (decide (i < 8) && x.toBitVec.getLsbD (place host n + i)) := by
  have hmask : ∀ b : UInt8, b &&& 255 = b := fun b => by
    rw [UInt8.and_comm]
    exact UInt8.neg_one_and
  cases host <;> fin_cases n <;> simp [bval, place, hmask, Nat.add_comm]

/-- `bval` respects the exclusive or. -/
theorem bval_xor (host : ByteOrder) (x y : UInt32) (n : Fin 4) :
    bval host (x ^^^ y) n = bval host x n ^^^ bval host y n := by
  apply UInt8.toBitVec_inj.mp
  apply BitVec.eq_of_getLsbD_eq
  intro i hi
  rw [getLsbD_bval, UInt8.toBitVec_xor, BitVec.getLsbD_xor, getLsbD_bval, getLsbD_bval]
  simp [hi]

/-- A word built from four bytes has them as its bytes, on every host. -/
theorem bval_bytes2word (host : ByteOrder) (b0 b1 b2 b3 : UInt8) (n : Fin 4) :
    bval host (bytes2word host b0.toUInt32 b1.toUInt32 b2.toUInt32 b3.toUInt32) n =
      ![b0, b1, b2, b3] n := by
  apply UInt8.toBitVec_inj.mp
  apply BitVec.eq_of_getLsbD_eq
  intro i hi
  rw [getLsbD_bval]
  cases host <;> fin_cases n <;> simp [bytes2word, place] <;> grind

/-- A column of an exclusive or is the sum of the columns. -/
@[simp] theorem column_xor (host : ByteOrder) (x y : UInt32) :
    column host (x ^^^ y) = column host x + column host y :=
  funext fun n => Element.ext (bval_xor host x y n)

/-- The bytes of a word are its column. -/
theorem column_bytes2word (host : ByteOrder) (a : Rijndael.Column Element) :
    column host (bytes2word host (a 0).byte.toUInt32 (a 1).byte.toUInt32 (a 2).byte.toUInt32
      (a 3).byte.toUInt32) = a := by
  funext n
  apply Element.ext
  have h := bval_bytes2word host (a 0).byte (a 1).byte (a 2).byte (a 3).byte n
  refine h.trans ?_
  fin_cases n <;> rfl

/-- The multiplications of the macros are those of the standard. -/
theorem f_eq (a : Element) :
    f2 a.byte.toUInt32 = (standard.xtime a).byte.toUInt32 ∧
      f3 a.byte.toUInt32 = (standard.times3 a).byte.toUInt32 ∧
      f9 a.byte.toUInt32 = (standard.times9 a).byte.toUInt32 ∧
      fb a.byte.toUInt32 = (standard.timesB a).byte.toUInt32 ∧
      fd a.byte.toUInt32 = (standard.timesD a).byte.toUInt32 ∧
      fe a.byte.toUInt32 = (standard.timesE a).byte.toUInt32 := by
  revert a
  exact Element.forall_byte (by decide +kernel)

/-- `w` puts a byte into one row. -/
theorem column_w (host : ByteOrder) (a : Element) (r : Fin 4) :
    column host (w host a.byte.toUInt32 r) = Pi.single r a := by
  rw [← column_bytes2word host (Pi.single r a)]
  fin_cases r <;> simp [w]

/-- `u` is the column that MixColumns makes of a byte in one row. -/
theorem column_u (host : ByteOrder) (a : Element) (r : Fin 4) :
    column host (u host a.byte.toUInt32 r) = standard.mixColumn (Pi.single r a) := by
  obtain ⟨h2, h3, -⟩ := f_eq a
  rw [← column_bytes2word host (standard.mixColumn (Pi.single r a))]
  fin_cases r <;>
    simp [u, h2, h3, Rijndael.mixColumn, Rijndael.circulant_apply]

/-- `v` is the column that the inverse of MixColumns makes of a byte in one row. -/
theorem column_v (host : ByteOrder) (a : Element) (r : Fin 4) :
    column host (v host a.byte.toUInt32 r) = standard.invMixColumn (Pi.single r a) := by
  obtain ⟨-, -, h9, hb, hd, he⟩ := f_eq a
  rw [← column_bytes2word host (standard.invMixColumn (Pi.single r a))]
  fin_cases r <;>
    simp [v, h9, hb, hd, he, Rijndael.invMixColumn, Rijndael.circulant_apply]

/-- The four lookups together apply a linear map to the column of the bytes that
the data hold at the four indices. -/
theorem column_fourTables {host : ByteOrder} {data : List UInt8}
    {macro4 : UInt32 → Fin 4 → UInt32}
    {l : Rijndael.Column Element →ₗ[ZMod 2] Rijndael.Column Element} (hdata : data.length = 256)
    (hentry : ∀ a r, column host (macro4 a.byte.toUInt32 r) = l (Pi.single r a))
    (index : Fin 4 → UInt8) :
    column host (fourTables (buildTables data macro4) index) =
      l fun r => ⟨data.getD (index r).toNat 0⟩ := by
  have hentry : ∀ r, column host ((buildTables data macro4 r).getD (index r).toNat 0) =
      l (Pi.single r ⟨data.getD (index r).toNat 0⟩) := by
    intro r
    have hindex : (index r).toNat < data.length := by rw [hdata]; exact (index r).toNat_lt
    rw [← hentry, buildTables, List.getD_eq_getElem _ _ (by simpa using hindex),
      List.getD_eq_getElem _ _ hindex, List.getElem_map]
  simp only [fourTables, column_xor, hentry]
  rw [← map_add, ← map_add, ← map_add]
  congr 1
  funext r
  fin_cases r <;> simp

/-- `sb_data` has 256 entries. -/
theorem length_sbData : sbData.length = 256 := by decide +kernel

/-- `isb_data` has 256 entries. -/
theorem length_isbData : isbData.length = 256 := by decide +kernel

/-- `mm_data` has 256 entries. -/
theorem length_mmData : mmData.length = 256 := by simp [mmData]

/-- The forward data are the substitution of the standard. -/
theorem sbData_getD (b : UInt8) : (⟨sbData.getD b.toNat 0⟩ : Element) = standard.sbox ⟨b⟩ := by
  have htable : ∀ a : Element, a ≠ 0 →
      a * Element.invAffine ⟨sbData.getD a.byte.toNat 0⟩ = 1 :=
    Element.forall_byte (by decide +kernel)
  have hinverse : Element.invAffine ⟨sbData.getD b.toNat 0⟩ = (⟨b⟩ : Element)⁻¹ := by
    by_cases hb : (⟨b⟩ : Element) = 0
    · rw [hb, inv_zero, show b = 0 from congrArg Element.byte hb]
      rfl
    · exact eq_inv_of_mul_eq_one_right (htable ⟨b⟩ hb)
  rw [standard_sbox, ← hinverse]
  exact (Element.affineEquiv.apply_symm_apply _).symm

/-- The inverse data undo the forward ones. -/
theorem isbData_getD (b : UInt8) :
    (⟨isbData.getD b.toNat 0⟩ : Element) = standard.sbox.symm ⟨b⟩ := by
  have htable : ∀ a : Element, sbData.getD (isbData.getD a.byte.toNat 0).toNat 0 = a.byte :=
    Element.forall_byte (by decide +kernel)
  rw [Equiv.eq_symm_apply, ← sbData_getD, htable ⟨b⟩]

/-- `mm_data` lists every byte at its own place. -/
theorem mmData_getD (b : UInt8) : mmData.getD b.toNat 0 = b := by
  have hindex : b.toNat < mmData.length := by rw [length_mmData]; exact b.toNat_lt
  rw [List.getD_eq_getElem _ _ hindex]
  simp only [mmData, List.getElem_map, List.getElem_range, UInt8.ofNat_toNat]

/-- The tables `t_fn` compute SubBytes and MixColumns. -/
theorem column_fourTables_tFn (host : ByteOrder) (index : Fin 4 → UInt8) :
    column host (fourTables (tFn host) index) =
      standard.mixColumn fun r => standard.sbox ⟨index r⟩ := by
  rw [tFn, column_fourTables length_sbData (column_u host)]
  simp only [sbData_getD]

/-- The tables `t_fl` compute SubBytes. -/
theorem column_fourTables_tFl (host : ByteOrder) (index : Fin 4 → UInt8) :
    column host (fourTables (tFl host) index) = fun r => standard.sbox ⟨index r⟩ := by
  rw [tFl, column_fourTables (l := LinearMap.id) length_sbData (column_w host)]
  simp only [sbData_getD, LinearMap.id_apply]

/-- The tables `t_in` compute the inverses of SubBytes and MixColumns. -/
theorem column_fourTables_tIn (host : ByteOrder) (index : Fin 4 → UInt8) :
    column host (fourTables (tIn host) index) =
      standard.invMixColumn fun r => standard.sbox.symm ⟨index r⟩ := by
  rw [tIn, column_fourTables length_isbData (column_v host)]
  simp only [isbData_getD]

/-- The tables `t_il` compute the inverse of SubBytes. -/
theorem column_fourTables_tIl (host : ByteOrder) (index : Fin 4 → UInt8) :
    column host (fourTables (tIl host) index) = fun r => standard.sbox.symm ⟨index r⟩ := by
  rw [tIl, column_fourTables (l := LinearMap.id) length_isbData (column_w host)]
  simp only [isbData_getD, LinearMap.id_apply]

/-- The tables `t_im` compute the inverse of MixColumns. -/
theorem column_fourTables_tIm (host : ByteOrder) (index : Fin 4 → UInt8) :
    column host (fourTables (tIm host) index) = standard.invMixColumn fun r => ⟨index r⟩ := by
  rw [tIm, column_fourTables length_mmData (column_v host)]
  simp only [mmData_getD]

/-- The round constants of the code are those of the standard. -/
theorem column_tRc (host : ByteOrder) {i : ℕ} (h : i < 10) :
    column host (tRc host i) = standard.rcon i := by
  have htable : ∀ i < 10, rcData.getD i 0 = (standard.xtime^[i] standard.one).byte := by
    decide +kernel
  have hentry : tRc host i = w host (rcData.getD i 0).toUInt32 0 := by
    rw [tRc, List.getD_eq_getElem _ _ (by simpa [rcData] using h),
      List.getD_eq_getElem _ _ (by simpa [rcData] using h), List.getElem_map]
  rw [hentry, htable i h, column_w, Rijndael.rcon]

end San2.Aes
