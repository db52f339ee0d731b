import San2.Library.Rijndael
import Mathlib.Algebra.CharP.Frobenius
import Mathlib.Algebra.CharP.Two
import Mathlib.Algebra.Field.Basic

/-!
# The bytes of AES

A byte stands for a polynomial over the field of two elements, modulo
`x^8 + x^4 + x^3 + x + 1`. The bytes are shown to be a field, and the
substitution is the affine image of the inverse in it. This is the instance of
Rijndael that the tables of the AES library are meant to compute.
-/

namespace San2.Aes

/-- Multiplication by `x`: a carry out of the top bit is folded back. -/
def timesX (n : ℕ) : ℕ := (n <<< 1) ^^^ ((n >>> 7) * 0x11b)

/-- The product with the lowest coefficients of the second factor. -/
def product (a b : ℕ) : ℕ → ℕ
  | 0 => 0
  | count + 1 => timesX (product a (b >>> 1) count) ^^^ ((b &&& 1) * a)

/-- Multiplication by `x` stays within eight coefficients. -/
theorem timesX_lt {n : ℕ} (h : n < 256) : timesX n < 256 := by
  revert n
  decide +kernel

/-- A bit times a number, for the sum of two bits. -/
theorem bit_mul_xor {u v : ℕ} (hu : u < 2) (hv : v < 2) (c : ℕ) :
    (u ^^^ v) * c = u * c ^^^ v * c := by
  interval_cases u <;> interval_cases v <;> simp

/-- Multiplication by `x` respects sums. -/
theorem timesX_xor {m n : ℕ} (hm : m < 256) (hn : n < 256) :
    timesX (m ^^^ n) = timesX m ^^^ timesX n := by
  have hbits : ∀ {k}, k < 256 → k >>> 7 < 2 := fun h => by rw [Nat.shiftRight_eq_div_pow]; omega
  rw [timesX, Nat.shiftLeft_xor_distrib, Nat.shiftRight_xor_distrib,
    bit_mul_xor (hbits hm) (hbits hn), timesX, timesX]
  ac_rfl

/-- The lowest coefficient is a bit. -/
theorem and_one_lt (b : ℕ) : b &&& 1 < 2 := by
  rw [Nat.and_one_is_mod]
  omega

/-- Products stay within eight coefficients. -/
theorem product_lt {a : ℕ} (ha : a < 256) (b count : ℕ) : product a b count < 256 := by
  induction count generalizing b with
  | zero => exact Nat.zero_lt_succ 255
  | succ count ih =>
    have hbit : (b &&& 1) * a < 256 := by
      have := and_one_lt b
      interval_cases b &&& 1 <;> omega
    exact Nat.xor_lt_two_pow (n := 8) (timesX_lt (ih (b >>> 1))) hbit

/-- Products respect sums of the second factor. -/
theorem product_xor (a b b' count : ℕ) (ha : a < 256) :
    product a (b ^^^ b') count = product a b count ^^^ product a b' count := by
  induction count generalizing b b' with
  | zero => simp [product]
  | succ count ih =>
    simp only [product]
    rw [Nat.shiftRight_xor_distrib, ih, timesX_xor (product_lt ha _ _) (product_lt ha _ _),
      Nat.and_xor_distrib_right, bit_mul_xor (and_one_lt b) (and_one_lt b')]
    ac_rfl

/-- Products respect sums of the first factor. -/
theorem xor_product {a a' : ℕ} (ha : a < 256) (ha' : a' < 256) (b count : ℕ) :
    product (a ^^^ a') b count = product a b count ^^^ product a' b count := by
  induction count generalizing b with
  | zero => simp [product]
  | succ count ih =>
    have hbit : (b &&& 1) * (a ^^^ a') = (b &&& 1) * a ^^^ (b &&& 1) * a' := by
      have := and_one_lt b
      interval_cases b &&& 1 <;> simp
    simp only [product]
    rw [ih, timesX_xor (product_lt ha _ _) (product_lt ha' _ _), hbit]
    ac_rfl

/-- A byte as an element of the field. -/
@[ext] structure Element where
  byte : UInt8
  deriving DecidableEq, Repr

namespace Element

/-- The zero of the field. -/
instance : Zero Element := ⟨⟨0⟩⟩

/-- The one of the field. -/
instance : One Element := ⟨⟨1⟩⟩

/-- Bytes are added without carries. -/
instance : Add Element := ⟨fun a b => ⟨a.byte ^^^ b.byte⟩⟩

/-- Every byte is its own negative. -/
instance : Neg Element := ⟨fun a => a⟩

/-- Bytes are multiplied as polynomials. -/
instance : Mul Element := ⟨fun a b => ⟨UInt8.ofNat (product a.byte.toNat b.byte.toNat 8)⟩⟩

/-- Zero is the zero byte. -/
@[simp] theorem byte_zero : (0 : Element).byte = 0 := rfl

/-- The byte of a sum. -/
@[simp] theorem byte_add (a b : Element) : (a + b).byte = a.byte ^^^ b.byte := rfl

/-- The byte of a product. -/
theorem toNat_mul (a b : Element) :
    (a * b).byte.toNat = product a.byte.toNat b.byte.toNat 8 :=
  UInt8.toNat_ofNat_of_lt' (product_lt a.byte.toNat_lt _ _)

/-- The bytes are a group under addition. -/
instance : AddCommGroup Element where
  add_assoc a b c := Element.ext (UInt8.xor_assoc a.byte b.byte c.byte)
  zero_add a := Element.ext UInt8.zero_xor
  add_zero a := Element.ext UInt8.xor_zero
  add_comm a b := Element.ext (UInt8.xor_comm a.byte b.byte)
  neg_add_cancel a := Element.ext UInt8.xor_self
  nsmul := nsmulRec
  zsmul := zsmulRec

/-- Multiplication is distributive on the left. -/
theorem mul_add (a b c : Element) : a * (b + c) = a * b + a * c := by
  apply Element.ext
  apply UInt8.toNat_inj.mp
  rw [byte_add, UInt8.toNat_xor, toNat_mul, toNat_mul, toNat_mul, byte_add, UInt8.toNat_xor,
    product_xor _ _ _ _ a.byte.toNat_lt]

/-- Multiplication is distributive on the right. -/
theorem add_mul (a b c : Element) : (a + b) * c = a * c + b * c := by
  apply Element.ext
  apply UInt8.toNat_inj.mp
  rw [byte_add, UInt8.toNat_xor, toNat_mul, toNat_mul, toNat_mul, byte_add, UInt8.toNat_xor,
    xor_product a.byte.toNat_lt b.byte.toNat_lt]

/-- The eight bytes of a single bit. -/
def bits : List Element := (List.range 8).map fun i => ⟨1 <<< UInt8.ofNat i⟩

/-- What holds of the 256 bytes holds of all. -/
theorem forall_byte {p : Element → Prop} (h : ∀ n : Fin 256, p ⟨UInt8.ofFin n⟩) (a : Element) :
    p a := h a.byte.toFin

/-- A byte is the sum of its bits. -/
theorem eq_sum_bits (a : Element) :
    a = (bits.filter fun bit => decide (bit.byte &&& a.byte ≠ 0)).sum := by
  revert a
  exact forall_byte (by decide +kernel)

/-- The single bits generate the group. -/
theorem closure_bits : AddSubmonoid.closure {a : Element | a ∈ bits} = ⊤ := by
  refine (AddSubmonoid.eq_top_iff' _).mpr fun a => ?_
  rw [eq_sum_bits a]
  refine AddSubmonoid.list_sum_mem _ fun bit hbit => AddSubmonoid.subset_closure ?_
  exact (List.mem_filter.mp hbit).1

/-- Two additive maps agree when they agree on the single bits. -/
theorem hom_ext {f g : Element →+ Element} (h : ∀ bit ∈ bits, f bit = g bit) : f = g :=
  AddMonoidHom.eq_of_eqOn_denseM closure_bits h

/-- Multiplication by a byte from the left. -/
def mulLeft (a : Element) : Element →+ Element := AddMonoidHom.mk' (a * ·) (mul_add a)

/-- Multiplication by a byte from the right. -/
def mulRight (a : Element) : Element →+ Element := AddMonoidHom.mk' (· * a) fun b c => add_mul b c a

/-- Multiplication is commutative, since it is on single bits. -/
theorem mul_comm (a b : Element) : a * b = b * a := by
  have hbits : ∀ x ∈ bits, ∀ y ∈ bits, x * y = y * x := by decide +kernel
  have hright : ∀ x ∈ bits, mulLeft x = mulRight x := fun x hx => hom_ext (hbits x hx)
  have hleft : mulRight b = mulLeft b := hom_ext fun x hx => DFunLike.congr_fun (hright x hx) b
  exact DFunLike.congr_fun hleft a

/-- Multiplication is associative, since it is on single bits. -/
theorem mul_assoc (a b c : Element) : a * b * c = a * (b * c) := by
  have hbits : ∀ x ∈ bits, ∀ y ∈ bits, ∀ z ∈ bits, x * y * z = x * (y * z) := by decide +kernel
  have h₁ : ∀ x ∈ bits, ∀ y ∈ bits, mulLeft (x * y) = (mulLeft x).comp (mulLeft y) :=
    fun x hx y hy => hom_ext (hbits x hx y hy)
  have h₂ : ∀ x ∈ bits, (mulRight c).comp (mulLeft x) = (mulLeft x).comp (mulRight c) :=
    fun x hx => hom_ext fun y hy => DFunLike.congr_fun (h₁ x hx y hy) c
  have h₃ : (mulRight c).comp (mulRight b) = mulRight (b * c) :=
    hom_ext fun x hx => DFunLike.congr_fun (h₂ x hx) b
  exact DFunLike.congr_fun h₃ a

/-- The byte 1 is a unit. -/
theorem one_mul (a : Element) : 1 * a = a := by
  have h : mulLeft 1 = AddMonoidHom.id Element := hom_ext (by decide +kernel)
  exact DFunLike.congr_fun h a

/-- The bytes are a commutative ring. -/
instance : CommRing Element where
  mul_assoc := mul_assoc
  one_mul := one_mul
  mul_one a := by rw [mul_comm, one_mul]
  left_distrib := mul_add
  right_distrib := add_mul
  mul_comm := mul_comm
  zero_mul a := by simpa using add_mul 0 0 a
  mul_zero a := by simpa using mul_add a 0 0
  neg_add_cancel := neg_add_cancel
  zsmul := zsmulRec

/-- A byte added to itself is zero. -/
instance : CharP Element 2 := by
  have hone : (1 : Element) ≠ 0 := by decide
  exact CharTwo.of_one_ne_zero_of_two_eq_zero hone (by decide)

/-- Every element is its own 256th power, because the powers are additive and
this holds of the single bits. -/
theorem pow_card (a : Element) : a ^ 256 = a := by
  have hbits : ∀ bit ∈ bits, (fun b : Element => b * b)^[8] bit = bit := by decide +kernel
  have hsquare : (fun b : Element => b * b) = frobenius Element 2 := by
    funext b
    rw [frobenius_def, sq]
  have hmap : (iterateFrobenius Element 2 8).toAddMonoidHom = AddMonoidHom.id Element := by
    refine hom_ext fun bit hbit => ?_
    have h := hbits bit hbit
    rw [hsquare, ← coe_iterateFrobenius] at h
    exact h
  exact DFunLike.congr_fun hmap a

/-- Only 0 and 1 are their own squares. -/
theorem eq_zero_or_one_of_mul_self : ∀ e : Element, e * e = e → e = 0 ∨ e = 1 :=
  forall_byte (by decide +kernel)

/-- The only idempotents are zero and one, so the 255th power is one. -/
theorem mul_pow_card {a : Element} (ha : a ≠ 0) : a * a ^ 254 = 1 := by
  have hpow : a ^ 255 * a ^ 255 = a ^ 255 := by
    calc a ^ 255 * a ^ 255 = a ^ 256 * a ^ 254 := by rw [← pow_add, ← pow_add]
      _ = a * a ^ 254 := by rw [pow_card]
      _ = a ^ 255 := (pow_succ' a 254).symm
  rw [← pow_succ']
  rcases eq_zero_or_one_of_mul_self _ hpow with h | h
  · exact absurd (by rw [← pow_card a, pow_succ, h, zero_mul]) ha
  · exact h

/-- The bytes are a field; the inverse of `a` is its 254th power. -/
instance : Field Element where
  inv a := a ^ 254
  exists_pair_ne := ⟨0, 1, by decide⟩
  mul_inv_cancel _ ha := mul_pow_card ha
  inv_zero := zero_pow (by decide)
  nnqsmul := _
  nnqsmul_def _ _ := rfl
  qsmul := _
  qsmul_def _ _ := rfl

/-- The field is a vector space over the field of two elements. -/
instance : Module (ZMod 2) Element := AddCommGroup.zmodModule CharTwo.two_nsmul

/-- There are finitely many bytes. -/
instance : Finite Element :=
  Finite.of_injective (fun a => a.byte.toFin) fun _ _ h => Element.ext (UInt8.toFin_inj.mp h)

/-- The affine map: each bit is the sum of five bits and of a constant. -/
def affine (a : Element) : Element :=
  let rotated (n : UInt8) := (a.byte <<< n) ||| (a.byte >>> (8 - n))
  ⟨a.byte ^^^ rotated 1 ^^^ rotated 2 ^^^ rotated 3 ^^^ rotated 4 ^^^ 0x63⟩

/-- The inverse of the affine map, as rotations. -/
def invAffine (a : Element) : Element :=
  let rotated (n : UInt8) := (a.byte <<< n) ||| (a.byte >>> (8 - n))
  ⟨rotated 1 ^^^ rotated 3 ^^^ rotated 6 ^^^ 0x05⟩

/-- The affine map of the substitution, with its inverse. -/
def affineEquiv : Element ≃ Element where
  toFun := affine
  invFun := invAffine
  left_inv := forall_byte (by decide +kernel)
  right_inv := forall_byte (by decide +kernel)

/-- The inverse in the field, with 0 for 0. -/
def invEquiv : Element ≃ Element where
  toFun a := a⁻¹
  invFun a := a⁻¹
  left_inv := inv_inv
  right_inv := inv_inv

end Element

/-- The standard. -/
def standard : Rijndael Element where
  sbox := Element.invEquiv.trans Element.affineEquiv
  xtime := (AddMonoidHom.toZModLinearMap 2 (Element.mulLeft ⟨2⟩))
  one := 1

/-- The substitution is the affine image of the inverse. -/
theorem standard_sbox (a : Element) : standard.sbox a = a⁻¹.affine := rfl

end San2.Aes
