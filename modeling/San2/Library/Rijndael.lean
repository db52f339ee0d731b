import San2.Library.RoundCipher
import Mathlib.LinearAlgebra.Pi
import Mathlib.Tactic.Module

/-!
# Rijndael

The cipher with blocks of four columns of four bytes. Of the bytes only this is
used: they form a vector space over the field of two elements, with a linear map
(multiplication by `x`), a unit and a substitution. That the mixing of columns is
invertible then follows from the identity of the two coefficient polynomials and
needs nothing of the modulus.
-/

/-- The arithmetic of the bytes. -/
structure Rijndael (B : Type*) [AddCommGroup B] [Module (ZMod 2) B] where
  sbox : B ≃ B
  xtime : B →ₗ[ZMod 2] B
  one : B

namespace Rijndael

/-- Rows and columns are counted modulo four. -/
scoped instance neZero_four : NeZero 4 := ⟨by decide⟩

/-- A column of the state, its row in the argument. -/
abbrev Column (B : Type*) := Fin 4 → B

/-- A block, by columns. -/
abbrev State (B : Type*) := Fin 4 → Column B

variable {B : Type*} [AddCommGroup B] [Module (ZMod 2) B] (c : Rijndael B)

/-- Multiplication by 3. -/
def times3 : B →ₗ[ZMod 2] B := c.xtime + LinearMap.id

/-- Multiplication by 9. -/
def times9 : B →ₗ[ZMod 2] B := c.xtime ∘ₗ c.xtime ∘ₗ c.xtime + LinearMap.id

/-- Multiplication by 11. -/
def timesB : B →ₗ[ZMod 2] B := c.xtime ∘ₗ c.xtime ∘ₗ c.xtime + c.xtime + LinearMap.id

/-- Multiplication by 13. -/
def timesD : B →ₗ[ZMod 2] B := c.xtime ∘ₗ c.xtime ∘ₗ c.xtime + c.xtime ∘ₗ c.xtime + LinearMap.id

/-- Multiplication by 14. -/
def timesE : B →ₗ[ZMod 2] B := c.xtime ∘ₗ c.xtime ∘ₗ c.xtime + c.xtime ∘ₗ c.xtime + c.xtime

/-- A column multiplied by the circulant matrix with the given first row. -/
def circulant (m₀ m₁ m₂ m₃ : B →ₗ[ZMod 2] B) : Column B →ₗ[ZMod 2] Column B :=
  LinearMap.pi fun r => m₀ ∘ₗ LinearMap.proj r + m₁ ∘ₗ LinearMap.proj (r + 1) +
    m₂ ∘ₗ LinearMap.proj (r + 2) + m₃ ∘ₗ LinearMap.proj (r + 3)

/-- A row of the product with a circulant matrix. -/
theorem circulant_apply (m₀ m₁ m₂ m₃ : B →ₗ[ZMod 2] B) (a : Column B) (r : Fin 4) :
    circulant m₀ m₁ m₂ m₃ a r = m₀ (a r) + m₁ (a (r + 1)) + m₂ (a (r + 2)) + m₃ (a (r + 3)) := rfl

/-- MixColumns for one column, with the factors 2, 3, 1 and 1. -/
def mixColumn : Column B →ₗ[ZMod 2] Column B :=
  circulant c.xtime c.times3 LinearMap.id LinearMap.id

/-- The inverse of MixColumns for one column, with the factors 14, 11, 13 and 9. -/
def invMixColumn : Column B →ₗ[ZMod 2] Column B :=
  circulant c.timesE c.timesB c.timesD c.times9

/-- Rows are counted modulo 4. -/
theorem row_add (r : Fin 4) :
    r + 1 + 1 = r + 2 ∧ r + 1 + 2 = r + 3 ∧ r + 1 + 3 = r ∧ r + 2 + 1 = r + 3 ∧ r + 2 + 2 = r ∧
      r + 2 + 3 = r + 1 ∧ r + 3 + 1 = r ∧ r + 3 + 2 = r + 1 ∧ r + 3 + 3 = r + 2 := by
  revert r
  decide

/-- The product of the two coefficient polynomials is one, whatever
multiplication by `x` is. -/
theorem invMixColumn_mixColumn (a : Column B) : c.invMixColumn (c.mixColumn a) = a := by
  funext r
  obtain ⟨h₁, h₂, h₃, h₄, h₅, h₆, h₇, h₈, h₉⟩ := row_add r
  simp only [invMixColumn, mixColumn, circulant_apply, times3, times9, timesB, timesD, timesE,
    LinearMap.add_apply, LinearMap.comp_apply, LinearMap.id_apply, map_add,
    h₁, h₂, h₃, h₄, h₅, h₆, h₇, h₈, h₉]
  -- The scalars are compared in the field of two elements.
  refine (one_smul (ZMod 2) _).symm.trans ?_
  match_scalars <;> decide

/-- The two matrices are inverse to each other in this order as well. -/
theorem mixColumn_invMixColumn (a : Column B) : c.mixColumn (c.invMixColumn a) = a := by
  funext r
  obtain ⟨h₁, h₂, h₃, h₄, h₅, h₆, h₇, h₈, h₉⟩ := row_add r
  simp only [invMixColumn, mixColumn, circulant_apply, times3, times9, timesB, timesD, timesE,
    LinearMap.add_apply, LinearMap.comp_apply, LinearMap.id_apply, map_add,
    h₁, h₂, h₃, h₄, h₅, h₆, h₇, h₈, h₉]
  refine (one_smul (ZMod 2) _).symm.trans ?_
  match_scalars <;> decide

/-- MixColumns for the whole state. -/
def mixColumns : State B ≃+ State B where
  toFun s i := c.mixColumn (s i)
  invFun s i := c.invMixColumn (s i)
  left_inv s := funext fun i => c.invMixColumn_mixColumn (s i)
  right_inv s := funext fun i => c.mixColumn_invMixColumn (s i)
  map_add' s t := funext fun i => map_add c.mixColumn (s i) (t i)

/-- SubBytes: the S-box for each byte of the state. -/
def subBytes : State B ≃ State B :=
  Equiv.piCongrRight fun _ => Equiv.piCongrRight fun _ => c.sbox

/-- Row `r` moves by `r` columns. -/
def shiftRows : State B ≃ State B where
  toFun s i r := s (i + r) r
  invFun s i r := s (i - r) r
  left_inv s := by simp
  right_inv s := by simp

/-- The rounds of the cipher: SubBytes and ShiftRows, then MixColumns. -/
def rounds : RoundCipher (State B) where
  substitute := c.subBytes.trans shiftRows
  mix := c.mixColumns

/-- The S-box for each byte of a word. -/
def subWord (w : Column B) : Column B := fun r => c.sbox (w r)

/-- A word rotated by one byte. -/
def rotWord (w : Column B) : Column B := fun r => w (r + 1)

/-- The round constant that the word after `i` groups of words is given. -/
def rcon (i : ℕ) : Column B := Pi.single 0 (c.xtime^[i] c.one)

/-- What is added to the word `nk` places back to obtain word `i`. -/
def temp (nk i : ℕ) (w : Column B) : Column B :=
  if i % nk = 0 then c.subWord (rotWord w) + c.rcon (i / nk - 1)
  else if 6 < nk ∧ i % nk = 4 then c.subWord w
  else w

/-- Word `i` of the schedule that grows from a key of `nk` words. -/
def expand (nk : ℕ) (key : ℕ → Column B) (i : ℕ) : Column B :=
  if i < nk ∨ nk = 0 then key i
  else expand nk key (i - nk) + c.temp nk i (expand nk key (i - 1))
termination_by i

/-- The expanded key begins with the key. -/
theorem expand_of_lt {nk : ℕ} (key : ℕ → Column B) {i : ℕ} (h : i < nk) :
    c.expand nk key i = key i := by
  rw [expand, if_pos (Or.inl h)]

/-- Behind the key each word is made of the one `nk` places before and the word in front of it. -/
theorem expand_of_le {nk : ℕ} (hnk : 0 < nk) (key : ℕ → Column B) {i : ℕ} (h : nk ≤ i) :
    c.expand nk key i =
      c.expand nk key (i - nk) + c.temp nk i (c.expand nk key (i - 1)) := by
  rw [expand, if_neg (by omega)]

/-- The round key of four successive words. -/
def roundKey (w : ℕ → Column B) (i : ℕ) : State B := fun j => w (4 * i + j)

/-- The number of rounds for a key of `nk` words. -/
def roundCount (nk : ℕ) : ℕ := nk + 6

/-- The round keys between the first and the last. -/
def middleKeys (nk : ℕ) (w : ℕ → Column B) : List (State B) :=
  (List.range (roundCount nk - 1)).map fun i => roundKey w (i + 1)

/-- The cipher for a key of `nk` words. -/
def cipher (nk : ℕ) (key : ℕ → Column B) (s : State B) : State B :=
  c.rounds.encrypt (roundKey (c.expand nk key) 0) (middleKeys nk (c.expand nk key))
    (roundKey (c.expand nk key) (roundCount nk)) s

/-- The inverse cipher for a key of `nk` words. -/
def invCipher (nk : ℕ) (key : ℕ → Column B) (s : State B) : State B :=
  c.rounds.decrypt (roundKey (c.expand nk key) (roundCount nk))
    ((middleKeys nk (c.expand nk key)).reverse.map c.mixColumns.symm)
    (roundKey (c.expand nk key) 0) s

/-- The inverse cipher gives back what the cipher was applied to. -/
theorem invCipher_cipher (nk : ℕ) (key : ℕ → Column B) (s : State B) :
    c.invCipher nk key (c.cipher nk key s) = s :=
  c.rounds.decrypt_encrypt _ _ _ s

/-- Decrypting and then encrypting gives the block back. -/
theorem cipher_invCipher [Finite B] (nk : ℕ) (key : ℕ → Column B) (s : State B) :
    c.cipher nk key (c.invCipher nk key s) = s := by
  have hleft : Function.LeftInverse (c.invCipher nk key) (c.cipher nk key) :=
    c.invCipher_cipher nk key
  exact hleft.rightInverse_of_surjective (Finite.surjective_of_injective hleft.injective) s

end Rijndael
