import Mathlib.Algebra.Field.ZMod
import Mathlib.Algebra.Module.ZMod

/-!
# Ciphers of substitution and mixing rounds

A block is an element of a vector space over the field of two elements. Each
round substitutes, mixes linearly and adds a round key; the last round does not
mix. Because the mixing is linear, the inverse can run the same kind of rounds
with mixed round keys.
-/

/-- The two steps of a round. -/
structure RoundCipher (S : Type*) [AddCommGroup S] where
  substitute : S ≃ S
  mix : S ≃+ S

namespace RoundCipher

variable {S : Type*} [AddCommGroup S] (c : RoundCipher S)

/-- A full round: substitution, mixing and the round key. -/
def round (x k : S) : S := c.mix (c.substitute x) + k

/-- The rounds of the inverse take round keys that have been mixed backwards. -/
def invRound (y k : S) : S := c.mix.symm (c.substitute.symm y) + k

/-- The cipher: whitening, the middle rounds and a last round without mixing. -/
def encrypt (first : S) (middle : List S) (last x : S) : S :=
  c.substitute (middle.foldl c.round (x + first)) + last

/-- The inverse with the key schedule in its own order: the last round key
first, the middle ones mixed backwards. -/
def decrypt (last : S) (middle : List S) (first y : S) : S :=
  c.substitute.symm (middle.foldl c.invRound (y + last)) + first

variable [Module (ZMod 2) S]

/-- To add a key twice does nothing. -/
theorem add_add_self (x k : S) : x + k + k = x := by
  rw [add_assoc, ZModModule.add_self, add_zero]

/-- One inverse round with the mixed key of a round undoes it, seen behind the
substitution on both sides. -/
theorem invRound_substitute_round (x k : S) :
    c.invRound (c.substitute (c.round x k)) (c.mix.symm k) = c.substitute x := by
  have hmix : c.mix.symm (c.mix (c.substitute x) + k) = c.substitute x + c.mix.symm k := by
    rw [map_add, AddEquiv.symm_apply_apply]
  rw [invRound, round, Equiv.symm_apply_apply, hmix, add_add_self]

/-- The inverse rounds walk back through the middle rounds. -/
theorem foldl_invRound (middle : List S) (x : S) :
    (middle.reverse.map c.mix.symm).foldl c.invRound (c.substitute (middle.foldl c.round x)) =
      c.substitute x := by
  induction middle using List.reverseRecOn with
  | nil => rfl
  | append_singleton middle k ih =>
    rw [List.reverse_append, List.foldl_append]
    simp only [List.reverse_singleton, List.singleton_append, List.map_cons, List.foldl_cons,
      List.foldl_nil, invRound_substitute_round]
    exact ih

/-- Decryption with the reversed and mixed schedule undoes encryption. -/
theorem decrypt_encrypt (first : S) (middle : List S) (last x : S) :
    c.decrypt last (middle.reverse.map c.mix.symm) first (c.encrypt first middle last x) = x := by
  rw [decrypt, encrypt, add_add_self, foldl_invRound, Equiv.symm_apply_apply, add_add_self]

end RoundCipher
