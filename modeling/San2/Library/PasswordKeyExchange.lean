import Mathlib.Algebra.Ring.Commute
import Mathlib.GroupTheory.OrderOfElement
import Mathlib.Tactic.Ring

/-!
# Password-authenticated key exchange

A client that knows a private key `x` and a server that knows only `g ^ x` agree
on a shared element of a commutative ring. The server hides its ephemeral value
behind a multiple of the verifier, and the client takes the multiple away again.
-/

namespace PasswordKeyExchange

variable {R : Type*} [CommRing R] (g k : R)

/-- The public value of the client for the ephemeral secret `a`. -/
def clientPublic (a : ℕ) : R := g ^ a

/-- What the server keeps for the private key `x`. -/
def verifier (x : ℕ) : R := g ^ x

/-- The public value of the server for the ephemeral secret `b`. -/
def serverPublic (v : R) (b : ℕ) : R := k * v + g ^ b

/-- The shared element as the client computes it, with its exponent left open. -/
def clientShared (B : R) (x exponent : ℕ) : R := (B - k * g ^ x) ^ exponent

/-- The shared element as the server computes it. -/
def serverShared (A v : R) (u b : ℕ) : R := (A * v ^ u) ^ b

/-- Taking the hidden multiple away leaves a power of `g ^ b`. -/
theorem clientShared_eq (x b exponent : ℕ) :
    clientShared g k (serverPublic g k (verifier g x) b) x exponent = (g ^ b) ^ exponent := by
  unfold clientShared serverPublic verifier
  rw [add_sub_cancel_left]

/-- The server's element is a power of `g ^ b` too. -/
theorem serverShared_eq (a x u b : ℕ) :
    serverShared (clientPublic g a) (verifier g x) u b = (g ^ b) ^ (a + u * x) := by
  unfold serverShared clientPublic verifier
  rw [← pow_mul, ← pow_add, ← pow_mul, ← pow_mul]
  congr 1
  ring

/-- With the exponent `a + u * x` the client computes what the server computes. -/
theorem clientShared_eq_serverShared (a x u b : ℕ) :
    clientShared g k (serverPublic g k (verifier g x) b) x (a + u * x) =
      serverShared (clientPublic g a) (verifier g x) u b := by
  rw [clientShared_eq, serverShared_eq]

/-- Two exponents give the same shared element exactly when the order of `g ^ b`
cannot tell them apart. -/
theorem shared_eq_iff {g : R} (hg : IsUnit g) {b exponent exponent' : ℕ} :
    (g ^ b) ^ exponent = (g ^ b) ^ exponent' ↔ exponent ≡ exponent' [MOD orderOf (g ^ b)] := by
  obtain ⟨unit, rfl⟩ := hg
  rw [← Units.val_pow_eq_pow_val, ← Units.val_pow_eq_pow_val, ← Units.val_pow_eq_pow_val,
    Units.val_inj, orderOf_units, pow_eq_pow_iff_modEq]

end PasswordKeyExchange
