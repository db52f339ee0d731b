import Mathlib.Data.List.Iterate
import Mathlib.Data.List.Nodup
import Mathlib.Logic.Function.Iterate

/-!
# Counter mode

A keystream is the concatenation of the images of successive counter states
under a block function, and a text is combined with it byte by byte. Nothing is
assumed of the step that leads from one counter state to the next.
-/

namespace CounterMode

/-- Combine a text with a keystream byte by byte. -/
def xorBytes (text keystream : List UInt8) : List UInt8 :=
  List.zipWith (· ^^^ ·) text keystream

/-- The shorter of text and keystream decides the length. -/
@[simp] theorem length_xorBytes (text keystream : List UInt8) :
    (xorBytes text keystream).length = min text.length keystream.length :=
  List.length_zipWith

/-- Combining with the same keystream twice gives the text back. -/
theorem xorBytes_xorBytes {text keystream : List UInt8}
    (h : text.length ≤ keystream.length) :
    xorBytes (xorBytes text keystream) keystream = text := by
  induction text generalizing keystream with
  | nil => rfl
  | cons b text ih =>
    cases keystream with
    | nil => simp at h
    | cons k keystream =>
      have hrest := @ih keystream (by simpa using h)
      simp only [xorBytes, List.zipWith_cons_cons] at hrest ⊢
      rw [hrest, UInt8.xor_assoc, UInt8.xor_self, UInt8.xor_zero]

/-- Two pieces of a text use the two pieces of the keystream. -/
theorem xorBytes_append {text text' keystream keystream' : List UInt8}
    (h : text.length = keystream.length) :
    xorBytes (text ++ text') (keystream ++ keystream') =
      xorBytes text keystream ++ xorBytes text' keystream' :=
  List.zipWith_append h

/-- It does not matter which of the two is the keystream. -/
theorem xorBytes_comm (text keystream : List UInt8) :
    xorBytes text keystream = xorBytes keystream text :=
  List.zipWith_comm_of_comm fun a b => UInt8.xor_comm a b

/-- What a text is combined with can be told from the result. -/
theorem xorBytes_cancel {text keystream keystream' : List UInt8}
    (h : keystream.length ≤ text.length) (h' : keystream'.length ≤ text.length)
    (heq : xorBytes text keystream = xorBytes text keystream') : keystream = keystream' := by
  rw [xorBytes_comm text, xorBytes_comm text] at heq
  rw [← xorBytes_xorBytes h, heq, xorBytes_xorBytes h']

variable {σ : Type*}

/-- The keystream of the first `n` counter states from `s`. -/
def keystream (next : σ → σ) (block : σ → List UInt8) (s : σ) (n : ℕ) : List UInt8 :=
  (List.iterate next s n).flatMap block

/-- A keystream of `n` blocks is as long as they are together. -/
theorem length_keystream (next : σ → σ) {block : σ → List UInt8} {size : ℕ}
    (hblock : ∀ s, (block s).length = size) (s : σ) (n : ℕ) :
    (keystream next block s n).length = n * size := by
  have hsizes : (List.iterate next s n).map (fun s => (block s).length) =
      List.replicate n size := by
    simp [hblock, List.map_const']
  rw [keystream, List.length_flatMap, hsizes, List.sum_replicate_nat]

/-- A keystream continues from the counter state that its first part ends in. -/
theorem keystream_add (next : σ → σ) (block : σ → List UInt8) (s : σ) (m n : ℕ) :
    keystream next block s (m + n) =
      keystream next block s m ++ keystream next block (next^[m] s) n := by
  simp only [keystream, List.iterate_add, List.flatMap_append]

/-- One step of the generator yields one block. -/
theorem keystream_one (next : σ → σ) (block : σ → List UInt8) (s : σ) :
    keystream next block s 1 = block s := List.flatMap_singleton block s

/-- What a keystream begins with does not depend on how far it goes. -/
theorem take_keystream (next : σ → σ) {block : σ → List UInt8} {size : ℕ}
    (hblock : ∀ s, (block s).length = size) (s : σ) {length m n : ℕ} (hm : length ≤ m * size)
    (hn : length ≤ n * size) :
    (keystream next block s m).take length = (keystream next block s n).take length := by
  have hfront : ∀ k extra, length ≤ k * size →
      (keystream next block s (k + extra)).take length =
        (keystream next block s k).take length := by
    intro k extra hk
    rw [keystream_add, List.take_append_of_le_length]
    rw [length_keystream next hblock]
    exact hk
  rcases Nat.le_total m n with hle | hle
  · obtain ⟨extra, rfl⟩ := Nat.exists_eq_add_of_le hle
    exact (hfront m extra hm).symm
  · obtain ⟨extra, rfl⟩ := Nat.exists_eq_add_of_le hle
    exact hfront n extra hn

/-- Counter states related by a relation that every step keeps give the same
keystream when related states have the same block. -/
theorem keystream_congr {next : σ → σ} {block : σ → List UInt8} {r : σ → σ → Prop}
    (hnext : ∀ s t, r s t → r (next s) (next t)) (hblock : ∀ s t, r s t → block s = block t)
    {s t : σ} (h : r s t) (n : ℕ) : keystream next block s n = keystream next block t n := by
  induction n generalizing s t with
  | zero => rfl
  | succ n ih =>
    have hrest := ih (hnext s t h)
    simp only [keystream, List.iterate, List.flatMap_cons] at hrest ⊢
    rw [hblock s t h, hrest]

/-- Counter states that look alike after a period show the same block twice as
soon as the text is longer than the period. -/
theorem not_nodup_of_period {τ : Type*} {next : σ → σ} {view : σ → τ} {s : σ} (period : ℕ)
    {n : ℕ} (hpos : 0 < period) (hperiod : view (next^[period] s) = view s) (hn : period < n) :
    ¬ ((List.iterate next s n).map view).Nodup := by
  intro hnodup
  have hzero : 0 < ((List.iterate next s n).map view).length := by simp; omega
  have hlast : period < ((List.iterate next s n).map view).length := by simpa using hn
  have hget : ((List.iterate next s n).map view)[0] =
      ((List.iterate next s n).map view)[period] := by
    simp [hperiod]
  have hindex := (List.Nodup.getElem_inj_iff hnodup).mp hget
  omega

end CounterMode
