import San2.Utils.Endian

/-!
# Hash functions

`HashInterface` hides which hash function a computation runs with. Its result
always fills `outputLen` bytes.
-/

namespace San2.DragonSRP

/-- `DsrpException` -/
structure DsrpException where
  what : String
  deriving DecidableEq, Repr

/-- A computation that returns has returned in each of its steps. -/
theorem bind_eq_ok {ε α β : Type} {x : Except ε α} {f : α → Except ε β} {b : β} :
    (x >>= f) = .ok b ↔ ∃ a, x = .ok a ∧ f a = .ok b := by
  cases x with
  | error e => simp [bind, Except.bind]
  | ok a => simp [bind, Except.bind]

/-- What throws does not return. -/
@[simp] theorem throw_ne_ok {ε α : Type} {e : ε} {a : α} :
    (throw e : Except ε α) ≠ .ok a := by
  simp [throw, throwThe, MonadExceptOf.throw]

/-- A value is returned as it is. -/
@[simp] theorem pure_eq_ok {ε α : Type} {a b : α} :
    (pure a : Except ε α) = .ok b ↔ a = b := by
  simp [pure, Except.pure]

/-- A guard that throws lets through exactly the inputs that do not meet it. -/
@[simp] theorem ite_throw_eq_ok {ε α : Type} {p : Prop} [Decidable p] {e : ε}
    {x : Except ε α} {b : α} : (if p then throw e else x) = .ok b ↔ ¬ p ∧ x = .ok b := by
  by_cases h : p <;> simp [h]

/-- A hash function. The source counts the bytes of a text in an `unsigned int`, so that a
list of bytes stands for a text of less than 4 GiB. -/
structure HashInterface where
  outputLen : ℕ
  blockSize : ℕ
  hash : Bytes → FixedBytes outputLen

/-- The bytes that `hash` writes. -/
def HashInterface.digest (hash : HashInterface) (data : Bytes) : Bytes := (hash.hash data).val

/-- A digest has the length of the hash. -/
@[simp] theorem HashInterface.length_digest (hash : HashInterface) (data : Bytes) :
    (hash.digest data).length = hash.outputLen :=
  (hash.hash data).property

/-- `std::vector::resize` with zeros: cut off or extend to the given length. -/
def resize (data : Bytes) (length : ℕ) : Bytes :=
  data.take length ++ List.replicate (length - data.length) 0

/-- A string has the length that it is resized to. -/
@[simp] theorem length_resize (data : Bytes) (length : ℕ) :
    (resize data length).length = length := by
  unfold resize
  rw [List.length_append, List.length_take, List.length_replicate]
  omega

/-- Shrinking keeps the front of the vector. -/
theorem resize_of_le {data : Bytes} {length : ℕ} (h : length ≤ data.length) :
    resize data length = data.take length := by
  unfold resize
  rw [Nat.sub_eq_zero_of_le h, List.replicate_zero, List.append_nil]

end San2.DragonSRP
