import San2.Utils.Endian

/-!
# Byte streams

`CIStreamRW` is the interface of a byte stream whose reads and writes may be
partial. Its two loops, `readExactNumBytesAppend` and `writeAll`, are written
against the contract that the interface states, so the contract is a part of the
structure. A call that does not return with the events at hand has no result.
-/

namespace San2.Stream

/-- The interface of a byte stream with states in `σ`. -/
structure CIStreamRW (σ : Type) where
  m_maxSingleReadSize : ℕ
  maxSingleReadSize_pos : 0 < m_maxSingleReadSize
  /-- The bytes that `readSomeAppend` appends, or none for a result that is not
  positive. -/
  readSomeAppend : ℕ → StateT σ Option (Option Bytes)
  /-- The number of bytes written, or a result that is not positive. -/
  writeSome : Bytes → StateT σ Option ℤ
  /-- At least one byte is read and never more than asked for. -/
  readSomeAppend_length : ∀ {maxCount s bytes s'},
    (readSomeAppend maxCount).run s = some (some bytes, s') →
      0 < bytes.length ∧ bytes.length ≤ maxCount
  /-- Never more is written than was given. -/
  writeSome_le : ∀ {data s n s'}, (writeSome data).run s = some (n, s') → n ≤ data.length

namespace CIStreamRW

variable {σ : Type} (rw : CIStreamRW σ)

/-- The number of bytes asked for when `num` are missing. -/
def maxCount (num : ℕ) : ℕ :=
  if rw.m_maxSingleReadSize ≤ num then rw.m_maxSingleReadSize else num

/-- Append exactly `num` bytes to `out`. -/
def readExactNumBytesAppend (out : Bytes) (num : ℕ) (s : σ) : Option ((Bool × Bytes) × σ) :=
  if 0 < num then
    match _ : (rw.readSomeAppend (rw.maxCount num)).run s with
    | none => none
    | some (none, s) => some ((false, out), s)
    | some (some bytes, s) => readExactNumBytesAppend (out ++ bytes) (num - bytes.length) s
  else some ((true, out), s)
termination_by num
decreasing_by
  rename_i hread
  have hpos := (rw.readSomeAppend_length hread).1
  omega

/-- Write all of `data`. -/
def writeAll (data : Bytes) (s : σ) : Option (Bool × σ) :=
  if data = [] then some (true, s)
  else
    match (rw.writeSome data).run s with
    | none => none
    | some (n, s) =>
      if n ≤ 0 then some (false, s) else writeAll (data.drop n.toNat) s
termination_by data.length
decreasing_by
  have hpos := List.length_pos_iff.mpr ‹data ≠ []›
  simp only [List.length_drop]
  omega

/-- As long as bytes are missing, some are asked for. -/
theorem maxCount_pos {num : ℕ} (h : 0 < num) : 0 < rw.maxCount num := by
  have hsize := rw.maxSingleReadSize_pos
  unfold maxCount
  split <;> omega

/-- No more is asked for than is missing. -/
theorem maxCount_le (num : ℕ) : rw.maxCount num ≤ num := by
  unfold maxCount
  split <;> omega

/-- Nothing is read if nothing is missing. -/
@[simp] theorem readExactNumBytesAppend_zero (out : Bytes) (s : σ) :
    rw.readExactNumBytesAppend out 0 s = some ((true, out), s) := by
  rw [readExactNumBytesAppend]
  rfl

/-- A piece that was read is appended, and the loop goes on with what is missing. -/
theorem readExactNumBytesAppend_some {num : ℕ} (hnum : 0 < num) (out : Bytes) {s s' : σ}
    {bytes : Bytes} (h : (rw.readSomeAppend (rw.maxCount num)).run s = some (some bytes, s')) :
    rw.readExactNumBytesAppend out num s =
      rw.readExactNumBytesAppend (out ++ bytes) (num - bytes.length) s' := by
  rw [readExactNumBytesAppend, if_pos hnum]
  split
  · rename_i hnone
    simp [h] at hnone
  · rename_i hnone
    simp [h] at hnone
  · rename_i hsome
    rw [h] at hsome
    simp only [Option.some.injEq, Prod.mk.injEq] at hsome
    obtain ⟨rfl, rfl⟩ := hsome
    rfl

/-- A read that fails ends the loop. -/
theorem readExactNumBytesAppend_none {num : ℕ} (hnum : 0 < num) (out : Bytes) {s s' : σ}
    (h : (rw.readSomeAppend (rw.maxCount num)).run s = some (none, s')) :
    rw.readExactNumBytesAppend out num s = some ((false, out), s') := by
  rw [readExactNumBytesAppend, if_pos hnum]
  split
  · rename_i hnone
    simp [h] at hnone
  · rename_i hnone
    rw [h] at hnone
    simp only [Option.some.injEq, Prod.mk.injEq] at hnone
    obtain ⟨-, rfl⟩ := hnone
    rfl
  · rename_i hsome
    simp [h] at hsome

end CIStreamRW

end San2.Stream
