import Mathlib.Data.List.Basic
import Mathlib.Logic.Function.Basic

/-!
# Objects at addresses that are used again

Objects are made at free addresses and deleted again. An address does not say which object it
stands for, since another one may be made there later. Objects are numbered in the order in
which they are made, so an address that was read together with the number of its object still
stands for that object exactly as long as the object has not been deleted.
-/

/-- The objects by their addresses, and the numbers of those that have been deleted. -/
structure Lifetimes (α β : Type*) where
  objects : α → Option (ℕ × β)
  made : ℕ
  deleted : List ℕ

namespace Lifetimes

variable {α β : Type*} {heap : Lifetimes α β} {address : α} {number : ℕ}

/-- Nothing has been made yet. -/
def empty : Lifetimes α β := ⟨fun _ => none, 0, []⟩

/-- The address stands for the object with the number, if that still exists. -/
def Names (heap : Lifetimes α β) (address : α) (number : ℕ) : Prop :=
  number < heap.made ∧
    ∀ other x, heap.objects other = some (number, x) → other = address

/-- A number is in use at one address at most, and those that were given out and are in use no
more are the deleted ones. -/
structure Sound (heap : Lifetimes α β) : Prop where
  names : ∀ address number x, heap.objects address = some (number, x) → heap.Names address number
  deleted_iff : ∀ number, number ∈ heap.deleted ↔
    number < heap.made ∧ ∀ address x, heap.objects address ≠ some (number, x)

/-- Before anything is made this holds. -/
theorem sound_empty : (empty : Lifetimes α β).Sound := by
  constructor
  · intro address number x h
    cases h
  · intro number
    exact iff_of_false List.not_mem_nil fun h => Nat.not_lt_zero number h.1

/-- The object is at its address until it is deleted. -/
theorem Names.here_iff (h : heap.Names address number) (hsound : heap.Sound) :
    (∃ x, heap.objects address = some (number, x)) ↔ number ∉ heap.deleted := by
  rw [hsound.deleted_iff]
  constructor
  · rintro ⟨x, hx⟩ ⟨-, hnone⟩
    exact hnone address x hx
  · intro hnot
    by_contra hnone
    refine hnot ⟨h.1, fun other x hx => hnone ⟨x, ?_⟩⟩
    rw [← h.2 other x hx]
    exact hx

variable [DecidableEq α]

/-- An object is made at an address that is free. -/
def make (address : α) (x : β) (heap : Lifetimes α β) : Option (Lifetimes α β) :=
  match heap.objects address with
  | some _ => none
  | none => some ⟨Function.update heap.objects address (some (heap.made, x)), heap.made + 1,
      heap.deleted⟩

/-- The object at an address gets another value. -/
def modify (address : α) (f : β → β) (heap : Lifetimes α β) : Lifetimes α β :=
  { heap with
    objects := Function.update heap.objects address
      ((heap.objects address).map fun entry => (entry.1, f entry.2)) }

/-- Delete what is at an address. -/
def delete (address : α) (heap : Lifetimes α β) : Lifetimes α β :=
  match heap.objects address with
  | none => heap
  | some (number, _) =>
    ⟨Function.update heap.objects address none, heap.made, number :: heap.deleted⟩

/-- The new object is there besides the others. -/
theorem objects_make {x : β} {heap' : Lifetimes α β} (h : heap.make address x = some heap') :
    heap.objects address = none ∧ heap'.made = heap.made + 1 ∧ heap'.deleted = heap.deleted ∧
      ∀ other n y, heap'.objects other = some (n, y) ↔
        (other = address ∧ n = heap.made ∧ y = x) ∨ heap.objects other = some (n, y) := by
  unfold make at h
  cases hobject : heap.objects address with
  | some entry =>
    rw [hobject] at h
    cases h
  | none =>
    rw [hobject] at h
    obtain rfl := Option.some.inj h
    refine ⟨rfl, rfl, rfl, fun other n y => ?_⟩
    dsimp only
    by_cases hother : other = address
    · rw [hother, Function.update_self, hobject, Option.some.injEq, Prod.mk.injEq]
      simp [eq_comm]
    · rw [Function.update_of_ne hother]
      simp [hother]

/-- An object keeps its number and its address. -/
theorem objects_modify {f : β → β} {other : α} {x : β} :
    (heap.modify address f).objects other = some (number, x) ↔
      ∃ y, heap.objects other = some (number, y) ∧ x = if other = address then f y else y := by
  unfold modify
  dsimp only
  by_cases hother : other = address
  · subst hother
    rw [Function.update_self]
    cases hobject : heap.objects other with
    | none => simp
    | some entry =>
      obtain ⟨n, y⟩ := entry
      simp only [Option.map_some, Option.some.injEq, Prod.mk.injEq, if_true]
      constructor
      · rintro ⟨rfl, rfl⟩
        exact ⟨y, ⟨rfl, rfl⟩, rfl⟩
      · rintro ⟨y, ⟨rfl, rfl⟩, rfl⟩
        exact ⟨rfl, rfl⟩
  · rw [Function.update_of_ne hother]
    simp only [if_neg hother]
    constructor
    · exact fun h => ⟨x, h, rfl⟩
    · rintro ⟨y, h, rfl⟩
      exact h

/-- Deleting an object records its number and leaves the other addresses alone. -/
theorem objects_delete {x : β} (h : heap.objects address = some (number, x)) :
    (heap.delete address).made = heap.made ∧
      (heap.delete address).deleted = number :: heap.deleted ∧
      ∀ other n y, (heap.delete address).objects other = some (n, y) ↔
        other ≠ address ∧ heap.objects other = some (n, y) := by
  unfold delete
  rw [h]
  refine ⟨rfl, rfl, fun other n y => ?_⟩
  dsimp only
  by_cases hother : other = address
  · rw [hother, Function.update_self]
    simp
  · rw [Function.update_of_ne hother, and_iff_right hother]

/-- Where there is nothing, nothing is deleted. -/
theorem delete_of_none (h : heap.objects address = none) : heap.delete address = heap := by
  unfold delete
  rw [h]

/-- What is made later does not get the number of an earlier object. -/
theorem Names.make {other : α} {x : β} {heap' : Lifetimes α β} (h : heap.Names other number)
    (hmake : heap.make address x = some heap') : heap'.Names other number := by
  obtain ⟨-, hmade, -, hobjects⟩ := objects_make hmake
  obtain ⟨hlt, honly⟩ := h
  refine ⟨by omega, fun a y ha => ?_⟩
  rcases (hobjects a number y).mp ha with ⟨-, hnew, -⟩ | hold
  · omega
  · exact honly a y hold

/-- A number stays with its object when objects change. -/
theorem Names.modify {other : α} (h : heap.Names other number) (f : β → β) :
    (heap.modify address f).Names other number := by
  refine ⟨h.1, fun a x ha => ?_⟩
  obtain ⟨y, hy, -⟩ := objects_modify.mp ha
  exact h.2 a y hy

/-- A number stays with its object when objects are deleted. -/
theorem Names.delete {other : α} (h : heap.Names other number) :
    (heap.delete address).Names other number := by
  cases hobject : heap.objects address with
  | none => rwa [delete_of_none hobject]
  | some entry =>
    obtain ⟨hmade, -, hobjects⟩ := objects_delete hobject
    refine ⟨hmade ▸ h.1, fun a x ha => ?_⟩
    exact h.2 a x ((hobjects a number x).mp ha).2

/-- Nobody else has the number of a new object. -/
theorem Sound.make {x : β} {heap' : Lifetimes α β} (h : heap.Sound)
    (hmake : heap.make address x = some heap') :
    heap'.Sound ∧ heap'.Names address heap.made := by
  obtain ⟨-, hmade, hdeleted, hobjects⟩ := objects_make hmake
  have hnew : heap'.Names address heap.made := by
    refine ⟨by omega, fun a y ha => ?_⟩
    rcases (hobjects a _ y).mp ha with ⟨rfl, -, -⟩ | hold
    · rfl
    · exact absurd (h.names a _ y hold).1 (Nat.lt_irrefl _)
  refine ⟨⟨fun a n y ha => ?_, fun n => ?_⟩, hnew⟩
  · rcases (hobjects a n y).mp ha with ⟨rfl, rfl, -⟩ | hold
    · exact hnew
    · exact (h.names a n y hold).make hmake
  · rw [hdeleted, h.deleted_iff, hmade]
    constructor
    · rintro ⟨hlt, hnone⟩
      refine ⟨by omega, fun a y ha => ?_⟩
      rcases (hobjects a n y).mp ha with ⟨-, hn, -⟩ | hold
      · omega
      · exact hnone a y hold
    · rintro ⟨hlt, hnone⟩
      have hne : n ≠ heap.made := by
        rintro rfl
        exact hnone address x ((hobjects _ _ _).mpr (Or.inl ⟨rfl, rfl, rfl⟩))
      exact ⟨by omega, fun a y ha => hnone a y ((hobjects a n y).mpr (Or.inr ha))⟩

/-- Changing objects keeps their numbers apart. -/
theorem Sound.modify (h : heap.Sound) (f : β → β) : (heap.modify address f).Sound := by
  refine ⟨fun a n x ha => ?_, fun n => (h.deleted_iff n).trans ?_⟩
  · obtain ⟨y, hy, -⟩ := objects_modify.mp ha
    exact (h.names a n y hy).modify f
  · refine and_congr_right fun _ => ⟨fun hnone a x ha => ?_, fun hnone a y hy => ?_⟩
    · obtain ⟨y, hy, -⟩ := objects_modify.mp ha
      exact hnone a y hy
    · exact hnone a _ (objects_modify.mpr ⟨y, hy, rfl⟩)

/-- Deleting an object keeps the numbers apart. -/
theorem Sound.delete (h : heap.Sound) : (heap.delete address).Sound := by
  cases hobject : heap.objects address with
  | none => rwa [delete_of_none hobject]
  | some entry =>
    obtain ⟨number, x⟩ := entry
    have hnames := h.names address number x hobject
    obtain ⟨hmade, hdeleted, hobjects⟩ := objects_delete hobject
    refine ⟨fun a n y ha => ?_, fun n => ?_⟩
    · exact (h.names a n y ((hobjects a n y).mp ha).2).delete
    · rw [hdeleted, hmade, List.mem_cons, h.deleted_iff]
      constructor
      · rintro (rfl | ⟨hlt, hnone⟩)
        · refine ⟨hnames.1, fun a y ha => ?_⟩
          obtain ⟨hne, hold⟩ := (hobjects a n y).mp ha
          exact hne (hnames.2 a y hold)
        · exact ⟨hlt, fun a y ha => hnone a y ((hobjects a n y).mp ha).2⟩
      · rintro ⟨hlt, hnone⟩
        by_cases heq : n = number
        · exact Or.inl heq
        · refine Or.inr ⟨hlt, fun a y ha => hnone a y ((hobjects a n y).mpr ⟨?_, ha⟩)⟩
          rintro rfl
          rw [hobject] at ha
          cases ha
          exact heq rfl

end Lifetimes
