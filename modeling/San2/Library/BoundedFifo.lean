import Mathlib.Data.List.Basic

/-!
# A bounded first-in first-out queue with its history

The state keeps everything that was ever pushed and popped. That the popped items
come first among the pushed ones, and that the rest fits into the capacity, are
fields of the state, so that no operation can break them.
-/

namespace BoundedFifo

variable {α : Type*}

/-- A queue that never holds more than its capacity. -/
structure State (α : Type*) where
  capacity : ℕ
  pushed : List α
  popped : List α
  contents : List α
  fifo : popped ++ contents = pushed
  bounded : contents.length ≤ capacity

/-- An empty queue. -/
def empty (capacity : ℕ) : State α where
  capacity := capacity
  pushed := []
  popped := []
  contents := []
  fifo := rfl
  bounded := Nat.zero_le capacity

namespace State

/-- Popped items come out in the order in which they were pushed, none lost or repeated. -/
theorem popped_prefix (s : State α) : s.popped <+: s.pushed := ⟨s.contents, s.fifo⟩

/-- Append an item where there is room. -/
def push (s : State α) (item : α) (hroom : s.contents.length < s.capacity) : State α where
  capacity := s.capacity
  pushed := s.pushed ++ [item]
  popped := s.popped
  contents := s.contents ++ [item]
  fifo := by rw [← List.append_assoc, s.fifo]
  bounded := by
    rw [List.length_append, List.length_singleton]
    omega

/-- Take the first item. -/
def pop (s : State α) {item : α} {rest : List α} (hfirst : s.contents = item :: rest) :
    State α where
  capacity := s.capacity
  pushed := s.pushed
  popped := s.popped ++ [item]
  contents := rest
  fifo := by
    have hfifo := s.fifo
    rw [hfirst] at hfifo
    rw [← hfifo, List.append_assoc, List.singleton_append]
  bounded := by
    have hbounded := s.bounded
    rw [hfirst, List.length_cons] at hbounded
    omega

end State

/-- What can be done to a queue. -/
inductive Action (α : Type*)
  | push (item : α)
  | pop

/-- Push where there is room, or pop where there is an item. -/
def step (s : State α) : Action α → Option (State α)
  | .push item =>
    if hroom : s.contents.length < s.capacity then some (s.push item hroom) else none
  | .pop =>
    match hfirst : s.contents with
    | [] => none
    | _ :: _ => some (s.pop hfirst)

/-- A push with room in the queue appends the item. -/
theorem step_push {s : State α} (item : α) (hroom : s.contents.length < s.capacity) :
    step s (.push item) = some (s.push item hroom) :=
  dif_pos hroom

/-- A pop takes the first item. -/
theorem step_pop {s : State α} {item : α} {rest : List α} (hfirst : s.contents = item :: rest) :
    step s .pop = some (s.pop hfirst) := by
  obtain ⟨capacity, pushed, popped, contents, fifo, bounded⟩ := s
  obtain rfl : contents = item :: rest := hfirst
  rfl

/-- No operation changes the capacity. -/
theorem step_capacity {s s' : State α} {a : Action α} (hstep : step s a = some s') :
    s'.capacity = s.capacity := by
  cases a with
  | push item =>
    simp only [step, Option.dite_none_right_eq_some, Option.some.injEq] at hstep
    obtain ⟨hroom, rfl⟩ := hstep
    rfl
  | pop =>
    simp only [step] at hstep
    split at hstep
    · cases hstep
    · obtain rfl := Option.some.inj hstep
      rfl

end BoundedFifo
