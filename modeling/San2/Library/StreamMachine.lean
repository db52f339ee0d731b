import Mathlib.Data.List.Flatten
import Mathlib.Tactic.Common

/-!
# Stream machines

A machine reads one item after the other, writes one for each, and keeps a state.
A function that is called with pieces of a stream computes the machine when the
state it keeps between calls stands for a state of the machine; how the stream is
divided into calls then does not show in what is written. One machine undoes
another when it reads back, item by item, what the other has read.
-/

/-- The new state and the item that is written. -/
structure StreamMachine (σ α β : Type*) where
  step : σ → α → σ × β

namespace StreamMachine

variable {σ τ ρ α β γ δ : Type*}

/-- The state after a stream, and what has been written. -/
def run (M : StreamMachine σ α β) : σ → List α → σ × List β
  | s, [] => (s, [])
  | s, a :: rest =>
    let after := M.run (M.step s a).1 rest
    (after.1, (M.step s a).2 :: after.2)

variable (M : StreamMachine σ α β)

/-- Without input there is no output. -/
@[simp] theorem run_nil (s : σ) : M.run s [] = (s, []) := rfl

/-- The first element is processed first. -/
theorem run_cons (s : σ) (a : α) (rest : List α) :
    M.run s (a :: rest) =
      ((M.run (M.step s a).1 rest).1, (M.step s a).2 :: (M.run (M.step s a).1 rest).2) := rfl

/-- A stream may be processed in two parts. -/
theorem run_append (s : σ) (first second : List α) :
    M.run s (first ++ second) =
      ((M.run (M.run s first).1 second).1,
        (M.run s first).2 ++ (M.run (M.run s first).1 second).2) := by
  induction first generalizing s with
  | nil => rfl
  | cons a first ih => rw [List.cons_append, run_cons, ih, run_cons, List.cons_append]

/-- Successive calls of a function that keeps a state and may fail. -/
def calls (f : τ → γ → Option (τ × List δ)) : τ → List γ → Option (τ × List δ)
  | t, [] => some (t, [])
  | t, c :: rest => do
    let (t, first) ← f t c
    let (t, second) ← calls f t rest
    some (t, first ++ second)

/-- Successive calls compute the machine on the whole stream when each call
computes it on its piece. -/
theorem calls_run {f : τ → γ → Option (τ × List δ)} (view : γ → List α)
    (write : List β → List δ) (inv : γ → Prop) {R : τ → σ → Prop} (hnil : write [] = [])
    (happend : ∀ x y, write (x ++ y) = write x ++ write y)
    (hcall : ∀ t s c, inv c → R t s →
      ∃ t', f t c = some (t', write (M.run s (view c)).2) ∧ R t' (M.run s (view c)).1)
    {t : τ} {s : σ} (h : R t s) (cs : List γ) (hcs : ∀ c ∈ cs, inv c) :
    ∃ t', calls f t cs = some (t', write (M.run s (cs.flatMap view)).2) ∧
      R t' (M.run s (cs.flatMap view)).1 := by
  induction cs generalizing t s with
  | nil => exact ⟨t, congrArg (fun out => some (t, out)) hnil.symm, h⟩
  | cons c cs ih =>
    obtain ⟨t₁, hfirst, h₁⟩ := hcall t s c (hcs c List.mem_cons_self) h
    obtain ⟨t₂, hrest, h₂⟩ := ih h₁ fun c hc => hcs c (List.mem_cons_of_mem _ hc)
    refine ⟨t₂, ?_, ?_⟩
    · rw [calls, hfirst, List.flatMap_cons, run_append, happend]
      exact congrArg (Option.bind · _) hrest
    · rw [List.flatMap_cons, run_append]
      exact h₂

/-- From related states the second machine writes what the first has read. -/
structure Undoes (D : StreamMachine ρ β α) (R : σ → ρ → Prop) : Prop where
  read : ∀ s r a, R s r → (D.step r (M.step s a).2).2 = a
  related : ∀ s r a, R s r → R (M.step s a).1 (D.step r (M.step s a).2).1

variable {M}

/-- What undoes each step undoes a whole stream and ends in a related state. -/
theorem Undoes.run {D : StreamMachine ρ β α} {R : σ → ρ → Prop} (h : M.Undoes D R) {s : σ} {r : ρ}
    (hR : R s r) (stream : List α) :
    (D.run r (M.run s stream).2).2 = stream ∧
      R (M.run s stream).1 (D.run r (M.run s stream).2).1 := by
  induction stream generalizing s r with
  | nil => exact ⟨rfl, hR⟩
  | cons a stream ih =>
    obtain ⟨hread, hrelated⟩ := ih (h.related s r a hR)
    simp only [run_cons, h.read s r a hR]
    exact ⟨congrArg _ hread, hrelated⟩

end StreamMachine
