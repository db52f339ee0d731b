import Mathlib.Data.Nat.Notation
import Mathlib.Tactic.Common

/-!
# Loops

A loop makes turns as long as its condition holds. A turn may fail, by an access outside of a
vector for example; a loop that fails and one that makes more turns than it is given have no
final state. With an invariant and a measure that every turn decreases the loop ends.
-/

namespace WhileLoop

variable {σ : Type*}

/-- The state in which the loop ends within a number of tests of its condition. -/
def run (condition : σ → Bool) (turn : σ → Option σ) : ℕ → σ → Option σ
  | 0, _ => none
  | tests + 1, s => if condition s then (turn s).bind (run condition turn tests) else some s

variable {condition : σ → Bool} {turn : σ → Option σ} {tests : ℕ} {s s' : σ}

/-- A loop whose condition fails is over. -/
theorem run_of_false (h : condition s = false) : run condition turn (tests + 1) s = some s := by
  rw [run, h]
  rfl

/-- A loop whose condition holds goes on from the state after one turn. -/
theorem run_of_true (h : condition s = true) (hturn : turn s = some s') :
    run condition turn (tests + 1) s = run condition turn tests s' := by
  rw [run, if_pos h, hturn]
  rfl

/-- More tests do not change where a loop ends. -/
theorem run_mono {more : ℕ} (hmore : tests ≤ more) (h : run condition turn tests s = some s') :
    run condition turn more s = some s' := by
  induction tests generalizing s more with
  | zero => cases h
  | succ tests ih =>
    obtain ⟨more, rfl⟩ : ∃ rest, more = rest + 1 := ⟨more - 1, by omega⟩
    by_cases hcondition : condition s
    · rw [run, if_pos hcondition] at h ⊢
      obtain ⟨t, hturn, hrest⟩ := Option.bind_eq_some_iff.mp h
      rw [hturn]
      exact ih (by omega) hrest
    · rw [run, if_neg hcondition] at h ⊢
      exact h

/-- A loop whose turns keep an invariant and decrease a measure ends, in a state with the
invariant. -/
theorem exists_run {inv : σ → Prop} {measure : σ → ℕ}
    (hturn : ∀ s, inv s → condition s = true →
      ∃ s', turn s = some s' ∧ inv s' ∧ measure s' < measure s)
    (hs : inv s) (htests : measure s < tests) :
    ∃ s', run condition turn tests s = some s' ∧ inv s' ∧ condition s' = false := by
  induction tests generalizing s with
  | zero => omega
  | succ tests ih =>
    cases hcondition : condition s with
    | false => exact ⟨s, run_of_false hcondition, hs, hcondition⟩
    | true =>
      obtain ⟨t, ht, hinv, hmeasure⟩ := hturn s hs hcondition
      obtain ⟨s', hrun, hend⟩ := ih hinv (by omega)
      exact ⟨s', (run_of_true hcondition ht).trans hrun, hend⟩

end WhileLoop
