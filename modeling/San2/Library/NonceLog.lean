import Mathlib.Order.Defs.PartialOrder
import Mathlib.Data.List.Basic

/-!
# Logs of nonces

A party that encrypts keeps, for the argument, a log of its calls: the nonce and
the message. The log is fresh when no nonce stands with two messages. A party whose
nonces ascend keeps a fresh log.
-/

namespace NonceLog

variable {N M : Type*}

/-- No nonce has been used for two messages. -/
def Fresh (log : List (N × M)) : Prop :=
  ∀ n m m', (n, m) ∈ log → (n, m') ∈ log → m = m'

/-- An empty log repeats nothing. -/
@[simp] theorem fresh_nil : Fresh ([] : List (N × M)) := by
  intro n m m' hm
  cases hm

/-- A log of one entry repeats nothing. -/
@[simp] theorem fresh_singleton (n : N) (m : M) : Fresh [(n, m)] := by
  intro n' m₁ m₂ h₁ h₂
  obtain ⟨-, rfl⟩ := Prod.mk.inj (List.mem_singleton.mp h₁)
  obtain ⟨-, rfl⟩ := Prod.mk.inj (List.mem_singleton.mp h₂)
  rfl

/-- What only repeats calls of a fresh log is fresh. -/
theorem Fresh.mono {log log' : List (N × M)} (h : Fresh log') (hsubset : log ⊆ log') :
    Fresh log :=
  fun n m m' hm hm' => h n m m' (hsubset hm) (hsubset hm')

/-- Two logs with different nonces are fresh together. -/
theorem Fresh.append {log log' : List (N × M)} (h : Fresh log) (h' : Fresh log')
    (hne : ∀ e ∈ log, ∀ e' ∈ log', e.1 ≠ e'.1) : Fresh (log ++ log') := by
  intro n m m' hm hm'
  rw [List.mem_append] at hm hm'
  obtain hm | hm := hm
  · obtain hm' | hm' := hm'
    · exact h n m m' hm hm'
    · exact absurd rfl (hne (n, m) hm (n, m') hm')
  · obtain hm' | hm' := hm'
    · exact absurd rfl (hne (n, m') hm' (n, m) hm)
    · exact h' n m m' hm hm'

/-- A nonce with two messages spoils a log. -/
theorem not_fresh {log : List (N × M)} {n : N} {m m' : M} (hm : (n, m) ∈ log)
    (hm' : (n, m') ∈ log) (hne : m ≠ m') : ¬ Fresh log :=
  fun h => hne (h n m m' hm hm')

section Ascending

variable {K : Type*} [Preorder K] (key : N → K)

/-- The nonces of the log lie below a bound. -/
def Below (bound : K) (log : List (N × M)) : Prop := ∀ e ∈ log, key e.1 < bound

variable {key}

/-- A nonce at the bound keeps the log fresh. -/
theorem Fresh.concat {log : List (N × M)} {n : N} (h : Fresh log)
    (hbelow : Below key (key n) log) (m : M) : Fresh (log ++ [(n, m)]) := by
  refine h.append (fresh_singleton n m) ?_
  rintro ⟨n', m'⟩ hmem e' he' heq
  rw [List.mem_singleton.mp he'] at heq
  have hlt := hbelow _ hmem
  rw [heq] at hlt
  exact lt_irrefl _ hlt

/-- A log below a number stays below any larger bound when this number is added. -/
theorem Below.concat {log : List (N × M)} {n : N} {bound : K} (h : Below key (key n) log)
    (hlt : key n < bound) (m : M) : Below key bound (log ++ [(n, m)]) := by
  intro e he
  obtain he | he := List.mem_append.mp he
  · exact lt_trans (h e he) hlt
  · rw [List.mem_singleton.mp he]
    exact hlt

variable (key) in
/-- A log above a nonce is fresh behind a call with that nonce. -/
theorem Fresh.cons {log : List (N × M)} {n : N} (h : Fresh log)
    (habove : ∀ e ∈ log, key n < key e.1) (m : M) : Fresh ((n, m) :: log) := by
  refine (fresh_singleton n m).append h ?_
  rintro e he ⟨n', m'⟩ hmem heq
  rw [List.mem_singleton.mp he] at heq
  have hlt := habove _ hmem
  rw [← heq] at hlt
  exact lt_irrefl _ hlt

end Ascending

end NonceLog
