import Mathlib.Logic.Function.Basic
import San2.Library.Execution

/-!
# Families of machines

A family has one machine for each key, and every input names the machine that it is for.
A run of the family is a run of each machine on the inputs for it, in their order: no
machine notices the others, and the family comes to a stop exactly where one of them
does.
-/

namespace MachineFamily

variable {κ σ α : Type*} [DecidableEq κ]

/-- The input goes to the machine that it names. -/
def step (member : σ → α → Option σ) (machines : κ → σ) (input : κ × α) : Option (κ → σ) :=
  (member (machines input.1) input.2).map (Function.update machines input.1)

/-- The inputs for a key, in order. -/
def inputsOf (key : κ) (inputs : List (κ × α)) : List α :=
  inputs.filterMap fun input => if input.1 = key then some input.2 else none

/-- The first input counts for its own key. -/
theorem inputsOf_cons (key : κ) (input : κ × α) (inputs : List (κ × α)) :
    inputsOf key (input :: inputs) =
      if input.1 = key then input.2 :: inputsOf key inputs else inputsOf key inputs := by
  unfold inputsOf
  rw [List.filterMap_cons]
  split_ifs <;> rfl

variable {member : σ → α → Option σ}

/-- Every machine of a family goes its own way. -/
theorem run_member {machines machines' : κ → σ} {inputs : List (κ × α)}
    (hrun : Execution.run (step member) machines inputs = some machines') (key : κ) :
    Execution.run member (machines key) (inputsOf key inputs) = some (machines' key) := by
  induction inputs generalizing machines with
  | nil =>
    obtain rfl := Option.some.inj hrun
    rfl
  | cons input inputs ih =>
    obtain ⟨machines₁, hstep, hrest⟩ := (Execution.run_cons_eq_some _).mp hrun
    obtain ⟨s, hmember, rfl⟩ := Option.map_eq_some_iff.mp hstep
    have hlater := ih hrest
    rw [inputsOf_cons]
    split_ifs with hkey
    · subst hkey
      rw [Function.update_self] at hlater
      exact (Execution.run_cons_eq_some _).mpr ⟨s, hmember, hlater⟩
    · rwa [Function.update_of_ne (Ne.symm hkey)] at hlater

/-- Machines that can take their own inputs can take them together. -/
theorem exists_run_of_members {machines : κ → σ} {inputs : List (κ × α)}
    (hall : ∀ key, ∃ s, Execution.run member (machines key) (inputsOf key inputs) = some s) :
    ∃ machines', Execution.run (step member) machines inputs = some machines' := by
  induction inputs generalizing machines with
  | nil => exact ⟨machines, rfl⟩
  | cons input inputs ih =>
    obtain ⟨s, hrun⟩ := hall input.1
    rw [inputsOf_cons, if_pos rfl] at hrun
    obtain ⟨s₁, hmember, hrest⟩ := (Execution.run_cons_eq_some _).mp hrun
    have hlater : ∀ key, ∃ s', Execution.run member
        (Function.update machines input.1 s₁ key) (inputsOf key inputs) = some s' := by
      intro key
      by_cases hkey : key = input.1
      · subst hkey
        rw [Function.update_self]
        exact ⟨s, hrest⟩
      · obtain ⟨s', hother⟩ := hall key
        rw [inputsOf_cons, if_neg (Ne.symm hkey)] at hother
        rw [Function.update_of_ne hkey]
        exact ⟨s', hother⟩
    obtain ⟨machines', hfamily⟩ := ih hlater
    refine ⟨machines', (Execution.run_cons_eq_some _).mpr ⟨_, ?_, hfamily⟩⟩
    unfold step
    rw [hmember, Option.map_some]

/-- The runs of a family are the runs of its machines. -/
theorem run_eq_some_iff {machines machines' : κ → σ} {inputs : List (κ × α)} :
    Execution.run (step member) machines inputs = some machines' ↔
      ∀ key, Execution.run member (machines key) (inputsOf key inputs) = some (machines' key) := by
  refine ⟨run_member, fun hall => ?_⟩
  obtain ⟨found, hrun⟩ := exists_run_of_members fun key => ⟨machines' key, hall key⟩
  have hsame : found = machines' := by
    funext key
    exact Option.some.inj ((run_member hrun key).symm.trans (hall key))
  rw [hrun, hsame]

end MachineFamily
