import Mathlib.Data.List.Basic

/-!
# Runs of a step function

A system is given by a step function that performs an action or refuses it. A
run performs a list of actions. The rules below lift what is known of one step
to whole runs: invariants, invariants that need something of each action, when a run is
possible at all, what a state says about the actions before it, logs that grow by a
fixed contribution of each action, and simulations of one system by another.
-/

namespace Execution

variable {σ α : Type*} (step : σ → α → Option σ)

/-- Perform the actions in order; a refused action leaves no run. -/
def run : σ → List α → Option σ
  | s, [] => some s
  | s, a :: actions => (step s a).bind fun s' => run s' actions

/-- Without actions nothing changes. -/
@[simp] theorem run_nil (s : σ) : run step s [] = some s := rfl

/-- A run that begins with an action performs it first. -/
theorem run_cons_eq_some {s s' : σ} {a : α} {actions : List α} :
    run step s (a :: actions) = some s' ↔
      ∃ s₁, step s a = some s₁ ∧ run step s₁ actions = some s' :=
  Option.bind_eq_some_iff

/-- Runs compose. -/
theorem run_append (s : σ) (first second : List α) :
    run step s (first ++ second) = (run step s first).bind fun s' => run step s' second := by
  induction first generalizing s with
  | nil => rfl
  | cons a first ih =>
    simp only [List.cons_append, run, Option.bind_assoc]
    exact congrArg _ (funext ih)

/-- A run of two lists of actions goes through the state between them. -/
theorem run_append_eq_some {s s' : σ} {first second : List α} :
    run step s (first ++ second) = some s' ↔
      ∃ s₁, run step s first = some s₁ ∧ run step s₁ second = some s' := by
  rw [run_append, Option.bind_eq_some_iff]

variable {step}

/-- Every step of the run meets a condition on the state before it and the action. -/
def Meets (step : σ → α → Option σ) (guard : σ → α → Prop) : σ → List α → Prop
  | _, [] => True
  | s, a :: actions => guard s a ∧ ∀ s', step s a = some s' → Meets step guard s' actions

/-- A single step is a run. -/
theorem run_single {s s' : σ} {a : α} (h : step s a = some s') : run step s [a] = some s' := by
  rw [run, h]
  rfl

/-- A run of one action meets a condition that holds before it. -/
theorem meets_single {guard : σ → α → Prop} {s : σ} {a : α} (h : guard s a) :
    Meets step guard s [a] :=
  ⟨h, fun _ _ => trivial⟩

/-- A condition on actions alone is met by the runs of admissible actions. -/
theorem meets_of_forall {admissible : α → Prop} {actions : List α}
    (h : ∀ a ∈ actions, admissible a) (s : σ) : Meets step (fun _ a => admissible a) s actions := by
  induction actions generalizing s with
  | nil => trivial
  | cons a actions ih =>
    refine ⟨h a List.mem_cons_self, fun s' _ => ih (fun b hb => ?_) s'⟩
    exact h b (List.mem_cons_of_mem a hb)

/-- The condition is met along two runs, one after the other. -/
theorem meets_append {guard : σ → α → Prop} {s s' : σ} {first second : List α}
    (hfirst : Meets step guard s first) (hrun : run step s first = some s')
    (hsecond : Meets step guard s' second) : Meets step guard s (first ++ second) := by
  induction first generalizing s with
  | nil =>
    obtain rfl := Option.some.inj hrun
    exact hsecond
  | cons a first ih =>
    obtain ⟨s₁, hstep, hrest⟩ := (run_cons_eq_some step).mp hrun
    refine ⟨hfirst.1, fun s₂ hstep₂ => ?_⟩
    obtain rfl := Option.some.inj (hstep.symm.trans hstep₂)
    exact ih (hfirst.2 s₁ hstep) hrest

/-- What every step that meets the condition preserves, every run whose steps all
meet it preserves. -/
theorem run_invariant_of_meets {inv : σ → Prop} {guard : σ → α → Prop}
    (hstep : ∀ {s a s'}, inv s → guard s a → step s a = some s' → inv s')
    {s s' : σ} {actions : List α} (hmeets : Meets step guard s actions) (h : inv s)
    (hrun : run step s actions = some s') : inv s' := by
  induction actions generalizing s with
  | nil =>
    obtain rfl := Option.some.inj hrun
    exact h
  | cons a actions ih =>
    obtain ⟨s₁, hfirst, hrest⟩ := (run_cons_eq_some step).mp hrun
    exact ih (hmeets.2 s₁ hfirst) (hstep h hmeets.1 hfirst) hrest

/-- What every step with an admissible action preserves, every run of admissible
actions preserves. -/
theorem run_invariant {inv : σ → Prop} {admissible : α → Prop}
    (hstep : ∀ {s a s'}, inv s → admissible a → step s a = some s' → inv s')
    {s s' : σ} {actions : List α} (hactions : ∀ a ∈ actions, admissible a) (h : inv s)
    (hrun : run step s actions = some s') : inv s' :=
  run_invariant_of_meets hstep (meets_of_forall hactions s) h hrun

/-- What every step preserves, every run preserves. -/
theorem run_preserves (inv : σ → Prop)
    (hstep : ∀ {s a s'}, inv s → step s a = some s' → inv s')
    {s s' : σ} {actions : List α} (h : inv s) (hrun : run step s actions = some s') : inv s' := by
  induction actions generalizing s with
  | nil =>
    obtain rfl := Option.some.inj hrun
    exact h
  | cons a actions ih =>
    obtain ⟨s₁, hfirst, hrest⟩ := (run_cons_eq_some step).mp hrun
    exact ih (hstep h hfirst) hrest

/-- What is known of a state from the actions that led to it. -/
theorem run_history {inv : List α → σ → Prop}
    (hstep : ∀ {past s a s'}, inv past s → step s a = some s' → inv (past ++ [a]) s')
    {past : List α} {s s' : σ} {actions : List α} (h : inv past s)
    (hrun : run step s actions = some s') : inv (past ++ actions) s' := by
  induction actions generalizing past s with
  | nil =>
    obtain rfl := Option.some.inj hrun
    rwa [List.append_nil]
  | cons a actions ih =>
    obtain ⟨s₁, hfirst, hrest⟩ := (run_cons_eq_some step).mp hrun
    have hlast := ih (hstep h hfirst) hrest
    rwa [List.append_assoc] at hlast

/-- A log to which every step with an admissible action adds the contribution of
its action holds, after a run, the contributions of all actions in order. -/
theorem run_log {β : Type*} (log : σ → List β) (contribution : α → List β)
    {inv : σ → Prop} {admissible : α → Prop}
    (hstep : ∀ {s a s'}, inv s → admissible a → step s a = some s' →
      inv s' ∧ log s' = log s ++ contribution a)
    {s s' : σ} {actions : List α} (hactions : ∀ a ∈ actions, admissible a) (h : inv s)
    (hrun : run step s actions = some s') :
    log s' = log s ++ actions.flatMap contribution := by
  induction actions generalizing s with
  | nil =>
    obtain rfl := Option.some.inj hrun
    simp
  | cons a actions ih =>
    obtain ⟨s₁, hfirst, hrest⟩ := (run_cons_eq_some step).mp hrun
    obtain ⟨hinv, hlog⟩ := hstep h (hactions a List.mem_cons_self) hfirst
    rw [ih (fun b hb => hactions b (List.mem_cons_of_mem a hb)) hinv hrest, hlog,
      List.flatMap_cons, List.append_assoc]

/-- If every step of one system that meets its condition is matched by a run of a
second system that meets the condition there, so is every run. -/
theorem run_simulation {τ β : Type*} {step' : τ → β → Option τ} {r : σ → τ → Prop}
    {guard : σ → α → Prop} {guard' : τ → β → Prop}
    (hstep : ∀ {s t a s'}, r s t → guard s a → step s a = some s' →
      ∃ actions' t', run step' t actions' = some t' ∧ Meets step' guard' t actions' ∧ r s' t')
    {s s' : σ} {t : τ} {actions : List α} (hmeets : Meets step guard s actions) (h : r s t)
    (hrun : run step s actions = some s') :
    ∃ actions' t', run step' t actions' = some t' ∧ Meets step' guard' t actions' ∧ r s' t' := by
  induction actions generalizing s t with
  | nil =>
    obtain rfl := Option.some.inj hrun
    exact ⟨[], t, rfl, trivial, h⟩
  | cons a actions ih =>
    obtain ⟨s₁, hfirst, hrest⟩ := (run_cons_eq_some step).mp hrun
    obtain ⟨first, t₁, hrun₁, hmeets₁, h₁⟩ := hstep h hmeets.1 hfirst
    obtain ⟨second, t', hrun₂, hmeets₂, h'⟩ := ih (hmeets.2 s₁ hfirst) h₁ hrest
    refine ⟨first ++ second, t', ?_, ?_, h'⟩
    · exact (run_append_eq_some step').mpr ⟨t₁, hrun₁, hrun₂⟩
    · exact meets_append hmeets₁ hrun₁ hmeets₂

/-- If every step of one system is matched by a run of a second system, so is every run. -/
theorem run_refines {τ β : Type*} {step' : τ → β → Option τ} (r : σ → τ → Prop)
    (hstep : ∀ {s t a s'}, r s t → step s a = some s' →
      ∃ actions' t', run step' t actions' = some t' ∧ r s' t')
    {s s' : σ} {t : τ} {actions : List α} (h : r s t) (hrun : run step s actions = some s') :
    ∃ actions' t', run step' t actions' = some t' ∧ r s' t' := by
  induction actions generalizing s t with
  | nil =>
    obtain rfl := Option.some.inj hrun
    exact ⟨[], t, rfl, h⟩
  | cons a actions ih =>
    obtain ⟨s₁, hfirst, hrest⟩ := (run_cons_eq_some step).mp hrun
    obtain ⟨first, t₁, hrun₁, h₁⟩ := hstep h hfirst
    obtain ⟨second, t', hrun₂, h'⟩ := ih h₁ hrest
    exact ⟨first ++ second, t', (run_append_eq_some step').mpr ⟨t₁, hrun₁, hrun₂⟩, h'⟩

end Execution
