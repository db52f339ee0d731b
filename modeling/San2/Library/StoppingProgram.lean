import Mathlib.Data.List.Basic

/-!
# Programs that keep their state when they stop

A program changes a state and either returns or stops for a reason; the state it has
reached is kept in both cases. The rules below say of which parts an invariant has to be
shown.
-/

namespace StoppingProgram

/-- A program over states in `σ` that may stop for a reason in `ε`. -/
abbrev Program (ε σ α : Type) := ExceptT ε (StateM σ) α

variable {ε σ α β : Type}

/-- The state that the program leaves, whether it returns or stops. -/
def after (program : Program ε σ α) (s : σ) : σ := (program.run s).2

/-- The value that the program returns from a state, or the reason for which it stops. -/
def outcome (program : Program ε σ α) (s : σ) : Except ε α := (program.run s).1

/-- The program returns a value or stops, and leaves a state. -/
def Ends (program : Program ε σ α) (s : σ) (result : Except ε α) (s' : σ) : Prop :=
  outcome program s = result ∧ after program s = s'

/-- A value is returned and the state stays. -/
theorem ends_pure (a : α) (s : σ) : Ends (pure a : Program ε σ α) s (.ok a) s := ⟨rfl, rfl⟩

/-- To throw stops the program and the state stays. -/
theorem ends_throw (reason : ε) (s : σ) :
    Ends (throw reason : Program ε σ α) s (.error reason) s := ⟨rfl, rfl⟩

/-- What comes next goes on from the value and the state. -/
theorem Ends.bind_ok {program : Program ε σ α} {next : α → Program ε σ β} {s s' s'' : σ} {a : α}
    {result : Except ε β} (h : Ends program s (.ok a) s') (hnext : Ends (next a) s' result s'') :
    Ends (program >>= next) s result s'' := by
  obtain ⟨hvalue, hstate⟩ := h
  unfold Ends outcome after at *
  simp only [ExceptT.run, bind, ExceptT.bind, ExceptT.mk, StateT.bind, ExceptT.bindCont] at *
  cases hrun : program s with
  | mk first state =>
    rw [hrun] at hvalue hstate
    obtain rfl : first = .ok a := hvalue
    obtain rfl : state = s' := hstate
    exact hnext

/-- What stops is not gone on with. -/
theorem Ends.bind_error {program : Program ε σ α} (next : α → Program ε σ β) {s s' : σ} {reason : ε}
    (h : Ends program s (.error reason) s') :
    Ends (program >>= next) s (.error reason) s' := by
  obtain ⟨hvalue, hstate⟩ := h
  unfold Ends outcome after at *
  simp only [ExceptT.run, bind, ExceptT.bind, ExceptT.mk, StateT.bind, ExceptT.bindCont] at *
  cases hrun : program s with
  | mk first state =>
    rw [hrun] at hvalue hstate
    obtain rfl : first = .error reason := hvalue
    obtain rfl : state = s' := hstate
    exact ⟨rfl, rfl⟩

/-- A program that looks at the state first. -/
theorem ends_get_bind {next : σ → Program ε σ β} {s s' : σ} {result : Except ε β}
    (h : Ends (next s) s result s') : Ends (get >>= next) s result s' := h

/-- A program that sets the state first. -/
theorem ends_set_bind {next : PUnit → Program ε σ β} {s t s' : σ} {result : Except ε β}
    (h : Ends (next ⟨⟩) t result s') : Ends (set t >>= next) s result s' := h

/-- A program that changes the state first. -/
theorem ends_modify_bind {f : σ → σ} {next : PUnit → Program ε σ β} {s s' : σ}
    {result : Except ε β} (h : Ends (next ⟨⟩) (f s) result s') :
    Ends (modify f >>= next) s result s' := h

/-- The program returns from every state. -/
def Returns (program : Program ε σ α) : Prop := ∀ s, ∃ a s', Ends program s (.ok a) s'

/-- A program that only returns a value. -/
theorem returns_pure (a : α) : Returns (pure a : Program ε σ α) := fun s => ⟨a, s, ends_pure a s⟩

/-- A program that only reads the state. -/
theorem returns_get : Returns (get : Program ε σ σ) := fun s => ⟨s, s, rfl, rfl⟩

/-- A program that only changes the state. -/
theorem returns_modify (f : σ → σ) : Returns (modify f : Program ε σ PUnit) :=
  fun s => ⟨⟨⟩, f s, rfl, rfl⟩

/-- A program that returns, and then one that returns for every value. -/
theorem returns_bind {program : Program ε σ α} {next : α → Program ε σ β}
    (hprogram : Returns program) (hnext : ∀ a, Returns (next a)) : Returns (program >>= next) := by
  intro s
  obtain ⟨a, s', hfirst⟩ := hprogram s
  obtain ⟨b, s'', hsecond⟩ := hnext a s'
  exact ⟨b, s'', hfirst.bind_ok hsecond⟩

/-- Both branches return, so the choice between them does. -/
theorem returns_ite {condition : Prop} [Decidable condition] {first second : Program ε σ α}
    (hfirst : Returns first) (hsecond : Returns second) :
    Returns (if condition then first else second) := by
  split
  · exact hfirst
  · exact hsecond

/-- Run from a state with the invariant, the program leaves one with the invariant. -/
def KeepsFrom (inv : σ → Prop) (s : σ) (program : Program ε σ α) : Prop :=
  inv s → inv (after program s)

/-- The program keeps the invariant from every state. -/
def Keeps (inv : σ → Prop) (program : Program ε σ α) : Prop :=
  ∀ s, KeepsFrom inv s program

variable {inv : σ → Prop}

/-- To return a value keeps the invariant of this state. -/
theorem keepsFrom_pure (s : σ) (a : α) : KeepsFrom inv s (pure a : Program ε σ α) := id

/-- To return a value keeps every invariant. -/
theorem keeps_pure (a : α) : Keeps inv (pure a : Program ε σ α) := fun _ => id

/-- To stop keeps every invariant. -/
theorem keeps_throw (reason : ε) : Keeps inv (throw reason : Program ε σ α) := fun _ => id

/-- A program that keeps the invariant, and then one that keeps it for every value. -/
theorem keeps_bind {program : Program ε σ α} {next : α → Program ε σ β}
    (hprogram : Keeps inv program) (hnext : ∀ a, Keeps inv (next a)) :
    Keeps inv (program >>= next) := by
  intro s hs
  have hfirst := hprogram s hs
  simp only [after, ExceptT.run] at hfirst
  simp only [after, ExceptT.run, bind, ExceptT.bind, ExceptT.mk, StateT.bind, ExceptT.bindCont]
  cases hrun : program s with
  | mk outcome s' =>
    rw [hrun] at hfirst
    cases outcome with
    | ok a => exact hnext a s' hfirst
    | error reason => exact hfirst

/-- A program that looks at the state first. -/
theorem keeps_get_bind {next : σ → Program ε σ β}
    (hnext : ∀ s, KeepsFrom inv s (next s)) : Keeps inv (get >>= next) :=
  fun s => hnext s

/-- Both branches keep the invariant, so the choice between them does. -/
theorem keeps_ite {condition : Prop} [Decidable condition] {first second : Program ε σ α}
    (hfirst : Keeps inv first) (hsecond : Keeps inv second) :
    Keeps inv (if condition then first else second) := by
  split
  · exact hfirst
  · exact hsecond

/-- Perform programs one after the other until one of them stops. -/
def runAll : List (Program ε σ α) → Program ε σ Unit
  | [] => pure ()
  | program :: programs => program >>= fun _ => runAll programs

/-- What every program keeps, a run of them keeps. -/
theorem keeps_runAll {programs : List (Program ε σ α)}
    (h : ∀ program ∈ programs, Keeps inv program) : Keeps inv (runAll programs) := by
  induction programs with
  | nil => exact keeps_pure ()
  | cons program programs ih =>
    refine keeps_bind (h program List.mem_cons_self) fun _ => ih fun next hnext => ?_
    exact h next (List.mem_cons_of_mem program hnext)

section

variable {τ : Type} {r : σ → τ → Prop}

/-- Run from the two states, the programs return the same or stop for the same reason, and leave
related states. -/
def AgreeFrom (r : σ → τ → Prop) (s : σ) (t : τ) (program : Program ε σ α)
    (program' : Program ε τ α) : Prop :=
  outcome program s = outcome program' t ∧ r (after program s) (after program' t)

/-- The programs do the same from all related states. -/
def Agree (r : σ → τ → Prop) (program : Program ε σ α) (program' : Program ε τ α) : Prop :=
  ∀ s t, r s t → AgreeFrom r s t program program'

/-- From related states both return the value. -/
theorem agreeFrom_pure {s : σ} {t : τ} (h : r s t) (a : α) :
    AgreeFrom r s t (pure a : Program ε σ α) (pure a) := ⟨rfl, h⟩

/-- From related states both stop. -/
theorem agreeFrom_throw {s : σ} {t : τ} (h : r s t) (reason : ε) :
    AgreeFrom r s t (throw reason : Program ε σ α) (throw reason) := ⟨rfl, h⟩

/-- Two programs that return the same value do the same. -/
theorem agree_pure (a : α) : Agree r (pure a : Program ε σ α) (pure a) :=
  fun _ _ h => agreeFrom_pure h a

/-- Two programs that stop for the same reason do the same. -/
theorem agree_throw (reason : ε) : Agree r (throw reason : Program ε σ α) (throw reason) :=
  fun _ _ h => agreeFrom_throw h reason

/-- Programs that do the same, and then programs that do the same for every value. -/
theorem agree_bind {program : Program ε σ α} {program' : Program ε τ α}
    {next : α → Program ε σ β} {next' : α → Program ε τ β} (hprogram : Agree r program program')
    (hnext : ∀ a, Agree r (next a) (next' a)) :
    Agree r (program >>= next) (program' >>= next') := by
  intro s t h
  obtain ⟨houtcome, hafter⟩ := hprogram s t h
  unfold AgreeFrom outcome after at *
  simp only [ExceptT.run, bind, ExceptT.bind, ExceptT.mk, StateT.bind, ExceptT.bindCont] at *
  cases hrun : program s with
  | mk first s' =>
    cases hrun' : program' t with
    | mk first' t' =>
      rw [hrun, hrun'] at houtcome hafter
      obtain rfl : first = first' := houtcome
      cases first with
      | ok a => exact hnext a s' t' hafter
      | error reason => exact ⟨rfl, hafter⟩

/-- Programs that look at their states first. -/
theorem agree_get_bind {next : σ → Program ε σ β} {next' : τ → Program ε τ β}
    (hnext : ∀ s t, r s t → AgreeFrom r s t (next s) (next' t)) :
    Agree r (get >>= next) (get >>= next') := hnext

/-- Branches that do the same, chosen alike. -/
theorem agree_ite {condition : Prop} [Decidable condition] {first second : Program ε σ α}
    {first' second' : Program ε τ α} (hfirst : Agree r first first')
    (hsecond : Agree r second second') :
    Agree r (if condition then first else second) (if condition then first' else second') := by
  split
  · exact hfirst
  · exact hsecond

end

end StoppingProgram
