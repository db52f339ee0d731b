import Mathlib.Data.List.Induction
import Mathlib.Logic.Function.Basic

/-!
# The last write wins

A store has a value for every key. Commands write one key, put everything back to its
default, or do nothing. Whatever the commands were, a key holds what was last written to it
since the store was last put back, or else its default.
-/

namespace LastWrite

variable {κ : Type*} {V : κ → Type*}

/-- What a command does to the store. -/
inductive Command (V : κ → Type*)
  | write (key : κ) (value : V key)
  | reset
  | keep

variable [DecidableEq κ] (default : ∀ key, V key)

/-- The store after a command. -/
def Command.apply (store : ∀ key, V key) : Command V → ∀ key, V key
  | .write key value => Function.update store key value
  | .reset => default
  | .keep => store

/-- The store after the commands. -/
def run (store : ∀ key, V key) (commands : List (Command V)) : ∀ key, V key :=
  commands.foldl (Command.apply default) store

/-- What was last written to the key, by commands of which the last one comes first. -/
def lastWrite (key : κ) : List (Command V) → Option (V key)
  | [] => none
  | .write key' value :: earlier =>
    if h : key' = key then some (h ▸ value) else lastWrite key earlier
  | .reset :: _ => none
  | .keep :: earlier => lastWrite key earlier

/-- What the key holds after the commands, if the store was at its default before. -/
def held (commands : List (Command V)) (key : κ) : V key :=
  (lastWrite key commands.reverse).getD (default key)

variable {default}

/-- Later commands go on from what the earlier ones have left. -/
theorem run_append (store : ∀ key, V key) (earlier later : List (Command V)) :
    run default store (earlier ++ later) = run default (run default store earlier) later :=
  List.foldl_append

/-- A command does to what is held what it does to the store. -/
theorem held_concat (commands : List (Command V)) (command : Command V) :
    held default (commands ++ [command]) = command.apply default (held default commands) := by
  funext key
  unfold held
  rw [List.reverse_append, List.reverse_singleton, List.singleton_append]
  cases command with
  | write key' value =>
    by_cases h : key' = key
    · subst h
      simp [lastWrite, Command.apply]
    · simp [lastWrite, Command.apply, h, Function.update_of_ne (Ne.symm h)]
  | reset => rfl
  | keep => rfl

/-- The store holds what was last written. -/
theorem run_eq_held (commands : List (Command V)) :
    run default default commands = held default commands := by
  induction commands using List.reverseRecOn with
  | nil => rfl
  | append_singleton commands command ih =>
    rw [run_append, ih, held_concat]
    rfl

end LastWrite
