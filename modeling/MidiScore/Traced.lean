import MidiScore.Ticks

/-!
# Recorded arithmetic

A sum or a difference of times stops at the end of its range and does not say so.  What adds or
subtracts times is therefore written as a `Traced` computation, a value with the list of all
operations that were performed on the way to it.

The function that gives only the value is the value of the traced one.  So what is said about the
listed operations is said about the program itself.
-/

namespace MidiScore

/-- A sum or a difference of two times. -/
inductive Operation where
  | sum (a b : Ticks)
  | difference (a b : Ticks)
  deriving DecidableEq

/-- The time that comes out. -/
def Operation.result : Operation → Ticks
  | .sum a b => a + b
  | .difference a b => a - b

/-- A value with the operations on times that were performed on the way to it, in order. -/
structure Traced (α : Type) where
  value : α
  operations : List Operation

namespace Traced

variable {α β : Type}

-- `map` keeps the list as it is, so that a long run does not copy it at every step.
instance : Monad Traced where
  pure value := ⟨value, []⟩
  map change step := ⟨change step.value, step.operations⟩
  bind step next :=
    let after := next step.value
    ⟨after.value, step.operations ++ after.operations⟩

/-- Performs one operation. -/
def perform (operation : Operation) : Traced Ticks := ⟨operation.result, [operation]⟩

@[simp] theorem pure_value (value : α) : (pure value : Traced α).value = value := rfl

@[simp] theorem bind_value (step : Traced α) (next : α → Traced β) :
    (step >>= next).value = (next step.value).value := rfl

@[simp] theorem map_value (change : α → β) (step : Traced α) :
    (change <$> step).value = change step.value := rfl

@[simp] theorem perform_value (operation : Operation) :
    (perform operation).value = operation.result := rfl

/-- A conditional computation has the value of the branch that is taken. -/
theorem ite_value {condition : Prop} [Decidable condition] (yes no : Traced α) :
    (if condition then yes else no).value = if condition then yes.value else no.value :=
  apply_ite Traced.value condition yes no

end Traced

namespace Ticks

/-- Adds times to a total, from the left. -/
def sumFrom : Ticks → List Ticks → Traced Ticks
  | total, [] => return total
  | total, time :: times => do
    let next ← .perform (.sum total time)
    sumFrom next times

/-- The sum of a list of times, with the sums on the way to it. -/
def sumTraced (times : List Ticks) : Traced Ticks := sumFrom 0 times

end Ticks

end MidiScore
