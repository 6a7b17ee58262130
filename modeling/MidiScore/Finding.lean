import MidiScore.Cue.Basic

/-!
# Findings

Exact times become whole ticks by rounding down.  A finding is recorded when that leaves out
more than half a tick, and when a note of positive length falls within one tick.  Findings do
not stop anything.
-/

namespace MidiScore

/-- What was rounded. -/
inductive Quantity where
  | tick
  | wait
  | duration
  | delta
  deriving DecidableEq, Repr

/-- The name of a quantity. -/
def Quantity.name : Quantity → String
  | .tick => "tick"
  | .wait => "wait"
  | .duration => "duration"
  | .delta => "delta"

/-- Something worth saying about an emitted event. -/
inductive Finding where
  /-- Rounding left out more than half a tick. -/
  | rounding (origin : Origin) (quantity : Quantity) (exact : Ticks) (emitted : Int)
  /-- A note of positive length takes no whole tick. -/
  | collapsed (origin : Origin) (exact : Ticks)
  deriving DecidableEq

namespace Finding

/-- What is said about the finding. -/
def message : Finding → String
  | .rounding origin quantity exact emitted =>
    s!"{quantity.name} of {origin.text} rounded from {exact.fixedText} to {emitted} ticks"
  | .collapsed origin exact =>
    s!"{origin.text} lasts {exact.fixedText} ticks and collapses to zero length"

end Finding

/-! ## Rounding -/

/-- A value with the findings that came up on the way to it. -/
structure Rounded (α : Type) where
  value : α
  findings : List Finding
  deriving DecidableEq

/-- Rounds down to whole ticks. -/
def Ticks.round (time : Ticks) (quantity : Quantity) (origin : Origin) : Rounded Int where
  value := time.whole
  findings :=
    if Ticks.scale < time.remainder * 2 then [.rounding origin quantity time time.whole] else []

/-- Rounds down to whole ticks in the range of an event's fields. -/
def Ticks.roundClamped (time : Ticks) (quantity : Quantity) (origin : Origin) :
    Rounded Nat where
  value := time.wholeClamped
  findings := (time.round quantity origin).findings

end MidiScore
