/-!
# Matching regular expressions

An `Expr` is a regular expression with all modes resolved.  Matching moves whole sets of places
through it: `Expr.ends` takes the places where a match may begin to those where it may end.
A text of `n` characters has `n + 1` places, and a set of places is a list with one truth value
for each of them.

*Repetition.*  Matches only go forward, so after `n + 1` rounds a further round changes nothing,
and that many rounds stand for any larger number.
-/

namespace MidiScore.Regex

/-! ## Places -/

/-- A set of places of a text. -/
abbrev Places := List Bool

namespace Places

/-- All places of a text. -/
def all (text : List Char) : Places := List.replicate (text.length + 1) true

/-- The places in one of two sets. -/
def union (a b : Places) : Places := List.zipWith (· || ·) a b

/-- The places behind a character of a class, from those before it. -/
def advance (p : Nat → Bool) (text : List Char) (places : Places) : Places :=
  false :: List.zipWith (fun on c => on && p c.toNat) places text

/-- The characters before and behind each place of a text. -/
def sides : Option Char → List Char → List (Option Char × Option Char)
  | before, [] => [(before, none)]
  | before, c :: cs => (before, some c) :: sides (some c) cs

/-- The places for which a condition on the characters around them holds. -/
def restrict (holds : Option Char → Option Char → Bool) (text : List Char) (places : Places) :
    Places :=
  List.zipWith (fun on (before, behind) => on && holds before behind) places (sides none text)

/-- The places after a number of rounds. -/
def rounds (round : Places → Places) : Nat → Places → Places
  | 0, places => places
  | count + 1, places =>
    let next := round places
    if next = places then places else rounds round count next

/-- The places after at most a number of rounds. -/
def grow (round : Places → Places) : Nat → Places → Places :=
  rounds fun places => union places (round places)

end Places

/-! ## Expressions -/

/-- A condition on a place, by the characters around it. -/
inductive Condition where
  | textStart
  | textEnd
  /-- Behind a line feed, or at the start. -/
  | lineStart
  /-- Before a line feed, or at the end. -/
  | lineEnd
  /-- Where a line starts if a carriage return also ends one. -/
  | lineStartCrlf
  /-- Where a line ends if a carriage return also ends one. -/
  | lineEndCrlf
  | wordBoundary
  | noWordBoundary
  | wordStart
  | wordEnd
  | wordStartHalf
  | wordEndHalf
  deriving DecidableEq, Repr

namespace Condition

/-- Whether a character belongs to a word. -/
def isWord (c : Option Char) : Bool := c.any fun c => c.isAlphanum || c = '_'

/-- Whether the condition holds between two characters. -/
def holds (condition : Condition) (before behind : Option Char) : Bool :=
  match condition with
  | .textStart => before.isNone
  | .textEnd => behind.isNone
  | .lineStart => before.isNone || before = some '\n'
  | .lineEnd => behind.isNone || behind = some '\n'
  | .lineStartCrlf =>
    before.isNone || before = some '\n' || (before = some '\r' && behind ≠ some '\n')
  | .lineEndCrlf =>
    behind.isNone || behind = some '\r' || (behind = some '\n' && before ≠ some '\r')
  | .wordBoundary => isWord before != isWord behind
  | .noWordBoundary => isWord before == isWord behind
  | .wordStart => !isWord before && isWord behind
  | .wordEnd => isWord before && !isWord behind
  | .wordStartHalf => !isWord before
  | .wordEndHalf => !isWord behind

end Condition

/-- A regular expression. -/
inductive Expr where
  /-- Nothing. -/
  | empty
  /-- One character of a class, given by codes. -/
  | one (p : Nat → Bool)
  /-- A condition on the place. -/
  | check (condition : Condition)
  /-- One after the other. -/
  | seq (first second : Expr)
  /-- One or the other. -/
  | alt (left right : Expr)
  /-- A number of times. -/
  | times (body : Expr) (least : Nat) (most : Option Nat)

namespace Expr

/-- The places where a match that begins at one of the given places may end. -/
def ends (text : List Char) : Expr → Places → Places
  | .empty, places => places
  | .one p, places => places.advance p text
  | .check condition, places => places.restrict condition.holds text
  | .seq first second, places => second.ends text (first.ends text places)
  | .alt left right, places => (left.ends text places).union (right.ends text places)
  | .times body least most, places =>
    let bound := text.length + 1
    let start := Places.rounds (body.ends text) (min least bound) places
    let more := (most.map (min bound <| · - least)).getD bound
    Places.grow (body.ends text) more start

/-- Whether the expression matches somewhere in a text. -/
def isFound (expr : Expr) (text : String) : Bool :=
  (expr.ends text.toList (Places.all text.toList)).any id

/-- The number of characters of the expression with all repetitions written out. -/
def weight : Expr → Nat
  | .empty | .check _ => 0
  | .one _ => 1
  | .seq a b | .alt a b => a.weight + b.weight
  | .times body least most => body.weight * max 1 (most.getD (least + 1))

end Expr

end MidiScore.Regex
