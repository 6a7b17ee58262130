/-!
# Regular expressions as trees

The tree of a pattern as it is written.  What a part of it matches still depends on the modes
that hold there, so a class such as `\d` has no members yet.

Those parts that may turn out to have no meaning know their place in the pattern, a `Span`.
-/

namespace MidiScore.Regex

/-- A stretch of a pattern, from the number of its first character up to the number of the one
after its last. -/
structure Span where
  first : Nat
  past : Nat
  deriving DecidableEq, Repr

/-- A single character.  One that is written by two hexadecimal digits may stand for a byte. -/
structure Literal where
  span : Span
  char : Char
  byte : Bool := false
  deriving DecidableEq, Repr

/-- A class of characters that has a name. -/
inductive ClassName where
  | alnum | alpha | ascii | blank | cntrl | digit | graph | lower | print | punct | space
  | upper | word | xdigit
  deriving DecidableEq, Repr

/-- How two classes are put together. -/
inductive ClassOperation where
  | intersection
  | difference
  | symmetricDifference
  deriving DecidableEq, Repr

/-- What stands between brackets, or a class that needs none. -/
inductive ClassTree where
  /-- Nothing. -/
  | empty
  /-- One character. -/
  | char (literal : Literal)
  /-- The characters from one to another. -/
  | range (first last : Literal)
  /-- A letter after a backslash, such as `\d`. -/
  | shorthand (span : Span) (name : ClassName) (negated : Bool)
  /-- A name in colons, such as `[:digit:]`. -/
  | named (span : Span) (name : ClassName) (negated : Bool)
  /-- A property, such as `\pL`.  `category` is set if only a general category can be meant. -/
  | property (span : Span) (category : Bool)
  /-- Brackets. -/
  | brackets (span : Span) (negated : Bool) (items : ClassTree)
  /-- Two items side by side. -/
  | join (left right : ClassTree)
  /-- Two sides of an operator. -/
  | combine (operation : ClassOperation) (left right : ClassTree)
  deriving DecidableEq, Repr

/-- A condition on a place in the text. -/
inductive Anchor where
  | lineStart
  | lineEnd
  | textStart
  | textEnd
  | wordBoundary
  | noWordBoundary
  | wordStart
  | wordEnd
  | wordStartHalf
  | wordEndHalf
  deriving DecidableEq, Repr

/-- A mode that can be switched within a pattern. -/
inductive Mode where
  /-- Letters match in either case. -/
  | ignoreCase
  /-- `^` and `$` match at lines. -/
  | multiLine
  /-- The dot matches line breaks. -/
  | dotAll
  /-- Repetitions match as little as they can. -/
  | lazy
  /-- Classes are made of characters and not of bytes. -/
  | unicode
  /-- A carriage return is part of a line break. -/
  | crlf
  /-- Blanks in the pattern do not count. -/
  | free
  deriving DecidableEq, Repr

/-- Modes that are switched on or off. -/
abbrev Switches := List (Mode × Bool)

/-- Whether a mode is switched, and how. -/
def Switches.get? (switches : Switches) (mode : Mode) : Option Bool :=
  (switches.find? fun (m, _) => m = mode).map Prod.snd

/-- A pattern. -/
inductive Tree where
  /-- Nothing. -/
  | empty
  /-- One character. -/
  | char (literal : Literal)
  /-- The dot. -/
  | dot (span : Span)
  /-- A character of a class. -/
  | ofClass (tree : ClassTree)
  /-- A condition on the place. -/
  | anchor (anchor : Anchor)
  /-- Modes for what follows in the group. -/
  | modes (switches : Switches)
  /-- A group, with modes of its own. -/
  | group (switches : Switches) (body : Tree)
  /-- One after the other. -/
  | seq (first second : Tree)
  /-- One or the other. -/
  | alt (left right : Tree)
  /-- A number of times. -/
  | times (body : Tree) (least : Nat) (most : Option Nat)
  deriving DecidableEq, Repr

end MidiScore.Regex
