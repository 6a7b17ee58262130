import MidiScore.Regex.Fault
import MidiScore.Text.Blank
import MidiScore.Text.Scan

/-!
# Reading regular expressions

`Tree.read` reads a pattern from left to right and stops at the first fault.

*Cursor.*  Reading goes along with a `Cursor`: the characters that are left, how many are
behind, and what has been declared so far.  In the mode `(?x)` blanks and comments between the
parts of a pattern are skipped.  A group ends that mode if it began in it.

*Recursion.*  A group or a bracket is read by a call for its inside, and each call begins behind
the character that led to it.  So the length of the pattern bounds the depth of the calls and
is the fuel for them.
-/

namespace MidiScore.Regex

/-! ## Cursors -/

/-- A place in a pattern that is being read. -/
structure Cursor where
  rest : List Char
  place : Nat := 0
  /-- Whether blanks and comments are skipped. -/
  free : Bool := false
  /-- The names of groups so far. -/
  names : List (List Char × Span) := []
  deriving Repr

namespace Cursor

/-- The place before the next character. -/
def here (cursor : Cursor) : Span := ⟨cursor.place, cursor.place⟩

/-- The next character. -/
def ahead (cursor : Cursor) : Span := ⟨cursor.place, cursor.place + 1⟩

/-- All from a place up to the cursor. -/
def since (cursor : Cursor) (first : Nat) : Span := ⟨first, cursor.place⟩

/-- The cursor behind the next character. -/
def bump (cursor : Cursor) : Cursor :=
  match cursor.rest with
  | [] => cursor
  | _ :: rest => { cursor with rest, place := cursor.place + 1 }

/-- The number of characters in the blanks and comments at the front of a text. -/
def gap : Bool → List Char → Nat
  | _, [] => 0
  | true, c :: cs => 1 + gap (c ≠ '\n') cs
  | false, c :: cs =>
    if isBlank c then 1 + gap false cs else if c = '#' then 1 + gap true cs else 0

/-- The cursor behind blanks and comments, if they are skipped. -/
def skip (cursor : Cursor) : Cursor :=
  if cursor.free then
    let count := gap false cursor.rest
    { cursor with rest := cursor.rest.drop count, place := cursor.place + count }
  else cursor

/-- The cursor behind the next character and what is skipped after it. -/
def step (cursor : Cursor) : Cursor := cursor.bump.skip

/-- The cursor behind the given characters, if they are next. -/
def take? (cursor : Cursor) (text : List Char) : Option Cursor :=
  if text.isPrefixOf cursor.rest then
    some { cursor with
      rest := cursor.rest.drop text.length, place := cursor.place + text.length }
  else none

/-- The longest run of characters of a class, where blanks may be skipped in between. -/
def run (p : Char → Bool) : Nat → Cursor → List Char × Cursor
  | 0, cursor => ([], cursor)
  | fuel + 1, cursor =>
    match cursor.rest with
    | [] => ([], cursor)
    | c :: _ =>
      if p c then
        let (cs, cursor) := cursor.step.run p fuel
        (c :: cs, cursor)
      else ([], cursor)

/-- The longest run of characters of a class. -/
def all (p : Char → Bool) (cursor : Cursor) : List Char × Cursor :=
  cursor.run p cursor.rest.length

end Cursor

/-! ## Repetitions -/

/-- A decimal number.  What is wrong with it may not matter, so it comes with the cursor. -/
def decimal (cursor : Cursor) : Except Fault Nat × Cursor :=
  let start := (cursor.all isBlank).2
  let (digits, after) := start.all Char.isDigit
  let span := after.since start.place
  let value := Scanner.numeral 10 digits
  let result :=
    if digits = [] then .error ⟨.countEmpty, span, none⟩
    else if 0x100000000 ≤ value then .error ⟨.decimalInvalid, span, none⟩
    else .ok value
  (result, (after.all isBlank).2)

/-- What comes after a comma in counts. -/
def countsAfterComma (least : Except Fault Nat) (cursor : Cursor) :
    Except Fault ((Nat × Option Nat) × Cursor) :=
  if cursor.rest.head? = some '}' then do
    let least ← least
    return ((least, none), cursor)
  else do
    let least ← least
    let (most, cursor) := decimal cursor
    let most ← most
    return ((least, some most), cursor)

/-- Counts in braces; the cursor stands at the opening one. -/
def counts (cursor : Cursor) : Except Fault ((Nat × Option Nat) × Cursor) := do
  let first := cursor.place
  let unclosed : Cursor → Fault := fun cursor => ⟨.countUnclosed, cursor.since first, none⟩
  let cursor := cursor.step
  if cursor.rest = [] then throw (unclosed cursor)
  let (least, cursor) := decimal cursor
  let ((low, high), cursor) ←
    match cursor.rest with
    | [] => throw (unclosed cursor)
    | ',' :: _ =>
      let cursor := cursor.step
      if cursor.rest = [] then throw (unclosed cursor) else countsAfterComma least cursor
    | _ => do
      let least ← least
      pure ((least, some least), cursor)
  if cursor.rest.head? ≠ some '}' then throw (unclosed cursor)
  let cursor := cursor.step
  let cursor := if cursor.rest.head? = some '?' then cursor.bump else cursor
  if high.any (· < low) then throw ⟨.countOrder, cursor.since first, none⟩
  return ((low, high), cursor)

/-- A sign of repetition; the cursor stands at it. -/
def repetition (cursor : Cursor) : Except Fault ((Nat × Option Nat) × Cursor) :=
  let after := cursor.bump
  let after := if after.rest.head? = some '?' then after.bump else after
  match cursor.rest.head? with
  | some '?' => .ok ((0, some 1), after)
  | some '*' => .ok ((0, none), after)
  | some '+' => .ok ((1, none), after)
  | _ => counts cursor

/-! ## Escapes -/

/-- What a backslash can lead to. -/
inductive Escape where
  | literal (literal : Literal)
  | ofClass (tree : ClassTree)
  | anchor (span : Span) (anchor : Anchor)
  deriving Repr

/-- Whether a character has a meaning of its own. -/
def isMeta (c : Char) : Bool := "\\.+*?()|[]\x7b\x7d^$#&-~".toList.contains c

/-- Whether a character may stand behind a backslash for itself. -/
def isEscapable (c : Char) : Bool :=
  isMeta c || (c.toNat < 0x80 && !c.isAlphanum && c ≠ '<' && c ≠ '>')

/-- Whether a character is a hexadecimal digit. -/
def isHex (c : Char) : Bool := (Scanner.hexValue? c).isSome

/-- The character of hexadecimal digits. -/
def hexChar (digits : List Char) (span : Span) : Except Fault Char :=
  match Scanner.charOf? (Scanner.numeral 16 digits) with
  | some c => .ok c
  | none => .error ⟨.hexInvalid, span, none⟩

/-- A number of hexadecimal digits. -/
def hexDigits : Nat → Cursor → Except Fault ((List Char) × Cursor)
  | 0, cursor => .ok ([], cursor)
  | count + 1, cursor =>
    match cursor.rest with
    | [] => .error ⟨.escapeEnd, cursor.here, none⟩
    | c :: _ =>
      if isHex c then do
        let (cs, cursor) ← hexDigits count cursor.step
        return (c :: cs, cursor)
      else .error ⟨.hexDigit, cursor.ahead, none⟩

/-- Hexadecimal digits in braces; the cursor stands at the opening one. -/
def hexBraces (cursor : Cursor) : Except Fault (Char × Cursor) := do
  let brace := cursor.place
  let (digits, cursor) := cursor.step.all isHex
  match cursor.rest with
  | [] => throw ⟨.escapeEnd, cursor.since brace, none⟩
  | '}' :: _ =>
    let after := cursor.step
    if digits = [] then throw ⟨.hexEmpty, after.since brace, none⟩
    let c ← hexChar digits (cursor.since (brace + 1))
    return (c, after)
  | _ => throw ⟨.hexDigit, cursor.ahead, none⟩

/-- A character by its code; the cursor stands at the letter behind the backslash. -/
def hexLiteral (first : Nat) (letter : Char) (cursor : Cursor) :
    Except Fault (Literal × Cursor) := do
  let cursor := cursor.step
  match cursor.rest with
  | [] => throw ⟨.escapeEnd, cursor.here, none⟩
  | '{' :: _ =>
    let (c, after) ← hexBraces cursor
    return (⟨after.since first, c, false⟩, after)
  | _ =>
    let count := if letter = 'x' then 2 else if letter = 'u' then 4 else 8
    let (digits, after) ← hexDigits count cursor
    let c ← hexChar digits (after.since cursor.place)
    return (⟨after.since first, c, letter = 'x'⟩, after)

/-- Whether a name can only be that of a general category: it also names a property of another
kind, and the category comes first. -/
def isCategory (name : List Char) : Bool :=
  let plain := (name.filter fun c => !isBlank c && c ≠ '_' && c ≠ '-').map Char.toLower
  let plain := if "is".toList.isPrefixOf plain then plain.drop 2 else plain
  plain = ['c', 'f'] || plain = ['s', 'c'] || plain = ['l', 'c']

/-- A property; the cursor stands at the letter behind the backslash. -/
def property (first : Nat) (cursor : Cursor) : Except Fault (ClassTree × Cursor) := do
  let cursor := cursor.step
  match cursor.rest with
  | [] => throw ⟨.escapeEnd, cursor.here, none⟩
  | '{' :: _ =>
    let (name, cursor) := cursor.step.all (· ≠ '}')
    if cursor.rest = [] then throw ⟨.escapeEnd, cursor.here, none⟩
    let after := cursor.bump
    return (.property (after.since first) (isCategory name), after)
  | '\\' :: _ => throw ⟨.propertyInvalid, cursor.ahead, none⟩
  | _ =>
    let after := cursor.step
    return (.property (after.since first) false, after)

/-- What stands in braces behind `\b`, if it is no count; the cursor stands at the opening
brace. -/
def boundaryKind (first : Nat) (cursor : Cursor) : Except Fault ((Option Anchor) × Cursor) :=
  let isLetter : Char → Bool := fun c => c.isAlpha || c = '-'
  let inner := cursor.step
  match inner.rest with
  | [] => .error ⟨.boundaryEnd, inner.since first, none⟩
  | c :: _ =>
    if !isLetter c then .ok (none, cursor)
    else
      let (word, after) := inner.all isLetter
      if after.rest.head? ≠ some '}' then
        .error ⟨.boundaryUnclosed, after.since cursor.place, none⟩
      else if word = "start".toList then .ok (some .wordStart, after.bump)
      else if word = "end".toList then .ok (some .wordEnd, after.bump)
      else if word = "start-half".toList then .ok (some .wordStartHalf, after.bump)
      else if word = "end-half".toList then .ok (some .wordEndHalf, after.bump)
      else .error ⟨.boundaryUnknown, after.since inner.place, none⟩

/-- A word boundary; the cursor stands behind `\b`. -/
def boundary (first : Nat) (cursor : Cursor) : Except Fault (Escape × Cursor) := do
  if cursor.rest.head? = some '{' then
    let (kind, after) ← boundaryKind first cursor
    return (.anchor (after.since first) (kind.getD .wordBoundary), after)
  else return (.anchor (cursor.since first) .wordBoundary, cursor)

/-- The class of a letter behind a backslash. -/
def shorthand? (c : Char) : Option (ClassName × Bool) :=
  match c with
  | 'd' => some (.digit, false)
  | 'D' => some (.digit, true)
  | 's' => some (.space, false)
  | 'S' => some (.space, true)
  | 'w' => some (.word, false)
  | 'W' => some (.word, true)
  | _ => none

/-- The control character of a letter behind a backslash. -/
def control? (c : Char) : Option Char :=
  match c with
  | 'a' => some '\x07'
  | 'f' => some '\x0c'
  | 't' => some '\t'
  | 'n' => some '\n'
  | 'r' => some '\r'
  | 'v' => some '\x0b'
  | _ => none

/-- The condition of a character behind a backslash. -/
def anchor? (c : Char) : Option Anchor :=
  match c with
  | 'A' => some .textStart
  | 'z' => some .textEnd
  | 'B' => some .noWordBoundary
  | '<' => some .wordStart
  | '>' => some .wordEnd
  | _ => none

/-- An escape; the cursor stands at the backslash. -/
def escape (cursor : Cursor) : Except Fault (Escape × Cursor) := do
  let first := cursor.place
  let cursor := cursor.bump
  let after := cursor.bump
  let span := after.since first
  match cursor.rest with
  | [] => throw ⟨.escapeEnd, cursor.since first, none⟩
  | c :: _ =>
    if c.isDigit then throw ⟨.backreference, span, none⟩
    else if c = 'x' ∨ c = 'u' ∨ c = 'U' then
      let (literal, cursor) ← hexLiteral first c cursor
      return (.literal literal, cursor)
    else if c = 'p' ∨ c = 'P' then
      let (tree, cursor) ← property first cursor
      return (.ofClass tree, cursor)
    else if c = 'b' then boundary first after
    else if isEscapable c then return (.literal ⟨span, c, false⟩, after)
    else
      match shorthand? c, control? c, anchor? c with
      | some (name, negated), _, _ => return (.ofClass (.shorthand span name negated), after)
      | _, some c, _ => return (.literal ⟨span, c, false⟩, after)
      | _, _, some anchor => return (.anchor span anchor, after)
      | _, _, _ => throw ⟨.escapeUnknown, span, none⟩

/-! ## Brackets -/

/-- The class of a name in colons. -/
def ClassName.ofName? (name : String) : Option ClassName :=
  [("alnum", ClassName.alnum), ("alpha", .alpha), ("ascii", .ascii), ("blank", .blank),
    ("cntrl", .cntrl), ("digit", .digit), ("graph", .graph), ("lower", .lower),
    ("print", .print), ("punct", .punct), ("space", .space), ("upper", .upper),
    ("word", .word), ("xdigit", .xdigit)].lookup name

/-- A name in colons; the cursor stands at the bracket. -/
def namedClass? (cursor : Cursor) : Option (ClassTree × Cursor) := do
  let inner ← cursor.take? ['[', ':']
  let negated := inner.rest.head? = some '^'
  let inner := if negated then inner.bump else inner
  let letters := inner.rest.takeWhile (· ≠ ':')
  let name ← ClassName.ofName? (String.ofList letters)
  let after ← inner.take? (letters ++ [':', ']'])
  return (.named (after.since cursor.place) name negated, after)

/-- A character or a class in brackets, or what else an escape leads to. -/
def bracketEscape (cursor : Cursor) : Except Fault (Escape × Cursor) :=
  match cursor.rest with
  | '\\' :: _ => escape cursor
  | c :: _ => .ok (.literal ⟨cursor.ahead, c, false⟩, cursor.bump)
  | [] => .error ⟨.escapeEnd, cursor.here, none⟩

/-- An escape as an item of brackets. -/
def Escape.item : Escape → Except Fault ClassTree
  | .literal it => .ok (.char it)
  | .ofClass tree => .ok tree
  | .anchor span _ => .error ⟨.classEscape, span, none⟩

/-- The span of a class that needs no brackets. -/
def ClassTree.span : ClassTree → Span
  | .shorthand span _ _ | .named span _ _ | .property span _ | .brackets span _ _ => span
  | .char literal => literal.span
  | .range first last => ⟨first.span.first, last.span.past⟩
  | .join left _ | .combine _ left _ => left.span
  | .empty => ⟨0, 0⟩

/-- An escape as an end of a range. -/
def Escape.bound : Escape → Except Fault Literal
  | .literal it => .ok it
  | .ofClass tree => .error ⟨.classRangeLiteral, tree.span, none⟩
  | .anchor span _ => .error ⟨.classRangeLiteral, span, none⟩

/-- One item of brackets or a range; `opening` is where the brackets begin. -/
def bracketItem (opening : Span) (cursor : Cursor) : Except Fault (ClassTree × Cursor) := do
  let unclosed : Fault := ⟨.classUnclosed, opening, none⟩
  let (low, cursor) ← bracketEscape cursor
  let cursor := cursor.skip
  let follower := cursor.step.rest.head?
  if cursor.rest = [] then throw unclosed
  if cursor.rest.head? ≠ some '-' ∨ follower = some ']' ∨ follower = some '-' then
    let item ← low.item
    return (item, cursor)
  let cursor := cursor.step
  if cursor.rest = [] then throw unclosed
  let (high, cursor) ← bracketEscape cursor
  let first ← low.bound
  let last ← high.bound
  if last.char < first.char then
    throw ⟨.classRangeOrder, ⟨first.span.first, last.span.past⟩, none⟩
  return (.range first last, cursor)

/-- The beginning of brackets. -/
structure Opening where
  span : Span
  negated : Bool
  items : ClassTree

/-- The beginning of brackets; the cursor stands at the opening one.  Hyphens, or else a closing
bracket, stand for themselves there. -/
def opening (cursor : Cursor) : Except Fault (Opening × Cursor) := do
  let first := cursor.place
  let cursor := cursor.step
  if cursor.rest = [] then throw ⟨.classUnclosed, cursor.since first, none⟩
  let negated := cursor.rest.head? = some '^'
  let cursor := if negated then cursor.step else cursor
  if cursor.rest = [] then throw ⟨.classUnclosed, cursor.since first, none⟩
  let (hyphens, after) := cursor.all (· = '-')
  if hyphens ≠ [] then
    if after.rest = [] then throw ⟨.classUnclosed, ⟨first, first⟩, none⟩
    return (⟨after.since first, negated, .char ⟨cursor.ahead, '-', false⟩⟩, after)
  if cursor.rest.head? = some ']' then
    let after := cursor.step
    if after.rest = [] then throw ⟨.classUnclosed, after.since first, none⟩
    return (⟨after.since first, negated, .char ⟨cursor.ahead, ']', false⟩⟩, after)
  return (⟨cursor.since first, negated, .empty⟩, cursor)

/-- The left side of an operator that still waits for its right one. -/
abbrev Pending := Option (ClassOperation × ClassTree)

/-- An operator with both its sides. -/
def Pending.close (pending : Pending) (items : ClassTree) : ClassTree :=
  match pending with
  | some (operation, left) => .combine operation left items
  | none => items

/-- An operator at the cursor. -/
def operator? (cursor : Cursor) : Option (ClassOperation × Cursor) :=
  ((cursor.take? ['&', '&']).map (ClassOperation.intersection, ·)).or <|
    ((cursor.take? ['-', '-']).map (ClassOperation.difference, ·)).or
      ((cursor.take? ['~', '~']).map (ClassOperation.symmetricDifference, ·))

/-- The rest of brackets after the items so far. -/
def bracketRest :
    Nat → Opening → Pending → ClassTree → Cursor → Except Fault (ClassTree × Cursor)
  | 0, start, _, _, _ => .error ⟨.classUnclosed, start.span, none⟩
  | fuel + 1, start, pending, items, cursor =>
    let cursor := cursor.skip
    match cursor.rest with
    | [] => .error ⟨.classUnclosed, start.span, none⟩
    | ']' :: _ =>
      let after := cursor.bump
      .ok (.brackets (after.since start.span.first) start.negated (pending.close items), after)
    | '[' :: _ =>
      match namedClass? cursor with
      | some (item, after) => bracketRest fuel start pending (.join items item) after
      | none => do
        let (inner, after) ← opening cursor
        let (item, after) ← bracketRest fuel inner none inner.items after
        bracketRest fuel start pending (.join items item) after
    | _ =>
      match operator? cursor with
      | some (operation, after) =>
        bracketRest fuel start (some (operation, pending.close items)) .empty after
      | none => do
        let (item, after) ← bracketItem start.span cursor
        bracketRest fuel start pending (.join items item) after

/-- Brackets; the cursor stands at the opening one. -/
def brackets (cursor : Cursor) : Except Fault (ClassTree × Cursor) := do
  let (start, after) ← opening cursor
  bracketRest (cursor.rest.length + 1) start none start.items after

/-! ## Groups -/

/-- The mode of a letter. -/
def Mode.ofChar? (c : Char) : Option Mode :=
  match c with
  | 'i' => some .ignoreCase
  | 'm' => some .multiLine
  | 's' => some .dotAll
  | 'U' => some .lazy
  | 'u' => some .unicode
  | 'R' => some .crlf
  | 'x' => some .free
  | _ => none

/-- Modes up to a colon or a parenthesis.  `seen` has those before the cursor with their places,
and `minus` is the place of the sign that turns the rest off. -/
def switches (seen : List (Mode × Span)) (on : Switches) (minus : Option Span) :
    Nat → Cursor → Except Fault (Switches × Cursor)
  | 0, cursor => .error ⟨.modeEnd, cursor.here, none⟩
  | fuel + 1, cursor =>
    match cursor.rest with
    | [] => .error ⟨.modeEnd, cursor.here, none⟩
    | c :: _ =>
      if c = ':' ∨ c = ')' then
        match minus with
        | some span =>
          if span.past = cursor.place then .error ⟨.modeDangling, span, none⟩
          else .ok (on, cursor)
        | none => .ok (on, cursor)
      else if c = '-' then
        match minus with
        | some span => .error ⟨.modeNegatedTwice, cursor.ahead, some span⟩
        | none => switches seen on (some cursor.ahead) fuel cursor.bump
      else
        match Mode.ofChar? c with
        | none => .error ⟨.modeUnknown, cursor.ahead, none⟩
        | some mode =>
          match seen.lookup mode with
          | some span => .error ⟨.modeDuplicate, cursor.ahead, some span⟩
          | none =>
            switches ((mode, cursor.ahead) :: seen) (on ++ [(mode, minus.isNone)]) minus fuel
              cursor.bump

/-- Whether a character may stand in the name of a group. -/
def isNameChar (atFront : Bool) (c : Char) : Bool :=
  c = '_' || c.isAlpha || (!atFront && (c = '.' || c = '[' || c = ']' || c.isDigit))

/-- The name of a group up to the closing angle bracket. -/
def groupName (cursor : Cursor) : Except Fault (Unit × Cursor) := do
  let name := cursor.rest.takeWhile (· ≠ '>')
  let stray := name.zipIdx.find? fun (c, index) => !isNameChar (index = 0) c
  if let some (_, index) := stray then
    let place := cursor.place + index
    throw ⟨.nameInvalid, ⟨place, place + 1⟩, none⟩
  let past := cursor.place + name.length
  let span : Span := ⟨cursor.place, past⟩
  match cursor.rest.drop name.length with
  | [] => throw ⟨.nameEnd, ⟨past, past⟩, none⟩
  | _ :: rest =>
    if name = [] then throw ⟨.nameEmpty, span, none⟩
    if let some earlier := cursor.names.lookup name then
      throw ⟨.nameDuplicate, span, some earlier⟩
    let names := (name, span) :: cursor.names
    return ((), { cursor with rest, place := past + 1, names })

/-- What an opening parenthesis leads to. -/
inductive Entry where
  /-- Modes for the rest of the group. -/
  | modes (switches : Switches)
  /-- A group. -/
  | group (switches : Switches)

/-- The beginning of a group; the cursor stands at the parenthesis. -/
def groupEntry (cursor : Cursor) : Except Fault (Entry × Cursor) := do
  let parenthesis := cursor.ahead
  let inner := cursor.step
  let lookAround := ["?=", "?!", "?<=", "?<!"].findSome? fun sign => inner.take? sign.toList
  if let some after := lookAround then
    throw ⟨.lookAround, after.since parenthesis.first, none⟩
  if let some after := (inner.take? "?P<".toList).or (inner.take? "?<".toList) then
    let ((), after) ← groupName after
    return (.group [], after)
  if inner.rest.head? ≠ some '?' then return (.group [], inner)
  let inside := inner.bump
  if inside.rest = [] then throw ⟨.groupUnclosed, parenthesis, none⟩
  let (on, after) ← switches [] [] none inside.rest.length inside
  if after.rest.head? = some ':' then return (.group on, after.bump)
  if on = [] then throw ⟨.repetitionMissing, inner.here, none⟩
  return (.modes on, after.bump)

/-! ## Patterns -/

/-- Trees one after the other, the last one first. -/
def sequence : List Tree → Tree
  | [] => .empty
  | [tree] => tree
  | tree :: before => .seq (sequence before) tree

/-- Trees of which one is chosen, the last one first. -/
def choice : List Tree → Tree
  | [] => .empty
  | [tree] => tree
  | tree :: before => .alt (choice before) tree

/-- Whether a tree can be repeated. -/
def Tree.isRepeatable : Tree → Bool
  | .empty | .modes _ => false
  | _ => true

/-- A part without parts of its own. -/
def primitive (c : Char) (cursor : Cursor) : Except Fault (Tree × Cursor) :=
  match c with
  | '.' => .ok (.dot cursor.ahead, cursor.bump)
  | '^' => .ok (.anchor .lineStart, cursor.bump)
  | '$' => .ok (.anchor .lineEnd, cursor.bump)
  | '\\' => do
    let (result, cursor) ← escape cursor
    match result with
    | .literal literal => return (.char literal, cursor)
    | .ofClass tree => return (.ofClass tree, cursor)
    | .anchor _ anchor => return (.anchor anchor, cursor)
  | c => .ok (.char ⟨cursor.ahead, c, false⟩, cursor.bump)

/-- The rest of a pattern or of a group, whose parenthesis is given.  The branches and the items
of the last branch so far have their last one first. -/
def patternRest (parenthesis : Option Span) :
    Nat → List Tree → List Tree → Cursor → Except Fault (Tree × Cursor)
  | 0, _, _, cursor => .error ⟨.groupUnclosed, cursor.here, none⟩
  | fuel + 1, branches, items, cursor =>
    let cursor := cursor.skip
    let result := choice (sequence items :: branches)
    match cursor.rest with
    | [] =>
      match parenthesis with
      | some span => .error ⟨.groupUnclosed, span, none⟩
      | none => .ok (result, cursor)
    | c :: _ =>
      if c = ')' then
        if parenthesis.isSome then .ok (result, cursor.bump)
        else .error ⟨.groupUnopened, cursor.ahead, none⟩
      else if c = '(' then do
        let (entry, inner) ← groupEntry cursor
        match entry with
        | .modes on =>
          let free := (on.get? .free).getD cursor.free
          patternRest parenthesis fuel branches (.modes on :: items) { inner with free }
        | .group on =>
          let free := (on.get? .free).getD cursor.free
          let (body, after) ← patternRest (some cursor.ahead) fuel [] [] { inner with free }
          let after := { after with free := cursor.free }
          patternRest parenthesis fuel branches (.group on body :: items) after
      else if c = '|' then
        patternRest parenthesis fuel (sequence items :: branches) [] cursor.bump
      else if c = '[' then do
        let (tree, after) ← brackets cursor
        patternRest parenthesis fuel branches (.ofClass tree :: items) after
      else if c = '?' ∨ c = '*' ∨ c = '+' ∨ c = '{' then
        match items with
        | [] => .error ⟨.repetitionMissing, cursor.here, none⟩
        | item :: before =>
          if item.isRepeatable then do
            let ((least, most), after) ← repetition cursor
            patternRest parenthesis fuel branches (.times item least most :: before) after
          else .error ⟨.repetitionMissing, cursor.here, none⟩
      else do
        let (tree, after) ← primitive c cursor
        patternRest parenthesis fuel branches (tree :: items) after

/-- Reads a pattern. -/
def Tree.read (pattern : String) : Except Fault Tree := do
  let text := pattern.toList
  let (tree, _) ← patternRest none (text.length + 1) [] [] { rest := text }
  return tree

end MidiScore.Regex
