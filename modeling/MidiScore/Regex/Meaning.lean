import MidiScore.Regex.Fault
import MidiScore.Regex.Matching
import MidiScore.Regex.Reader

/-!
# The meaning of regular expressions

`Tree.meaning` resolves the modes of a pattern.  A switch of modes holds up to the end of its
group, for the branches that follow too.

*Characters and bytes.*  Classes are made of characters, or of bytes where `(?-u)` holds.  There
are no tables of Unicode here: a class of characters cannot be `\d`, `\s` or `\w`, nor ignore
case.  Classes of bytes can, but they may only have bytes that are characters by themselves.

*Conditions on words* would need the tables too.  A pattern that has one where Unicode holds is
refused as a whole, after all other faults.
-/

namespace MidiScore.Regex

/-! ## Classes -/

/-- Whether a code lies in one of several ranges. -/
def inRanges (ranges : List (Char × Char)) (code : Nat) : Bool :=
  ranges.any fun (first, last) => first.toNat ≤ code && code ≤ last.toNat

/-- The ASCII codes of a class. -/
def ClassName.ranges : ClassName → List (Char × Char)
  | .alnum => [('0', '9'), ('A', 'Z'), ('a', 'z')]
  | .alpha => [('A', 'Z'), ('a', 'z')]
  | .ascii => [('\x00', '\x7f')]
  | .blank => [('\t', '\t'), (' ', ' ')]
  | .cntrl => [('\x00', '\x1f'), ('\x7f', '\x7f')]
  | .digit => [('0', '9')]
  | .graph => [('!', '~')]
  | .lower => [('a', 'z')]
  | .print => [(' ', '~')]
  | .punct => [('!', '/'), (':', '@'), ('[', '\x60'), ('\x7b', '~')]
  | .space => [('\t', '\r'), (' ', ' ')]
  | .upper => [('A', 'Z')]
  | .word => [('0', '9'), ('A', 'Z'), ('_', '_'), ('a', 'z')]
  | .xdigit => [('0', '9'), ('A', 'F'), ('a', 'f')]

/-- The modes that matter for matching. -/
structure Modes where
  ignoreCase : Bool := false
  multiLine : Bool := false
  dotAll : Bool := false
  unicode : Bool := true
  crlf : Bool := false
  deriving DecidableEq, Repr

/-- Modes after some were switched. -/
def Modes.switch (modes : Modes) (switches : Switches) : Modes where
  ignoreCase := (switches.get? .ignoreCase).getD modes.ignoreCase
  multiLine := (switches.get? .multiLine).getD modes.multiLine
  dotAll := (switches.get? .dotAll).getD modes.dotAll
  unicode := (switches.get? .unicode).getD modes.unicode
  crlf := (switches.get? .crlf).getD modes.crlf

/-- The code of the same ASCII letter in the other case. -/
def otherCase (code : Nat) : Nat :=
  if inRanges [('A', 'Z')] code then code + 32
  else if inRanges [('a', 'z')] code then code - 32
  else code

/-- A class of codes together with the letters in the other case. -/
def bothCases (p : Nat → Bool) (code : Nat) : Bool := p code || p (otherCase code)

/-- Whether a class has no byte beyond ASCII. -/
def isAscii (p : Nat → Bool) : Bool := (List.range 128).all fun k => !p (128 + k)

/-- Whether a class of characters has a member. -/
def isInhabited : ClassTree → Bool
  | .empty => false
  | .join a b => isInhabited a || isInhabited b
  | _ => true

/-- A class with the modes and a negation applied to it. -/
def finishClass (modes : Modes) (span : Span) (negated inhabited : Bool) (p : Nat → Bool) :
    Except Fault (Nat → Bool) :=
  let negate : (Nat → Bool) → Nat → Bool := fun p code => if negated then !p code else p code
  if modes.unicode then
    if modes.ignoreCase && inhabited then .error ⟨.caseUnavailable, span, none⟩
    else .ok (negate p)
  else
    let result := negate (if modes.ignoreCase then bothCases p else p)
    if isAscii result then .ok result else .error ⟨.invalidText, span, none⟩

/-- The code of a character in a class. -/
def Literal.code (modes : Modes) (it : Literal) : Except Fault Nat :=
  if modes.unicode || it.char.toNat < 0x80 then .ok it.char.toNat
  else .error ⟨if it.byte then .invalidText else .unicodeHere, it.span, none⟩

/-- The codes of a combination of classes. -/
def ClassOperation.apply (operation : ClassOperation) (p q : Nat → Bool) (code : Nat) : Bool :=
  match operation with
  | .intersection => p code && q code
  | .difference => p code && !q code
  | .symmetricDifference => p code != q code

/-- The codes of a class. -/
def ClassTree.meaning (modes : Modes) : ClassTree → Except Fault (Nat → Bool)
  | .empty => .ok fun _ => false
  | .char it => do
    let code ← it.code modes
    return (· == code)
  | .range low high => do
    let first ← low.code modes
    let last ← high.code modes
    return fun code => first ≤ code && code ≤ last
  | .shorthand span name negated =>
    if modes.unicode then .error ⟨.classUnavailable, span, none⟩
    else finishClass { modes with ignoreCase := false } span negated true (inRanges name.ranges)
  | .named span name negated => finishClass modes span negated true (inRanges name.ranges)
  | .property span category =>
    let cause : Cause :=
      if !modes.unicode then .unicodeHere
      else if category then .propertyValueUnknown
      else .propertyUnknown
    .error ⟨cause, span, none⟩
  | .brackets span negated items => do
    let p ← items.meaning modes
    finishClass modes span negated (isInhabited items) p
  | .join left right => do
    let p ← left.meaning modes
    let q ← right.meaning modes
    return fun code => p code || q code
  | .combine operation left right => do
    let p ← left.meaning modes
    let q ← right.meaning modes
    return operation.apply p q

/-! ## Patterns -/

/-- A character by itself. -/
def Literal.meaning (modes : Modes) (it : Literal) : Except Fault Expr :=
  let code := it.char.toNat
  if modes.unicode then
    if modes.ignoreCase then .error ⟨.caseUnavailable, it.span, none⟩ else .ok (.one (· == code))
  else if it.byte && 0x80 ≤ code then .error ⟨.invalidText, it.span, none⟩
  else if modes.ignoreCase then .ok (.one (bothCases (· == code)))
  else .ok (.one (· == code))

/-- The dot. -/
def dotMeaning (modes : Modes) (span : Span) : Except Fault Expr :=
  if !modes.unicode then .error ⟨.invalidText, span, none⟩
  else if modes.dotAll then .ok (.one fun _ => true)
  else if modes.crlf then .ok (.one fun code => code ≠ 0xa && code ≠ 0xd)
  else .ok (.one fun code => code ≠ 0xa)

/-- The condition of an anchor. -/
def Anchor.condition (modes : Modes) : Anchor → Condition
  | .lineStart =>
    if !modes.multiLine then .textStart else if modes.crlf then .lineStartCrlf else .lineStart
  | .lineEnd =>
    if !modes.multiLine then .textEnd else if modes.crlf then .lineEndCrlf else .lineEnd
  | .textStart => .textStart
  | .textEnd => .textEnd
  | .wordBoundary => .wordBoundary
  | .noWordBoundary => .noWordBoundary
  | .wordStart => .wordStart
  | .wordEnd => .wordEnd
  | .wordStartHalf => .wordStartHalf
  | .wordEndHalf => .wordEndHalf

/-- Whether an anchor asks what belongs to a word. -/
def Anchor.isAboutWords : Anchor → Bool
  | .lineStart | .lineEnd | .textStart | .textEnd => false
  | _ => true

/-- What a part of a pattern stands for. -/
structure Meaning where
  expr : Expr
  /-- The modes behind the part. -/
  modes : Modes
  /-- Whether it asks for words of Unicode. -/
  asksWords : Bool := false

/-- What a pattern stands for. -/
def Tree.meaning (modes : Modes) : Tree → Except Fault Meaning
  | .empty => .ok ⟨.empty, modes, false⟩
  | .char it => do
    let expr ← it.meaning modes
    return ⟨expr, modes, false⟩
  | .dot span => do
    let expr ← dotMeaning modes span
    return ⟨expr, modes, false⟩
  | .ofClass tree => do
    let p ← tree.meaning modes
    return ⟨.one p, modes, false⟩
  | .anchor it =>
    .ok ⟨.check (it.condition modes), modes, it.isAboutWords && modes.unicode⟩
  | .modes switches => .ok ⟨.empty, modes.switch switches, false⟩
  | .group switches body => do
    let inner ← body.meaning (modes.switch switches)
    return { inner with modes }
  | .seq first second => do
    let a ← first.meaning modes
    let b ← second.meaning a.modes
    return ⟨.seq a.expr b.expr, b.modes, a.asksWords || b.asksWords⟩
  | .alt left right => do
    let a ← left.meaning modes
    let b ← right.meaning a.modes
    return ⟨.alt a.expr b.expr, b.modes, a.asksWords || b.asksWords⟩
  | .times body least most => do
    let inner ← body.meaning modes
    return { inner with expr := .times inner.expr least most }

/-! ## Reading a pattern -/

/-- Why a pattern is not used. -/
inductive Refusal where
  /-- It has a fault. -/
  | fault (pattern : String) (fault : Fault)
  /-- It asks for words, and there are no tables to tell. -/
  | words
  /-- It is too large. -/
  | size
  deriving DecidableEq, Repr

/-- What the user is told. -/
def Refusal.message : Refusal → String
  | .fault pattern it => it.report pattern
  | .words => "error building NFA"
  | .size => "Compiled regex exceeds size limit of 10485760 bytes."

/-- The largest weight of a pattern: 32 bytes for each character of 10 MiB. -/
def largestWeight : Nat := 10485760 / 32

/-- Reads a pattern. -/
def Expr.read (pattern : String) : Except Refusal Expr :=
  let meaning := do
    let tree ← Tree.read pattern
    tree.meaning {}
  match meaning with
  | .error fault => .error (.fault pattern fault)
  | .ok result =>
    if largestWeight < result.expr.weight then .error .size
    else if result.asksWords then .error .words
    else .ok result.expr

end MidiScore.Regex
