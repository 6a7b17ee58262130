import MidiScore.Command.Log
import MidiScore.Regex.Meaning
import MidiScore.Text.Blank

/-!
# Log directives

A user says with directives which log records are shown.  A directive is a level with the targets
that it holds for, and there may be a pattern that the message has to match.  Of the directives
whose name begins the target the one with the longest name decides, and of equally long ones the
last.

A filter is written as directives divided by commas: a level alone holds for all targets,
`target=level` for some, and a target alone shows all of its records.  The pattern follows
after a slash.  A part that cannot be read is left out with a warning.
-/

namespace MidiScore.Log

namespace Level

def all : List Level := [.off, .error, .warn, .info, .debug, .trace]

/-- The level of a name in any case. -/
def parse? (text : List Char) : Option Level :=
  all.find? fun level => level.name.toList = text.map Char.toUpper

/-- The position of a level in their order. -/
def rank : Level → Nat
  | .off => 0
  | .error => 1
  | .warn => 2
  | .info => 3
  | .debug => 4
  | .trace => 5

end Level

/-! ## Directives -/

/-- A level for the targets that begin with a name, or for all targets. -/
structure Directive where
  target : Option String
  level : Level
  deriving DecidableEq, Repr

/-- What a user has said about records. -/
structure Directives where
  /-- No two of them have the same target. -/
  directives : List Directive
  /-- What the message has to match. -/
  pattern : Option Regex.Expr := none

/-- A part of a filter that is left out. -/
inductive Warning where
  /-- The whole filter, which has more than one slash. -/
  | slashes (text : String)
  /-- A directive, or its level. -/
  | directive (text : String)
  /-- The pattern. -/
  | pattern (refusal : Regex.Refusal)
  deriving DecidableEq, Repr

/-- The line of a warning. -/
def Warning.line : Warning → String
  | .slashes text => s!"warning: invalid logging spec '{text}' (too many '/'s), ignoring it"
  | .directive text => s!"warning: invalid logging spec '{text}', ignoring it"
  | .pattern refusal => s!"warning: invalid regex filter - {refusal.message}, ignoring it"

namespace Directive

/-- The number of bytes in the name of the targets. -/
def width (directive : Directive) : Nat := (directive.target.map (·.utf8ByteSize)).getD 0

/-- Whether the directive holds for a target. -/
def covers (directive : Directive) (target : String) : Bool :=
  directive.target.all fun name => name.toList.isPrefixOf target.toList

/-- Of two directives the one with the longer name, or else the second. -/
def narrower (a b : Directive) : Directive := if b.width < a.width then a else b

/-- Reads a directive. -/
def parse (text : List Char) : Except Warning Directive :=
  match text.splitOn '=' with
  | [word] =>
    match Level.parse? word with
    | some level => .ok ⟨none, level⟩
    | none => .ok ⟨some (String.ofList word), .trace⟩
  | [target, level] =>
    let level := trimBlanks level
    if level = [] then .ok ⟨some (String.ofList target), .trace⟩
    else
      match Level.parse? level with
      | some level => .ok ⟨some (String.ofList target), level⟩
      | none => .error (.directive (String.ofList level))
  | _ => .error (.directive (String.ofList text))

end Directive

/-- Directives after one more: it takes the place of one with the same target. -/
def insertDirective : List Directive → Directive → List Directive
  | [], directive => [directive]
  | first :: rest, directive =>
    if first.target = directive.target then directive :: rest
    else first :: insertDirective rest directive

/-- Directives divided by commas, each read or refused. -/
def parseDirectives (text : List Char) : List (Except Warning Directive) :=
  (((text.splitOn ',').map trimBlanks).filter (· ≠ [])).map Directive.parse

/-- The value of a success. -/
def success? {ε α : Type} : Except ε α → Option α
  | .ok value => some value
  | .error _ => none

/-- The error of a failure. -/
def failure? {ε α : Type} : Except ε α → Option ε
  | .ok _ => none
  | .error error => some error

namespace Directives

/-- What holds after some directives were given.  Without any only errors are shown. -/
def ofList (directives : List Directive) (pattern : Option Regex.Expr) : Directives :=
  if directives.isEmpty then ⟨[⟨none, .error⟩], pattern⟩
  else ⟨directives.foldl insertDirective [], pattern⟩

/-- Reads directives and a pattern. -/
def parse (text : String) : Directives × List Warning :=
  let read := fun directives (pattern : Option (Except Regex.Refusal Regex.Expr)) =>
    let results := parseDirectives directives
    let refusals := (pattern.bind failure?).toList.map Warning.pattern
    (ofList (results.filterMap success?) (pattern.bind success?),
      results.filterMap failure? ++ refusals)
  match text.toList.splitOn '/' with
  | [] => read [] none
  | [directives] => read directives none
  | [directives, pattern] => read directives (some (Regex.Expr.read (String.ofList pattern)))
  | _ => (ofList [] none, [.slashes text])

/-- The directive that decides about a target. -/
def directive? (given : Directives) (target : String) : Option Directive :=
  match given.directives.filter (·.covers target) with
  | [] => none
  | first :: rest => some (rest.foldl Directive.narrower first)

/-- The records that the directives let through. -/
def filter (given : Directives) : Filter where
  shows record :=
    (given.directive? record.target).any (fun directive => record.level.rank ≤ directive.level.rank)
      && given.pattern.all (·.isFound record.message)

end Directives

end MidiScore.Log
