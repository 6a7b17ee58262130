import MidiScore.Regex.Tree

/-!
# Faults of regular expressions

What can be wrong with a pattern, and how the user is told.  The report shows the pattern with
a mark below the stretch that is at fault.  A pattern of several lines is shown with numbers
of lines.
-/

namespace MidiScore.Regex

/-- What is wrong with a pattern. -/
inductive Cause where
  | classEscape
  | classRangeOrder
  | classRangeLiteral
  | classUnclosed
  | decimalInvalid
  | hexEmpty
  | hexInvalid
  | hexDigit
  | escapeEnd
  | escapeUnknown
  | modeDangling
  | modeDuplicate
  | modeNegatedTwice
  | modeEnd
  | modeUnknown
  | nameDuplicate
  | nameEmpty
  | nameInvalid
  | nameEnd
  | groupUnclosed
  | groupUnopened
  | countOrder
  | countEmpty
  | countUnclosed
  | repetitionMissing
  | boundaryUnclosed
  | boundaryUnknown
  | boundaryEnd
  | propertyInvalid
  | backreference
  | lookAround
  | unicodeHere
  | invalidText
  | propertyUnknown
  | propertyValueUnknown
  | classUnavailable
  | caseUnavailable
  deriving DecidableEq, Repr

/-- The words for a cause. -/
def Cause.message : Cause → String
  | .classEscape => "invalid escape sequence found in character class"
  | .classRangeOrder => "invalid character class range, the start must be <= the end"
  | .classRangeLiteral => "invalid range boundary, must be a literal"
  | .classUnclosed => "unclosed character class"
  | .decimalInvalid => "decimal literal invalid"
  | .hexEmpty => "hexadecimal literal empty"
  | .hexInvalid => "hexadecimal literal is not a Unicode scalar value"
  | .hexDigit => "invalid hexadecimal digit"
  | .escapeEnd => "incomplete escape sequence, reached end of pattern prematurely"
  | .escapeUnknown => "unrecognized escape sequence"
  | .modeDangling => "dangling flag negation operator"
  | .modeDuplicate => "duplicate flag"
  | .modeNegatedTwice => "flag negation operator repeated"
  | .modeEnd => "expected flag but got end of regex"
  | .modeUnknown => "unrecognized flag"
  | .nameDuplicate => "duplicate capture group name"
  | .nameEmpty => "empty capture group name"
  | .nameInvalid => "invalid capture group character"
  | .nameEnd => "unclosed capture group name"
  | .groupUnclosed => "unclosed group"
  | .groupUnopened => "unopened group"
  | .countOrder => "invalid repetition count range, the start must be <= the end"
  | .countEmpty => "repetition quantifier expects a valid decimal"
  | .countUnclosed => "unclosed counted repetition"
  | .repetitionMissing => "repetition operator missing expression"
  | .boundaryUnclosed =>
    "special word boundary assertion is either unclosed or contains an invalid character"
  | .boundaryUnknown =>
    "unrecognized special word boundary assertion, valid choices are: " ++
      "start, end, start-half or end-half"
  | .boundaryEnd =>
    "found either the beginning of a special word boundary or a bounded repetition on a \\b " ++
      "with an opening brace, but no closing brace"
  | .propertyInvalid => "invalid Unicode character class"
  | .backreference => "backreferences are not supported"
  | .lookAround => "look-around, including look-ahead and look-behind, is not supported"
  | .unicodeHere => "Unicode not allowed here"
  | .invalidText => "pattern can match invalid UTF-8"
  | .propertyUnknown => "Unicode property not found"
  | .propertyValueUnknown => "Unicode property value not found"
  | .classUnavailable =>
    "Unicode-aware Perl class not found (make sure the unicode-perl feature is enabled)"
  | .caseUnavailable =>
    "Unicode-aware case insensitivity matching is not available " ++
      "(make sure the unicode-case feature is enabled)"

/-- A cause with its place, and perhaps an earlier place that it conflicts with. -/
structure Fault where
  cause : Cause
  span : Span
  earlier : Option Span := none
  deriving DecidableEq, Repr

/-! ## The report -/

/-- The lines of a text.  A line break at the end begins no new line. -/
def lines (text : List Char) : List (List Char) :=
  match (text.splitOn '\n').reverse with
  | [] => []
  | last :: ended =>
    let chomp : List Char → List Char := fun line =>
      if line.getLast? = some '\r' then line.dropLast else line
    (ended.reverse.map chomp) ++ (if last = [] then [] else [last])

/-- The line and the column of a place, both from zero. -/
def lineColumn (text : List Char) (place : Nat) : Nat × Nat :=
  let before := text.take place
  (before.count '\n', (before.reverse.takeWhile (· ≠ '\n')).length)

namespace Fault

/-- The places to mark, in their order. -/
def spans (fault : Fault) : List Span :=
  match fault.earlier with
  | none => [fault.span]
  | some earlier =>
    if earlier.first ≤ fault.span.first then [earlier, fault.span] else [fault.span, earlier]

/-- Whether a span begins and ends in one line. -/
def isOneLine (text : List Char) (span : Span) : Bool :=
  (lineColumn text span.first).1 = (lineColumn text span.past).1

/-- The marks below a line; `done` columns are behind. -/
def marks (text : List Char) : Nat → List Span → List Char
  | _, [] => []
  | done, span :: rest =>
    let column := (lineColumn text span.first).2
    let width := max 1 (span.past - span.first)
    List.replicate (column - done) ' ' ++ List.replicate width '^' ++
      marks text (max done column + width) rest

/-- A number set to the right. -/
def padded (width number : Nat) : List Char :=
  let digits := (toString number).toList
  List.replicate (width - digits.length) ' ' ++ digits

/-- The lines of a pattern with the marks below them. -/
def listing (text : List Char) (spans : List Span) : List Char :=
  let count := (lines text).length + (if text.getLast? = some '\n' then 1 else 0)
  let width := (toString count).length
  let margin := if count ≤ 1 then 4 else width + 2
  (lines text).zipIdx.flatMap fun (line, index) =>
    let lead := if count ≤ 1 then List.replicate 4 ' ' else padded width (index + 1) ++ [':', ' ']
    let here := spans.filter fun span => (lineColumn text span.first).1 = index
    let below :=
      if here = [] then [] else List.replicate margin ' ' ++ marks text 0 here ++ ['\n']
    lead ++ line ++ ['\n'] ++ below

/-- The words for a span of several lines. -/
def linesNote (text : List Char) (span : Span) : String :=
  let (line, column) := lineColumn text span.first
  let (pastLine, pastColumn) := lineColumn text span.past
  s!"on line {line + 1} (column {column + 1}) through line {pastLine + 1} (column {pastColumn})\n"

/-- What the user is told about a fault of a pattern. -/
def report (pattern : String) (fault : Fault) : String :=
  let text := pattern.toList
  let body := String.ofList (listing text (fault.spans.filter (isOneLine text)))
  let shown :=
    if text.contains '\n' then
      let divider := String.ofList (List.replicate 79 '~') ++ "\n"
      let notes := (fault.spans.filter (!isOneLine text ·)).map (linesNote text)
      divider ++ body ++ divider ++ String.join notes
    else body
  "regex parse error:\n" ++ shown ++ "error: " ++ fault.cause.message

end Fault

end MidiScore.Regex
