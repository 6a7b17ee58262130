/-!
# Text without terminal sequences

A terminal takes some characters as orders: single control characters, and *sequences* that
begin with the escape character.  `Terminal.plain` leaves out of a text what a terminal would
not show.

*Sequences.*  What follows the escape character decides how a sequence goes on.  A control
sequence `ESC [` has parameters, then intermediate characters, and ends with a letter.  A
device sequence `ESC P` begins the same way and goes on as a string.  The strings of
`ESC X`, `ESC ^` and `ESC _` run up to the byte `9c`, that of `ESC ]` up to a bell.  A cancel
or substitute character ends any sequence, and an escape character begins a new one.

*Shown and hidden.*  A text is cut into stretches that are shown and stretches that are hidden.
A hidden stretch ends at the first character that the sequence it stands in shows, such as a
line break inside a control sequence.  A shown stretch ends only at a character that is never
shown, and then the sequence that was left goes on.

Sequences are defined on bytes.  A character beyond ASCII is several bytes of eight bits each,
which no sequence knows, except that one of them may be `9c`.
-/

namespace MidiScore.Terminal

/-! ## Sequences -/

/-- Where in a sequence a character stands. -/
inductive Place where
  /-- In no sequence. -/
  | ground
  /-- After the escape character. -/
  | escape
  /-- After intermediate characters of a short sequence. -/
  | escapeMiddle
  /-- At the beginning of a control sequence. -/
  | control
  /-- Among the parameters of a control sequence. -/
  | controlParameter
  /-- After intermediate characters of a control sequence. -/
  | controlMiddle
  /-- In a control sequence that is not well formed. -/
  | controlBroken
  /-- At the beginning of a device sequence. -/
  | device
  /-- Among the parameters of a device sequence. -/
  | deviceParameter
  /-- After intermediate characters of a device sequence. -/
  | deviceMiddle
  /-- In a string that the byte `9c` ends. -/
  | string
  /-- In a string that a bell ends. -/
  | command
  deriving DecidableEq, Repr

/-- Whether a code lies between two others. -/
def within (first last code : Nat) : Bool := first ≤ code && code ≤ last

namespace Place

/-- Whether control characters have their usual effect here. -/
def obeysControls : Place → Bool
  | .device | .deviceParameter | .deviceMiddle | .string | .command => false
  | _ => true

/-- The place after a character of an ASCII code that no sequence gives a meaning of its own
everywhere. -/
def inside (place : Place) (code : Nat) : Place :=
  match place with
  | .ground => .ground
  | .escape =>
    if code = 0x5b then .control
    else if code = 0x5d then .command
    else if code = 0x50 then .device
    else if code = 0x58 || code = 0x5e || code = 0x5f then .string
    else if within 0x20 0x2f code then .escapeMiddle
    else if within 0x30 0x7e code then .ground
    else .escape
  | .escapeMiddle => if within 0x30 0x7e code then .ground else .escapeMiddle
  | .control =>
    if within 0x20 0x2f code then .controlMiddle
    else if within 0x30 0x3f code then .controlParameter
    else if within 0x40 0x7e code then .ground
    else .control
  | .controlParameter =>
    if within 0x20 0x2f code then .controlMiddle
    else if within 0x3c 0x3f code then .controlBroken
    else if within 0x40 0x7e code then .ground
    else .controlParameter
  | .controlMiddle =>
    if within 0x30 0x3f code then .controlBroken
    else if within 0x40 0x7e code then .ground
    else .controlMiddle
  | .controlBroken => if within 0x40 0x7e code then .ground else .controlBroken
  | .device =>
    if within 0x20 0x2f code then .deviceMiddle
    else if within 0x30 0x3f code then .deviceParameter
    else if within 0x40 0x7e code then .string
    else .device
  | .deviceParameter =>
    if within 0x20 0x2f code then .deviceMiddle
    else if within 0x3c 0x7e code then .string
    else .deviceParameter
  | .deviceMiddle => if within 0x30 0x7e code then .string else .deviceMiddle
  | .string => .string
  | .command => if code = 0x07 then .ground else .command

/-- Whether one of the bytes of a character beyond ASCII is `9c`.  All but the first byte have
six bits of its code. -/
def holdsTerminator (code : Nat) : Bool :=
  code % 64 = 0x1c || (0x800 ≤ code && code / 64 % 64 = 0x1c) ||
    (0x10000 ≤ code && code / 4096 % 64 = 0x1c)

/-- The place after a character. -/
def next (place : Place) (c : Char) : Place :=
  let code := c.toNat
  if code = 0x1b then .escape
  else if code = 0x18 || code = 0x1a then .ground
  else if code < 0x80 then place.inside code
  else if place = .string && holdsTerminator code then .ground
  else place

/-- Whether a character is a control character that moves to another column or line. -/
def isLayout (c : Char) : Bool := c = '\t' || c = '\n' || c = '\x0c' || c = '\r'

/-- Whether a character is shown at a place. -/
def shows (place : Place) (c : Char) : Bool :=
  if isLayout c then place.obeysControls
  else place = .ground && 0x20 ≤ c.toNat && c.toNat ≠ 0x7f

end Place

/-! ## Stretches -/

/-- How far a text has been read. -/
structure Reading where
  place : Place := .ground
  /-- Whether this is a stretch that is shown. -/
  shown : Bool := false
  deriving DecidableEq, Repr

/-- Whether a character is kept, and the reading after it. -/
def Reading.step (reading : Reading) (c : Char) : Bool × Reading :=
  if reading.shown && Place.ground.shows c then
    -- A character beyond ASCII leaves the sequence that was interrupted.
    (true, ⟨if c.toNat < 0x80 then reading.place else .ground, true⟩)
  else (reading.place.shows c, ⟨reading.place.next c, reading.place.shows c⟩)

/-- The characters that are kept from a reading on. -/
def Reading.keep : Reading → List Char → List Char
  | _, [] => []
  | reading, c :: cs =>
    let (kept, after) := reading.step c
    if kept then c :: after.keep cs else after.keep cs

/-- A text without what a terminal would not show. -/
def plain (text : String) : String := String.ofList (Reading.keep {} text.toList)

end MidiScore.Terminal
