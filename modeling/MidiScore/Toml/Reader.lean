import MidiScore.Toml.Scalar
import MidiScore.Toml.Table

/-!
# Reading TOML

`Toml.read?` reads a TOML 1.0 document as the object of its root table.  Lists and inline
tables nest less than eighty deep, and a dotted name has less than eighty parts; scalars may
stand at any depth.
-/

namespace MidiScore.Toml

/-! ## Blanks and comments -/

/-- A comment up to the end of its line. -/
def skipComment : List Char → List Char
  | '#' :: cs => cs.dropWhile isPrintable
  | cs => cs

/-- Leaves out blanks, line ends and comments.  The fuel bounds the number of lines. -/
def skipSpace : Nat → List Char → List Char
  | 0, cs => cs
  | fuel + 1, cs =>
    let cs := skipComment (skipBlank cs)
    match lineEnd cs with
    | some (_, cs) => skipSpace fuel cs
    | none => cs

/-- What may stand after a field or a header on its line. -/
def lineRest : Scanner Unit := fun cs =>
  match skipComment (skipBlank cs) with
  | [] => some ((), [])
  | cs => lineEnd cs

/-! ## Names -/

def isBareName (c : Char) : Bool := c.isAlphanum ∨ c = '_' ∨ c = '-'

/-- One part of a name. -/
def namePart (size : Nat) : Scanner String := fun cs =>
  match cs with
  | '"' :: _ => lineString size cs
  | '\'' :: _ => lineString size cs
  | _ =>
    let (name, rest) := Scanner.run isBareName cs
    if name.isEmpty then none else some (String.ofList name, rest)

/-- The parts of a dotted name, with blanks around each.  The fuel bounds their number. -/
def nameParts (size : Nat) : Nat → Scanner (List String)
  | 0, _ => none
  | fuel + 1, cs => do
    let (part, cs) ← namePart size (skipBlank cs)
    match skipBlank cs with
    | '.' :: cs =>
      let (parts, cs) ← nameParts size fuel cs
      some (part :: parts, cs)
    | cs => some ([part], cs)

/-- A possibly dotted name. -/
def name (size : Nat) : Scanner (List String) := nameParts size 79

/-- A path split into the parts before its last one and the last one. -/
def splitLast? : List String → Option (List String × String)
  | [] => none
  | [last] => some ([], last)
  | first :: rest => (splitLast? rest).map fun (path, last) => (first :: path, last)

/-! ## Values -/

/-- A name, an equals sign and a value. -/
def field (size : Nat) (value : Scanner Value) : Scanner (List String × Value) := fun cs => do
  let (path, cs) ← name size cs
  let (_, cs) ← Scanner.exactly ['='] cs
  let (v, cs) ← value (skipBlank cs)
  some ((path, v), cs)

/-- Puts a field into a table. -/
def putField? (fields : Node.Fields) (entry : List String × Value) : Option Node.Fields := do
  let (path, last) ← splitLast? entry.1
  Node.put? last entry.2 true path fields

/-- The object of an inline table. -/
def inlineTable? (entries : List (List String × Value)) : Option Value :=
  (entries.foldlM putField? []).map fun fields => .object (Node.fieldValues fields)

/-- A string or another scalar. -/
def scalar (size : Nat) : Scanner Value := fun cs =>
  match cs with
  | '"' :: _ => (string size cs).map fun (s, rest) => (.text s, rest)
  | '\'' :: _ => (string size cs).map fun (s, rest) => (.text s, rest)
  | _ => plain cs

/-- A value in which lists and inline tables nest at most as deep as given. -/
def value (size : Nat) : Nat → Scanner Value
  | 0, cs => scalar size cs
  | depth + 1, cs =>
    match cs with
    | '[' :: cs =>
      (Scanner.itemsOrNone ']' true (skipSpace size) (value size depth) size cs).map
        fun (items, rest) => (.list items, rest)
    | '\x7b' :: cs => do
      let (entries, rest) ←
        Scanner.itemsOrNone '\x7d' false skipBlank (field size (value size depth)) size cs
      let table ← inlineTable? entries
      some (table, rest)
    | _ => scalar size cs

/-! ## Documents -/

/-- A document that has been read up to some line: its root table, and the header under
which fields are put. -/
structure Draft where
  root : Node.Fields := []
  header : List String := []

namespace Draft

/-- States the table of a header and goes on in it. -/
def state? (draft : Draft) (path : List String) : Option Draft := do
  let (parent, last) ← splitLast? path
  let root ← Node.change? (Node.state? last) parent draft.root
  some ⟨root, path⟩

/-- Adds a table under a repeated header and goes on in it. -/
def repeat? (draft : Draft) (path : List String) : Option Draft := do
  let (parent, last) ← splitLast? path
  let root ← Node.change? (Node.repeat? last) parent draft.root
  some ⟨root, path⟩

/-- Puts a field into the current table. -/
def put? (draft : Draft) (entry : List String × Value) : Option Draft := do
  let root ← Node.change? (putField? · entry) draft.header draft.root
  some { draft with root := root }

end Draft

/-- One header or field with the rest of its line, or an empty line. -/
def line (size : Nat) (draft : Draft) : Scanner Draft := fun cs =>
  match skipBlank cs with
  | '[' :: '[' :: cs => do
    let (path, cs) ← name size cs
    let (_, cs) ← Scanner.exactly [']', ']'] cs
    let draft ← draft.repeat? path
    let (_, cs) ← lineRest cs
    some (draft, cs)
  | '[' :: cs => do
    let (path, cs) ← name size cs
    let (_, cs) ← Scanner.exactly [']'] cs
    let draft ← draft.state? path
    let (_, cs) ← lineRest cs
    some (draft, cs)
  | cs =>
    match lineRest cs with
    | some (_, cs) => some (draft, cs)
    | none => do
      let (entry, cs) ← field size (value size 79) cs
      let draft ← draft.put? entry
      let (_, cs) ← lineRest cs
      some (draft, cs)

/-- The lines of a document.  The fuel bounds their number. -/
def lines (size : Nat) : Nat → Draft → List Char → Option Draft
  | 0, _, _ => none
  | _ + 1, draft, [] => some draft
  | fuel + 1, draft, cs => do
    let (draft, cs) ← line size draft cs
    lines size fuel draft cs

/-- Reads a TOML document.  A byte order mark in front of it is left out. -/
def read? (text : String) : Option Value := do
  let cs :=
    match text.toList with
    | '\uFEFF' :: cs => cs
    | cs => cs
  let size := cs.length + 1
  let draft ← lines size size {} cs
  some (.object (Node.fieldValues draft.root))

end MidiScore.Toml
