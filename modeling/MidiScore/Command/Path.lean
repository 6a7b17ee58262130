/-!
# Paths

A path is a text whose parts are divided by slashes.  Empty parts and parts `.` have no
meaning, except a `.` at the very start; a slash at the start makes the path absolute.  The
name of a file is the last part that has a meaning, unless that is `.` or `..`, and the
parent is the text in front of it.

The stem of a file name is what stands before its last dot, if anything does.
-/

namespace MidiScore.Path

/-- What stands between two slashes. -/
abbrev Part := List Char

/-- The parts of a path, empty ones included. -/
def parts (path : String) : List Part := path.toList.splitOn '/'

def isAbsolute (path : String) : Bool := path.toList.head? = some '/'

/-- Leaves out parts without meaning at the end of a path.  The parts are given last first,
and the first part of the path always stays. -/
def trimEnd : List Part → List Part
  | [] => []
  | [first] => [first]
  | last :: before =>
    if last = [] ∨ last = ['.'] then trimEnd before else last :: before

/-- The parts of a path up to the last one that has a meaning, last first. -/
def significant (path : String) : List Part := trimEnd (parts path).reverse

/-- The text of a path from its parts, last first. -/
def render (absolute : Bool) (reversed : List Part) : String :=
  if absolute ∧ reversed.length ≤ 1 then "/"
  else String.ofList (['/'].intercalate reversed.reverse)

/-- The name of the file that a path leads to. -/
def fileName? (path : String) : Option Part :=
  match significant path with
  | [] => none
  | [first] => if first = [] ∨ first = ['.'] ∨ first = ['.', '.'] then none else some first
  | last :: _ => if last = ['.', '.'] then none else some last

/-- The path without its last part.  The root and the empty path have no parent. -/
def parent? (path : String) : Option String :=
  match significant path with
  | [] => none
  | [first] => if first = [] then none else some ""
  | _ :: before => some (render (isAbsolute path) (trimEnd before))

/-- Goes on from a path; an absolute path stands for itself. -/
def join (base path : String) : String :=
  if isAbsolute path ∨ base.isEmpty then path
  else if base.toList.getLast? = some '/' then base ++ path
  else base ++ "/" ++ path

/-- The path with another file name in place of its own. -/
def withFileName (path name : String) : String :=
  match fileName? path with
  | none => join path name
  | some _ => join ((parent? path).getD path) name

/-! ## Stems and extensions -/

/-- What stands before and after the last dot of a name. -/
def splitLastDot? (name : Part) : Option (Part × Part) :=
  let after := (name.reverse.takeWhile (· ≠ '.')).reverse
  if after.length = name.length then none
  else some (name.take (name.length - after.length - 1), after)

/-- The name without its last extension.  A dot at the start begins no extension. -/
def stem (name : Part) : Part :=
  match splitLastDot? name with
  | some (before, _) => if before = [] ∨ name = ['.', '.'] then name else before
  | none => name

/-- Whether a part names a file. -/
def isFileName (part : Part) : Bool := part ≠ [] ∧ part ≠ ['.'] ∧ part ≠ ['.', '.']

/-- The name without the letters of its last extension; the dot stays. -/
def withoutExtension (name : Part) : Part :=
  match splitLastDot? name with
  | some (before, _) => if before = [] then name else before ++ ['.']
  | none => name

/-- The name with an extension in place of its last one.  If what is left without the old
extension is no name of a file, it takes no new one: `..b` gives `..`. -/
def withExtension (name extension : Part) : Part :=
  let kept := withoutExtension name
  if isFileName kept then stem kept ++ '.' :: extension else kept

end MidiScore.Path
