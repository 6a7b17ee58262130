import MidiScore.Command.Host
import MidiScore.Command.Path

/-!
# File trees

A file tree is a file system in memory: files with their bytes, and directories.  A directory
exists if it was created or if something lies below it.

A path is followed part by part from the root or the working directory.  What is left behind
on the way must be a directory.  `..` leads to the directory above.  A name has at most 255
bytes, a path at most 4095, and no path holds a null character.

A `Session` is a file tree together with what was printed, and `Session.host` runs a command on it.
-/

namespace MidiScore

/-- The names that lead from the root to a file or directory. -/
abbrev Place := List String

/-- A file system in memory. -/
structure FileTree where
  files : List (Place × List UInt8) := []
  directories : List Place := []

/-- What stands at a place. -/
inductive FileNode where
  | file (bytes : List UInt8)
  | directory

namespace FileTree

/-! ## Looking up -/

/-- The bytes of the file at a place. -/
def file? (tree : FileTree) (place : Place) : Option (List UInt8) := tree.files.lookup place

/-- Whether there is a directory at a place. -/
def isDirectory (tree : FileTree) (place : Place) : Bool :=
  place.isEmpty || tree.directories.any (place.isPrefixOf ·) ||
    tree.files.any fun (file, _) => place ≠ file && place.isPrefixOf file

/-- What stands at a place. -/
def node? (tree : FileTree) (place : Place) : Option FileNode :=
  match tree.file? place with
  | some bytes => some (.file bytes)
  | none => if tree.isDirectory place then some .directory else none

/-- Why one cannot go on from a place, if it is no directory. -/
def enter (tree : FileTree) (place : Place) : Except SystemError Unit :=
  match tree.node? place with
  | none => .error .notFound
  | some (.file _) => .error .notDirectory
  | some .directory => .ok ()

/-- The most bytes of a name. -/
def longestName : Nat := 255

/-- The most bytes of a path. -/
def longestPath : Nat := 4095

/-- Follows the parts of a path.  The last part need not exist. -/
def follow (tree : FileTree) : Place → List Path.Part → Except SystemError Place
  | place, [] => .ok place
  | place, part :: rest => do
    tree.enter place
    if part = [] ∨ part = ['.'] then tree.follow place rest
    else if part = ['.', '.'] then tree.follow place.dropLast rest
    else if longestName < (String.ofList part).utf8ByteSize then .error .nameTooLong
    else tree.follow (place ++ [String.ofList part]) rest

/-- Refuses a text that can be no path. -/
def checkPath (path : String) : Except SystemError Unit :=
  if path.toList.contains '\x00' then .error .nullInPath
  else if path.isEmpty then .error .notFound
  else if longestPath < path.utf8ByteSize then .error .nameTooLong
  else .ok ()

/-- The place of a path.  The last part of the path need not exist. -/
def resolve (tree : FileTree) (working : Place) (path : String) : Except SystemError Place := do
  checkPath path
  if Path.isAbsolute path then tree.follow [] ((Path.parts path).drop 1)
  else tree.follow working (Path.parts path)

/-! ## Reading and writing files -/

/-- The bytes of the file at a path. -/
def read (tree : FileTree) (working : Place) (path : String) :
    Except SystemError (List UInt8) := do
  let place ← tree.resolve working path
  match tree.node? place with
  | none => .error .notFound
  | some .directory => .error .isDirectory
  | some (.file bytes) => .ok bytes

/-- The files after the one at a place has been replaced or added. -/
def setFile (place : Place) (bytes : List UInt8) :
    List (Place × List UInt8) → List (Place × List UInt8)
  | [] => [(place, bytes)]
  | (other, old) :: rest =>
    if other = place then (other, bytes) :: rest else (other, old) :: setFile place bytes rest

/-- A path without slashes at its end. -/
def trimSlashes (path : String) : String :=
  let trimmed := (path.toList.reverse.dropWhile (· = '/')).reverse
  if trimmed.isEmpty ∧ !path.isEmpty then "/" else String.ofList trimmed

/-- The place that a file would be written to.  A slash at the end of the path asks for a
directory. -/
def writePlace (tree : FileTree) (working : Place) (path : String) :
    Except SystemError Place := do
  checkPath path
  let trimmed := trimSlashes path
  let place ← tree.resolve working trimmed
  if trimmed ≠ path then .error .isDirectory
  else
    match tree.node? place with
    | some .directory => .error .isDirectory
    | _ =>
      tree.enter place.dropLast
      return place

/-- Writes the file at a path. -/
def write (tree : FileTree) (working : Place) (path : String) (bytes : List UInt8) :
    Except SystemError FileTree := do
  let place ← tree.writePlace working path
  return { tree with files := setFile place bytes tree.files }

/-! ## Creating directories -/

/-- Creates the directory at a path. -/
def createDirectory (tree : FileTree) (working : Place) (path : String) :
    Except SystemError FileTree := do
  checkPath path
  let place ← tree.resolve working (trimSlashes path)
  match tree.node? place with
  | some _ => .error .exists
  | none => return { tree with directories := tree.directories ++ [place] }

/-- Whether a path leads to a directory. -/
def leadsToDirectory (tree : FileTree) (working : Place) (path : String) : Bool :=
  match tree.resolve working path with
  | .ok place => tree.isDirectory place
  | .error _ => false

/-- Creates the directory at a path unless it is there. -/
def ensureDirectory (tree : FileTree) (working : Place) (path : String) :
    Except SystemError FileTree :=
  match tree.createDirectory working path with
  | .error .exists => if tree.leadsToDirectory working path then .ok tree else .error .exists
  | result => result

/-- Creates the directory at a path and those that lead to it.  What was created before an
error stays.  The fuel bounds the number of parts. -/
def createDirectories (working : Place) :
    Nat → FileTree → String → Except SystemError Unit × FileTree
  | 0, tree, _ => (.error .notFound, tree)
  | fuel + 1, tree, path =>
    if path.isEmpty then (.ok (), tree)
    else
      match tree.ensureDirectory working path with
      | .ok tree => (.ok (), tree)
      | .error .notFound =>
        match Path.parent? path with
        | none => (.error .notFound, tree)
        | some parent =>
          match createDirectories working fuel tree parent with
          | (.error error, tree) => (.error error, tree)
          | (.ok (), tree) =>
            match tree.ensureDirectory working path with
            | .ok tree => (.ok (), tree)
            | .error error => (.error error, tree)
      | .error error => (.error error, tree)

end FileTree

/-! ## Hosting the command -/

/-- A file system in memory, and what has been printed. -/
structure Session where
  tree : FileTree := {}
  out : String := ""
  err : String := ""

namespace Session

/-- One more text at an outlet. -/
def print (session : Session) (text : String) : Outlet → Session
  | .out => { session with out := session.out ++ text }
  | .err => { session with err := session.err ++ text }

/-- A session as the host of a command that runs in a working directory.  It prints everything. -/
def host (working : Place) : Host (StateM Session) where
  read path := do return (← get).tree.read working path
  write path bytes := do
    match (← get).tree.write working path bytes with
    | .ok tree =>
      modify ({ · with tree })
      return .ok ()
    | .error error => return .error error
  createDirectories path := do
    let (result, tree) :=
      FileTree.createDirectories working (path.length + 1) (← get).tree path
    modify ({ · with tree })
    return result
  print outlet text := do
    modify (·.print text outlet)
    return .ok ()

end Session

end MidiScore
