/-!
# The host of the command

The command reads and writes files, and prints, through a `Host`, a record of the few operations
that it needs.  The operations may live in any monad, so the same command runs on the real file
system and on a tree of files in memory.  The system may refuse each of them.
-/

namespace MidiScore

/-- Why the system refuses an operation. -/
inductive SystemError where
  | notFound
  | exists
  | notDirectory
  | isDirectory
  /-- A name, or a whole path, of too many bytes. -/
  | nameTooLong
  /-- A path with a null character. -/
  | nullInPath
  /-- The bytes of a file are no text. -/
  | notText
  | other (text : String)
  deriving DecidableEq, Repr

namespace SystemError

/-- What the system says. -/
def message : SystemError → String
  | .notFound => "No such file or directory (os error 2)"
  | .exists => "File exists (os error 17)"
  | .notDirectory => "Not a directory (os error 20)"
  | .isDirectory => "Is a directory (os error 21)"
  | .nameTooLong => "File name too long (os error 36)"
  | .nullInPath => "file name contained an unexpected NUL byte"
  | .notText => "stream did not contain valid UTF-8"
  | .other text => text

end SystemError

/-- Where a text is printed. -/
inductive Outlet where
  /-- The output, for what was asked for. -/
  | out
  /-- The error output, for everything else. -/
  | err
  deriving DecidableEq, Repr

/-- The operations that the command needs. -/
structure Host (m : Type → Type) where
  /-- The bytes of a file. -/
  read : String → m (Except SystemError (List UInt8))
  /-- Replaces the bytes of a file, or creates it. -/
  write : String → List UInt8 → m (Except SystemError Unit)
  /-- Creates a directory and those that lead to it, as far as they are missing. -/
  createDirectories : String → m (Except SystemError Unit)
  /-- Prints a text. -/
  print : Outlet → String → m (Except SystemError Unit)

namespace Host

/-- The text of bytes. -/
def decodeText (bytes : List UInt8) : Except SystemError String :=
  match String.fromUTF8? ⟨bytes.toArray⟩ with
  | some text => .ok text
  | none => .error .notText

/-- The text of a file. -/
def readText {m : Type → Type} [Monad m] (host : Host m) (path : String) :
    m (Except SystemError String) := do
  let bytes ← host.read path
  return bytes.bind decodeText

end Host

end MidiScore
