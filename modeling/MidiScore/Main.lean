import MidiScore.Command.Run
import MidiScore.Command.Standard

/-!
# The command on the real file system

`ioHost` offers the files and the outlets of the system to the command, and `main` runs it.
-/

namespace MidiScore

/-- What the system means by an error. -/
def SystemError.ofIO : IO.Error → SystemError
  | .noFileOrDirectory .. => .notFound
  | .alreadyExists .. => .exists
  | error => .other (toString error)

/-- An action of the system, with its error as a value. -/
def catchSystem {α : Type} (action : IO α) : IO (Except SystemError α) := do
  match ← action.toBaseIO with
  | .ok value => return .ok value
  | .error error => return .error (.ofIO error)

/-- Prints to an outlet of the system. -/
def printTo (outlet : Outlet) (text : String) : IO Unit := do
  let stream ← match outlet with
    | .out => IO.getStdout
    | .err => IO.getStderr
  stream.putStr text
  stream.flush

/-- The files and outlets of the system. -/
def ioHost : Host IO where
  read path := catchSystem do return (← IO.FS.readBinFile path).data.toList
  write path bytes := catchSystem (IO.FS.writeBinFile path ⟨bytes.toArray⟩)
  createDirectories path := catchSystem (IO.FS.createDirAll path)
  print outlet text := catchSystem (printTo outlet text)

/-- The directory for settings of all programs. -/
def configHome : IO (Option String) := do
  match ← IO.getEnv "XDG_CONFIG_HOME" with
  | some directory =>
    if Path.isAbsolute directory then return some directory
    else return (← IO.getEnv "HOME").map (Path.join · ".config")
  | none => return (← IO.getEnv "HOME").map (Path.join · ".config")

end MidiScore

open MidiScore in
/-- Runs the command. -/
def main (arguments : List String) : IO UInt32 := do
  let environment : Command.Environment :=
    { configHome := ← configHome, logFilter := ← IO.getEnv "RUST_LOG" }
  let status ← Command.run ioHost .standard environment arguments
  return UInt32.ofNat status
