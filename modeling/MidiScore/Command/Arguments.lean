/-!
# Arguments

The arguments of the command are options, the name of a subcommand, and what belongs to the
subcommand.  They are read from left to right, first those in front of the name and then those
after it.

* A long option is `--name`, with a value `--name=value` or `--name value`.
* Short options may be joined: `-vc path` is `-v -c path`.  A value may follow at once, also
  after an equals sign.
* The value of an option does not begin with a dash, unless it follows at once; a dash alone
  is a value.
* After `--` come no more options.

The general options stand on either side of the name.  On one side an option is given at most
once; if `--config` is given on both, the one after the name counts.

In place of a subcommand `help` may stand, alone or with the name of one.
-/

namespace MidiScore.Arguments

/-! ## Options -/

/-- The options of the command. -/
inductive Flag where
  | config
  | verbose
  | version
  | help
  | output
  | noValidate
  | parallel
  | pretty
  deriving DecidableEq, Repr

namespace Flag

/-- The long name. -/
def long : Flag → List Char
  | .config => "config".toList
  | .verbose => "verbose".toList
  | .version => "version".toList
  | .help => "help".toList
  | .output => "output".toList
  | .noValidate => "no-validate".toList
  | .parallel => "parallel".toList
  | .pretty => "pretty".toList

/-- The short name. -/
def short? : Flag → Option Char
  | .config => some 'c'
  | .verbose => some 'v'
  | .version => some 'V'
  | .help => some 'h'
  | .output => some 'o'
  | .noValidate => none
  | .parallel => none
  | .pretty => none

/-- Whether the option has a value, which is a path. -/
def takesValue : Flag → Bool
  | .config => true
  | .output => true
  | _ => false

end Flag

/-- The subcommands. -/
inductive Subcommand where
  | compile
  | check
  | events
  | init
  | configPath
  deriving DecidableEq, Repr

namespace Subcommand

def all : List Subcommand := [.compile, .check, .events, .init, .configPath]

def name : Subcommand → String
  | .compile => "compile"
  | .check => "check"
  | .events => "events"
  | .init => "init"
  | .configPath => "config-path"

def ofName? (name : String) : Option Subcommand := all.find? (·.name = name)

/-- The options after the name of the subcommand. -/
def flags : Subcommand → List Flag
  | .compile => [.config, .verbose, .help, .output, .noValidate, .parallel]
  | .check => [.config, .verbose, .help]
  | .events => [.config, .verbose, .help, .pretty]
  | .init => [.config, .verbose, .help]
  | .configPath => [.config, .verbose, .help]

/-- Whether the subcommand works on a file. -/
def takesFile : Subcommand → Bool
  | .compile => true
  | .check => true
  | .events => true
  | .init => false
  | .configPath => false

end Subcommand

/-- The options in front of the name of the subcommand. -/
def generalFlags : List Flag := [.config, .verbose, .version, .help]

/-! ## Reading one side -/

/-- Why reading ends early. -/
inductive Stop where
  /-- The arguments make no sense. -/
  | usage
  | version
  | help
  deriving DecidableEq, Repr

/-- What was given on one side of the name. -/
structure Given where
  flags : List (Flag × String) := []
  file : Option String := none
  deriving Repr

namespace Given

def has (given : Given) (flag : Flag) : Bool := (given.flags.lookup flag).isSome

def value? (given : Given) (flag : Flag) : Option String := given.flags.lookup flag

/-- One more option.  It must be new, and a path is not empty. -/
def add (given : Given) (flag : Flag) (value : String) : Except Stop Given :=
  if given.has flag ∨ (flag.takesValue ∧ value.isEmpty) then .error .usage
  else .ok { given with flags := given.flags ++ [(flag, value)] }

/-- An option without a value.  Some of them end the reading. -/
def raise (given : Given) : Flag → Except Stop Given
  | .version => .error .version
  | .help => .error .help
  | flag => given.add flag ""

/-- The file. -/
def setFile (given : Given) (takesFile : Bool) (path : String) : Except Stop Given :=
  if takesFile ∧ given.file.isNone ∧ !path.isEmpty then .ok { given with file := some path }
  else .error .usage

end Given

/-- What was given so far, and the option whose value comes next. -/
abbrev Progress := Given × Option Flag

/-- A long option, without its dashes. -/
def readLong (allowed : List Flag) (given : Given) (text : List Char) : Except Stop Progress :=
  let name := text.takeWhile (· ≠ '=')
  match allowed.find? (·.long = name), text.drop name.length with
  | none, _ => .error .usage
  | some flag, [] =>
    if flag.takesValue then
      if given.has flag then .error .usage else .ok (given, some flag)
    else (given.raise flag).map (·, none)
  | some flag, _ :: value =>
    if flag.takesValue then (given.add flag (String.ofList value)).map (·, none)
    else .error .usage

/-- Short options, without their dash. -/
def readShort (allowed : List Flag) : Given → List Char → Except Stop Progress
  | given, [] => .ok (given, none)
  | given, c :: rest =>
    match allowed.find? (·.short? = some c) with
    | none => .error .usage
    | some flag =>
      if flag.takesValue then
        match rest with
        | [] => if given.has flag then .error .usage else .ok (given, some flag)
        | '=' :: value => (given.add flag (String.ofList value)).map (·, none)
        | value => (given.add flag (String.ofList value)).map (·, none)
      else do
        let given ← given.raise flag
        readShort allowed given rest

/-- Whether an argument is written as an option. -/
def isDashed (text : String) : Bool :=
  match text.toList with
  | '-' :: _ :: _ => true
  | _ => false

/-- An argument that is written as an option. -/
def readDashed (allowed : List Flag) (given : Given) (text : String) : Except Stop Progress :=
  match text.toList with
  | '-' :: '-' :: name => readLong allowed given name
  | _ :: names => readShort allowed given names
  | [] => .error .usage

/-- Files after `--`. -/
def readFiles (takesFile : Bool) : Given → List String → Except Stop Given
  | given, [] => .ok given
  | given, path :: rest => do
    let given ← given.setFile takesFile path
    readFiles takesFile given rest

/-- The arguments after the name of a subcommand. -/
def readInner (subcommand : Subcommand) : Progress → List String → Except Stop Given
  | (given, none), [] => .ok given
  | (_, some _), [] => .error .usage
  | (given, some flag), text :: rest =>
    if isDashed text then .error .usage
    else do
      let given ← given.add flag text
      readInner subcommand (given, none) rest
  | (given, none), text :: rest =>
    if text = "--" then readFiles subcommand.takesFile given rest
    else if isDashed text then do
      let progress ← readDashed subcommand.flags given text
      readInner subcommand progress rest
    else do
      let given ← given.setFile subcommand.takesFile text
      readInner subcommand (given, none) rest

/-- What follows from asking for help with the given arguments. -/
def readHelp : List String → Stop
  | [] => .help
  | [topic] => if topic = "help" ∨ (Subcommand.ofName? topic).isSome then .help else .usage
  | _ => .usage

/-- The arguments up to the name of the subcommand, the subcommand, and the arguments after
it. -/
def readOuter : Progress → List String → Except Stop (Given × Subcommand × List String)
  | _, [] => .error .usage
  | (given, some flag), text :: rest =>
    if isDashed text then .error .usage
    else do
      let given ← given.add flag text
      readOuter (given, none) rest
  | (given, none), text :: rest =>
    match Subcommand.ofName? text with
    | some subcommand => .ok (given, subcommand, rest)
    | none =>
      if text = "help" then .error (readHelp rest)
      else if text ≠ "--" ∧ isDashed text then do
        let progress ← readDashed generalFlags given text
        readOuter progress rest
      else .error .usage

/-! ## Invocations -/

/-- What the command is asked to do. -/
inductive Task where
  | compile (file : String) (output : Option String) (validate parallel : Bool)
  | check (file : String)
  | events (file : String) (pretty : Bool)
  | init
  | configPath
  deriving DecidableEq, Repr

/-- A task with the general options. -/
structure Invocation where
  task : Task
  config : Option String := none
  verbose : Bool := false
  deriving DecidableEq, Repr

/-- The task of a subcommand.  A missing file is an error. -/
def Given.task (given : Given) (subcommand : Subcommand) : Except Stop Task :=
  match subcommand, given.file with
  | .compile, some file =>
    .ok (.compile file (given.value? .output) (!given.has .noValidate) (given.has .parallel))
  | .check, some file => .ok (.check file)
  | .events, some file => .ok (.events file (given.has .pretty))
  | .init, _ => .ok .init
  | .configPath, _ => .ok .configPath
  | _, none => .error .usage

/-- Reads the arguments of the command. -/
def parse (arguments : List String) : Except Stop Invocation := do
  let (outer, subcommand, rest) ← readOuter ({}, none) arguments
  let inner ← readInner subcommand ({}, none) rest
  let task ← inner.task subcommand
  return {
    task
    config := (inner.value? .config).or (outer.value? .config)
    verbose := outer.has .verbose || inner.has .verbose }

/-- What is shown to a user who asks for help, or whose arguments make no sense. -/
def usageText : String :=
"Compile music descriptions into Standard MIDI Files

Usage: scorec [OPTIONS] <COMMAND>

Commands:
  compile      Compile a music file into a .mid file
  check        Check a music file without compiling it
  events       Print the compiled event streams as JSON
  init         Create a default configuration file
  config-path  Show the configuration file path

Options:
  -c, --config <CONFIG>  Config file path (default: ~/.config/scorec/config.toml)
  -v, --verbose          Log debug output
  -h, --help             Print help
  -V, --version          Print version
"

/-- What is shown to a user who asks for the version. -/
def versionText : String := "scorec 0.1.0\n"

end MidiScore.Arguments
