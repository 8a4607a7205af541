import BuildFile.Bytes

/-! # The options of the command line

Options may stand before, between and behind the targets, up to an argument `--`, behind
which all are targets. The value of an option stands directly behind its letter, with or
without equals signs, or is the next argument, unless that is an option itself. The tool and
the build file have defaults, and their options may stand without a value.
-/

namespace BuildFile

namespace CommandLine

/-- What the arguments ask for. -/
structure Options where
  /-- The name of the tool to run. -/
  tool : Bytes := ascii "manifest"
  /-- The build file to read. -/
  file : Bytes := ascii "build.ninja"
  /-- The directory to change to before anything else. -/
  directory : Option Bytes := none
  /-- Whether to tell what is being done. -/
  debug : Bool := false
  /-- The targets to look up. -/
  targets : List Bytes := []
  deriving Repr, DecidableEq

/-- Why the arguments cannot be understood. -/
inductive UsageError where
  | unknownOption (argument : Bytes)
  | missingValue (option : Bytes)
  deriving Repr, DecidableEq

def UsageError.message : UsageError → Bytes
  | .unknownOption argument => ascii "Unknown option " ++ argument
  | .missingValue option => ascii "Missing value of option " ++ option

/-- What an argument is by its own spelling, wherever it stands. -/
inductive Argument where
  /-- The argument `--`, behind which there are no options. -/
  | separator
  /-- An option by name. What follows an equals sign has no meaning and is left out. -/
  | named (name : Bytes)
  /-- An option by letter, and what stands behind the letter. -/
  | lettered (letter : UInt8) (attached : Bytes)
  /-- Anything else, also the empty argument and a hyphen alone. -/
  | plain
  deriving Repr, DecidableEq

namespace Argument

/-- The name in an option, however many hyphens lead it in. -/
def nameIn (argument : Bytes) : Bytes :=
  (argument.dropWhile (· == Byte.hyphen)).takeWhile (· != Byte.equals)

def ofBytes (argument : Bytes) : Argument :=
  match argument with
  | first :: second :: rest =>
      if first != Byte.hyphen then .plain
      else if second != Byte.hyphen then .lettered second rest
      else if rest.isEmpty then .separator
      else .named (nameIn rest)
  | _ => .plain

/-- The value in what stands behind the letter of an option. -/
def valueIn (attached : Bytes) : Bytes :=
  attached.dropWhile (· == Byte.equals)

end Argument

/-- What an option by letter sets. -/
inductive Setting where
  | tool
  | file
  | directory
  deriving Repr, DecidableEq

namespace Setting

def ofLetter? (letter : UInt8) : Option Setting :=
  if letter = 't'.toUInt8 then some .tool
  else if letter = 'f'.toUInt8 then some .file
  else if letter = 'C'.toUInt8 then some .directory
  else none

/-- Whether there is a value to fall back on when none is given. -/
def hasDefault : Setting → Bool
  | .tool => true
  | .file => true
  | .directory => false

end Setting

namespace Options

def set (options : Options) (value : Bytes) : Setting → Options
  | .tool => { options with tool := value }
  | .file => { options with file := value }
  | .directory => { options with directory := some value }

/-- Add a target behind the others. -/
def addTarget (options : Options) (target : Bytes) : Options :=
  { options with targets := options.targets ++ [target] }

/-- Take one argument after another into account. -/
def addArguments (options : Options) : List Bytes → Except UsageError Options
  | [] => .ok options
  | argument :: rest =>
      match Argument.ofBytes argument with
      | .separator => .ok (rest.foldl addTarget options)
      | .plain => addArguments (options.addTarget argument) rest
      | .named name =>
          if name = ascii "debug" then addArguments { options with debug := true } rest
          else .error (.unknownOption argument)
      | .lettered letter attached =>
          match Setting.ofLetter? letter with
          | none => .error (.unknownOption argument)
          | some setting =>
              if !attached.isEmpty then
                addArguments (options.set (Argument.valueIn attached) setting) rest
              else
                match rest with
                | [] => if setting.hasDefault then .ok options else .error (.missingValue argument)
                | next :: others =>
                    if Argument.ofBytes next = .plain then
                      addArguments (options.set next setting) others
                    else if setting.hasDefault then addArguments options (next :: others)
                    else .error (.missingValue argument)

/-- Understand the arguments of the command line. -/
def ofArguments (arguments : List Bytes) : Except UsageError Options :=
  addArguments {} arguments

end Options

end CommandLine

end BuildFile
