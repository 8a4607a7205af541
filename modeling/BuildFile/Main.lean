import BuildFile.CommandLine.Run

/-! # The program

The program understands its arguments, looks at the disk, and prints what a run leaves
behind.
-/

namespace BuildFile

namespace CommandLine

/-- The bytes of an argument. -/
def argumentBytes (argument : String) : Bytes :=
  argument.toUTF8.toList

/-- The path of given bytes. -/
def pathText (path : Bytes) : String :=
  (String.fromUTF8? ⟨path.toArray⟩).getD ""

/-- The number of an error of the system, which some functions report negated. -/
def errorNumber (code : UInt32) : Nat :=
  if code < 0x80000000 then code.toNat else (-code).toNat

/-- The number and the description of an error of the system. -/
def systemError : IO.Error → Nat × String
  | .alreadyExists _ code details => (errorNumber code, details)
  | .otherError code details => (errorNumber code, details)
  | .resourceBusy code details => (errorNumber code, details)
  | .resourceVanished code details => (errorNumber code, details)
  | .unsupportedOperation code details => (errorNumber code, details)
  | .hardwareFault code details => (errorNumber code, details)
  | .unsatisfiedConstraints code details => (errorNumber code, details)
  | .illegalOperation code details => (errorNumber code, details)
  | .protocolError code details => (errorNumber code, details)
  | .timeExpired code details => (errorNumber code, details)
  | .interrupted _ code details => (errorNumber code, details)
  | .noFileOrDirectory _ code details => (errorNumber code, details)
  | .invalidArgument _ code details => (errorNumber code, details)
  | .permissionDenied _ code details => (errorNumber code, details)
  | .resourceExhausted _ code details => (errorNumber code, details)
  | .inappropriateType _ code details => (errorNumber code, details)
  | .noSuchThing _ code details => (errorNumber code, details)
  | .unexpectedEof => (0, "unexpected end of file")
  | .userError details => (0, details)

/-- An error of the system as a cause. -/
def toIoError (error : IO.Error) : IoError :=
  match systemError error with
  | (2, _) => .noSuchFile
  | (20, _) => .notADirectory
  | (21, _) => .isADirectory
  | (36, _) => .nameTooLong
  | (number, description) => .other number (argumentBytes description)

/-- The content of a file on disk. -/
def readDisk (path : String) : IO (Except IoError Bytes) := do
  try
    let content ← IO.FS.readBinFile path
    return .ok content.toList
  catch error => return .error (toIoError error)

/-- Look whether a directory can be entered: it can if it is there but cannot be read as a
    file. -/
def enterDisk (directory : String) : IO (Except IoError Unit) := do
  if directory.isEmpty then return .error .noSuchFile
  match ← readDisk (directory ++ "/.") with
  | .ok _ | .error .isADirectory => return .ok ()
  | .error error => return .error error

/-- The path of a file as seen from where the program was started. -/
def pathFrom (directory file : String) : String :=
  if file.isEmpty || file.startsWith "/" then file else directory ++ "/" ++ file

/-- Run with the files on disk. -/
def runOnDisk (options : Options) : IO Outcome := do
  let file := pathText options.file
  match options.directory with
  | none => return options.runTool (← readDisk file)
  | some directory =>
      match ← enterDisk (pathText directory) with
      | .error error => return options.notEntered directory error
      | .ok _ => return options.runTool (← readDisk (pathFrom (pathText directory) file))

end CommandLine

end BuildFile

open BuildFile.CommandLine in
def main (arguments : List String) : IO UInt32 := do
  let outcome ← match Options.ofArguments (arguments.map argumentBytes) with
    | .error error => pure (misused error)
    | .ok options => runOnDisk options
  (← IO.getStdout).write ⟨outcome.output.toArray⟩
  (← IO.getStderr).write ⟨outcome.errors.toArray⟩
  return outcome.status.toUInt32
