import BuildFile.CommandLine.Options
import BuildFile.CommandLine.Tool
import BuildFile.Log

/-! # Running the command line

A run enters the directory asked for, reads the build file if the tool needs it, and prints
the report of the tool. Errors and, if asked for, what is being done go to the other channel
of output, in the order in which they occur.
-/

namespace BuildFile

namespace CommandLine

open Log

/-- What a run leaves behind. What the runtime adds to the errors when a program crashes is left
    out, since it names a thread. -/
structure Outcome where
  status : Nat
  output : Bytes
  errors : Bytes
  deriving Repr, DecidableEq

/-- An error that ends the program. -/
def errorRecord (message : Bytes) : Record where
  level := .error
  target := Target.program
  message := message

/-- What is told about an error that ends the program: a line, or the part of it that has been
    formatted when the program crashes. -/
def errorText : Formatted → Bytes
  | .whole message => (errorRecord message).line ++ [Byte.newline]
  | .broken written => (errorRecord written).line

/-- The status of a run that ends with a report. -/
def Report.status (report : Report) : Nat :=
  match report.problem with
  | none => 0
  | some (.whole _) => 1
  | some (.broken _) => 101

/-- The lines of the records up to a level. -/
def recordLines (level : Level) (records : List Record) : Bytes :=
  (Log.upTo level records).flatMap (·.line ++ [Byte.newline])

/-- What the run of a tool on a file tells before it ends. -/
def toolRecords (tool : Tool) (file : Bytes) (content : Except IoError Bytes) : List Record :=
  if tool.readsFile then
    match content with
    | .error _ => []
    | .ok text =>
        Log.ofRead file text ++
          match Manifest.parse text with
          | .ok manifest => if tool.resolves then Log.ofResolve manifest else []
          | .error _ => []
  else []

namespace Options

/-- The level up to which records are shown. -/
def level (options : Options) : Level :=
  if options.debug then .debug else .error

/-- What is told at the start. -/
def startRecord : Record where
  level := .debug
  target := Target.program
  message := ascii "Debug messages enabled."

/-- End a run with a report, and tell what was done before. -/
def finish (options : Options) (records : List Record) (report : Report) : Outcome where
  status := report.status
  output := report.text
  errors := recordLines options.level records ++ (report.problem.map errorText).getD []

/-- Run the tool that the options name, on a file of which it is known what came of opening
    it. -/
def runTool (options : Options) (content : Except IoError Bytes) : Outcome :=
  match Tool.ofName? options.tool with
  | none =>
      options.finish [startRecord]
        { problem := some (.whole (ascii "Unknown subtool " ++ quoted .text options.tool)) }
  | some tool =>
      let source := (Manifest.read options.file content).mapError (·.message)
      options.finish (startRecord :: toolRecords tool options.file content)
        (tool.report source options.targets)

/-- The outcome if the directory asked for cannot be entered. -/
def notEntered (options : Options) (directory : Bytes) (error : IoError) : Outcome :=
  options.finish []
    { problem := some (.whole (ascii "Unable to change directory to " ++ quoted .text directory
        ++ ascii ": " ++ error.message)) }

/-- Run in a tree of files. -/
def runIn (options : Options) (tree : FileTree) : Outcome :=
  match options.directory with
  | none => options.runTool (tree.read FileTree.root options.file)
  | some directory =>
      match tree.followToDirectory FileTree.root directory with
      | .error error => options.notEntered directory error
      | .ok place => options.runTool (tree.read place options.file)

end Options

/-- The outcome of arguments that cannot be understood. -/
def misused (error : UsageError) : Outcome where
  status := 1
  output := []
  errors := errorText (.whole error.message)

/-- Run with given arguments in a tree of files. -/
def run (arguments : List Bytes) (tree : FileTree) : Outcome :=
  match Options.ofArguments arguments with
  | .error error => misused error
  | .ok options => options.runIn tree

end CommandLine

end BuildFile
