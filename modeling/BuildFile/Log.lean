import BuildFile.Edge
import BuildFile.Manifest.Parse
import BuildFile.Text.Quoted

/-! # The log

What the library does is told in records. A record has a level, and a reader of the log
sees the records up to a level that it chooses.
-/

namespace BuildFile

namespace Log

/-- How much a record matters; errors matter most. -/
inductive Level where
  | error
  | debug
  | trace
  deriving Repr, DecidableEq

namespace Level

def name : Level → Bytes
  | .error => ascii "ERROR"
  | .debug => ascii "DEBUG"
  | .trace => ascii "TRACE"

/-- Whether a reader who asks for records up to a level sees those of another one. -/
def shows : Level → Level → Bool
  | _, .error => true
  | .error, _ => false
  | _, .debug => true
  | .debug, .trace => false
  | .trace, .trace => true

end Level

/-- A message, with the part of the program that it comes from. -/
structure Record where
  level : Level
  target : Bytes
  message : Bytes
  deriving Repr, DecidableEq

/-- A record as a line. Errors stand without the part they come from. -/
def Record.line (record : Record) : Bytes :=
  match record.level with
  | .error => ascii "[ERROR] " ++ record.message
  | level => ascii "[" ++ level.name ++ ascii "] " ++ record.target ++ ascii ": " ++ record.message

namespace Target

def program : Bytes := ascii "ninj_manifest"
def parse : Bytes := ascii "ninj_manifest::manifest::parse"
def read : Bytes := ascii "ninj_manifest::manifest::read"
def resolve : Bytes := ascii "ninj_manifest::manifest::resolve"

end Target

end Log

open Log

/-- What is told about an entry of a manifest. -/
def Entry.record (entry : Entry) : Record where
  level := .trace
  target := Target.parse
  message :=
    match entry with
    | .global name value => ascii "Variable " ++ name ++ ascii " = " ++ Utf8.shown value
    | .rule r =>
        ascii "Rule " ++ r.name ++ ascii " with " ++ decimal r.bindings.length
          ++ ascii " bindings"
    | .build b => ascii "Build " ++ quotedList b.outputs ++ ascii " using " ++ b.rule
    | .default path => ascii "Default " ++ Utf8.shown path

/-- What is told about a manifest that has been parsed. -/
def Manifest.summary (manifest : Manifest) : Record where
  level := .debug
  target := Target.parse
  message :=
    ascii "Parsed " ++ decimal manifest.globals.length ++ ascii " variables, "
      ++ decimal manifest.rules.length ++ ascii " rules, "
      ++ decimal manifest.builds.length ++ ascii " builds, "
      ++ decimal manifest.defaults.length ++ ascii " defaults."

namespace Log

/-- What parsing a text tells: its entries, and at the end, if it is reached, a summary. -/
def ofParse (text : Bytes) : List Record :=
  let document := Document.read text
  let entries := Declaration.evaluateAll [] document.declarations
  let summary := if document.failure.isNone then [(Manifest.ofEntries entries).summary] else []
  entries.map (·.record) ++ summary

/-- What reading a file tells: its name and size, and then what parsing tells. -/
def ofRead (file text : Bytes) : List Record :=
  { level := .debug
    target := Target.read
    message :=
      ascii "Read " ++ decimal text.length ++ ascii " bytes from " ++ quoted .text file
        ++ ascii "." } :: ofParse text

/-- What resolving a manifest tells. -/
def ofResolve (manifest : Manifest) : List Record :=
  match manifest.resolve with
  | .error _ => []
  | .ok edges =>
      [{ level := .debug
         target := Target.resolve
         message := ascii "Resolved " ++ decimal edges.length ++ ascii " builds." }]

/-- What parsing a text and resolving its manifest tell. -/
def ofText (text : Bytes) : List Record :=
  ofParse text ++
    match Manifest.parse text with
    | .error _ => []
    | .ok manifest => ofResolve manifest

/-- The records that a reader sees who asks for those up to a level. -/
def upTo (level : Level) (records : List Record) : List Record :=
  records.filter (level.shows ·.level)

end Log

end BuildFile
