import BuildFile.FileTree
import BuildFile.Manifest.Parse
import BuildFile.Text.Quoted

/-! # Reading a build file

A build file can be missing, or malformed. Either error names the file.
-/

namespace BuildFile

/-- Why no manifest can be had from a file. -/
inductive ReadError where
  | unreadable (file : Bytes) (error : IoError)
  | malformed (file : Bytes) (diagnostic : Diagnostic)
  deriving Repr, DecidableEq

namespace ReadError

def message : ReadError → Formatted
  | .unreadable file error =>
      .whole (ascii "Unable to read " ++ quoted .text file ++ ascii ": " ++ error.message)
  | .malformed file diagnostic => diagnostic.message.behind (Utf8.shown file ++ ascii ": ")

/-- The message of the error that lies behind this one. -/
def cause : ReadError → Formatted
  | .unreadable _ error => .whole error.message
  | .malformed _ diagnostic => diagnostic.message

end ReadError

namespace Manifest

/-- Read the text of a build file, with a diagnostic if that fails. -/
def readText (text : Bytes) : Except Diagnostic Manifest :=
  (parse text).mapError (·.diagnostic text)

/-- Read a build file, given by its name and by what came of opening it. -/
def read (file : Bytes) (content : Except IoError Bytes) : Except ReadError Manifest := do
  let text ← content.mapError (.unreadable file)
  (readText text).mapError (.malformed file)

end Manifest

end BuildFile
