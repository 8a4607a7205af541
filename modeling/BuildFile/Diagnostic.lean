import BuildFile.Location
import BuildFile.Scan
import BuildFile.Text.Formatted
import BuildFile.Text.Utf8

/-! # Syntax errors

A syntax error is an offset with the byte that does not fit there. A diagnostic shows it to
a reader, with its line and column and a copy of the line, unless the column is so large that
its mark cannot be formatted.
-/

namespace BuildFile

/-- A syntax error: the offset of a byte that does not fit, that byte, or none at the end of
    the text, and what was expected instead. -/
structure ParseError where
  position : Nat
  unexpected : Option UInt8
  label : Bytes
  deriving Repr, DecidableEq

namespace ParseError

/-- The error of giving up with a given rest of the text unread. -/
def of (text : Bytes) (expected : Expected) (rest : Bytes) : ParseError where
  position := text.length - rest.length
  unexpected := rest.head?
  label := expected.label

/-- Show a byte: a printable ASCII character as it is, and any other as an escape. -/
def escapeByte (b : UInt8) : Bytes :=
  if b = Byte.tab then ascii "\\t"
  else if b = Byte.carriageReturn then ascii "\\r"
  else if b = Byte.newline then ascii "\\n"
  else if b = Byte.quote ∨ b = Byte.doubleQuote ∨ b = Byte.backslash then [Byte.backslash, b]
  else if 0x20 ≤ b ∧ b < 0x7f then [b]
  else ascii "\\x" ++ hexPair b

/-- Show a byte that does not fit, or the lack of one. -/
def unexpectedText : Option UInt8 → Bytes
  | none => ascii "end of input"
  | some b => [Byte.quote] ++ escapeByte b ++ [Byte.quote]

/-- What is wrong, and where. -/
def headline (label place : Bytes) (unexpected : Option UInt8) : Bytes :=
  label ++ ascii " at " ++ place ++ ascii ": unexpected " ++ unexpectedText unexpected

/-- The error in one line. -/
def message (error : ParseError) : Bytes :=
  headline error.label (ascii "offset " ++ decimal error.position) error.unexpected

end ParseError

/-- A syntax error with its line and column, and a copy of the line. -/
structure Diagnostic where
  label : Bytes
  location : Location
  unexpected : Option UInt8
  sourceLine : Bytes
  deriving Repr, DecidableEq

/-- Look up where in a text an error is. -/
def ParseError.diagnostic (error : ParseError) (text : Bytes) : Diagnostic where
  label := error.label
  location := .of text error.position
  unexpected := error.unexpected
  sourceLine := Location.lineAt text error.position

namespace Diagnostic

/-- The error and the line, each with its newline. -/
def lines (diagnostic : Diagnostic) : Bytes :=
  ParseError.headline diagnostic.label diagnostic.location.write diagnostic.unexpected
    ++ [Byte.newline] ++ Utf8.shown diagnostic.sourceLine ++ [Byte.newline]

/-- The error, the line, and a mark under the column. Where the mark would stand too far to the
    right, nothing comes behind the line. -/
def message (diagnostic : Diagnostic) : Formatted :=
  (Formatted.indented (diagnostic.location.column - 1) (ascii "^")).behind diagnostic.lines

end Diagnostic

end BuildFile
