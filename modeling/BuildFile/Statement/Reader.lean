import BuildFile.Statement
import BuildFile.Template.Reader

/-! # Reading statements and blocks

Statements stand on unindented lines and the definitions of a block on indented ones.
Blank lines and comment lines are skipped in both.
-/

namespace BuildFile

open Scan

namespace Binding

/-- Read the `= value` of a definition and the end of its line. -/
def readValue (name : Name) : Scan Binding := do
  byte Byte.equals .assignment
  spaces
  let value ← Template.read .value
  endOfLine
  return ⟨name, value⟩

/-- Read the definition of a variable. -/
def read : Scan Binding := do
  let name ← identifier
  spaces
  readValue name

/-- Skip the blank lines and comment lines of a block, and the spaces in front of its next
    definition. Tells whether there is one. -/
def skipLines (input : Bytes) : Result Bool :=
  match input with
  | [] => .done false []
  | b :: rest =>
      if b = Byte.space then
        match _hindented : rest.dropWhile Byte.isSpace with
        | [] => .done true []
        | c :: line =>
            if c = Byte.newline then skipLines line
            else if c = Byte.hash then
              match _hcomment : comment line with
              | .failed expected after => .failed expected after
              | .done _ after => skipLines after
            else .done true (c :: line)
      else .done false (b :: rest)
termination_by input.length
decreasing_by
  all_goals
    have dropped := (List.dropWhile_suffix (l := rest) Byte.isSpace).length_le
    rw [_hindented, List.length_cons] at dropped
  · simp only [List.length_cons]
    omega
  · have shorter := consumes_comment _hcomment
    simp only [List.length_cons]
    omega

/-- Read the next definition of a block, if the block goes on. -/
def readNext : Scan (Option Binding) := do
  if ← skipLines then some <$> read
  else return none

end Binding

namespace BuildLine

/-- Read the inputs behind a single `|`. Two of them are left unread. -/
def readImplicitInputs : Scan (List Template)
  | [] => .done [] []
  | b :: rest =>
      if b = Byte.pipe ∧ rest.head? ≠ some Byte.pipe then Template.readPaths rest
      else .done [] (b :: rest)

/-- Read the inputs behind `||`. -/
def readOrderOnlyInputs : Scan (List Template)
  | [] => .done [] []
  | b :: rest =>
      if b = Byte.pipe then (do byte Byte.pipe .buildInputs; Template.readPaths) rest
      else .done [] (b :: rest)

/-- Read what follows the keyword of a build line. -/
def read : Scan BuildLine := do
  let outputs ← Template.readPaths
  byte Byte.colon .buildColon
  spaces
  let rule ← identifier
  let explicitInputs ← Template.readPaths
  let implicitInputs ← readImplicitInputs
  let orderOnlyInputs ← readOrderOnlyInputs
  endOfLine
  return { rule, outputs, explicitInputs, implicitInputs, orderOnlyInputs }

end BuildLine

namespace Statement

/-- Read what follows the keyword of a rule line. -/
def readRuleLine : Scan Name := do
  let name ← identifier
  spaces
  endOfLine
  return name

/-- Read what follows the keyword of a default line. -/
def readDefaultLine : Scan Template := do
  let path ← Template.readTarget
  spaces
  endOfLine
  return path

/-- Read the rest of a statement that starts with a given word. -/
def readAfter (word : Name) : Scan Statement :=
  if word = Keyword.build then .build <$> BuildLine.read
  else if word = Keyword.rule then .rule <$> readRuleLine
  else if word = Keyword.default then .default <$> readDefaultLine
  else .assignment <$> Binding.readValue word

/-- Read a statement whose first byte comes next. -/
def read : Scan Statement := do
  let word ← identifier
  spaces
  readAfter word

/-- Skip empty lines and unindented comment lines. -/
def skipLines (input : Bytes) : Result Unit :=
  match input with
  | [] => .done () []
  | b :: rest =>
      if b = Byte.newline then skipLines rest
      else if b = Byte.hash then
        match _hcomment : comment rest with
        | .failed expected after => .failed expected after
        | .done _ after => skipLines after
      else .done () (b :: rest)
termination_by input.length
decreasing_by
  · simp
  · have shorter := consumes_comment _hcomment
    simp only [List.length_cons]
    omega

/-- Read the next statement, if there is one. Its block is not read. -/
def readNext : Scan (Option Statement) := do
  skipLines
  if ← atEnd then return none
  else some <$> read

end Statement

end BuildFile
