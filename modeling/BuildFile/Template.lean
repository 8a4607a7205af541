import BuildFile.Environment

/-! # Templates

A template is text mixed with references to variables. Values and paths of a build file
are templates: some are evaluated as soon as they are read, others wait until the
variables they refer to are known.
-/

namespace BuildFile

/-- A piece of a template. -/
inductive Part where
  /-- Text that stands for itself. -/
  | literal (text : Bytes)
  /-- A reference to a variable. -/
  | reference (name : Name)
  deriving Repr, DecidableEq

namespace Part

/-- Whether a piece holds no text or an empty name. -/
def isEmpty : Part → Bool
  | .literal text => text.isEmpty
  | .reference name => name.isEmpty

end Part

/-- Text mixed with references. Templates that are read from a file, or built by `push`,
    have no empty parts. -/
abbrev Template := List Part

namespace Template

/-- Append a part, unless it is empty. Neighbouring literals stay apart. -/
def push (template : Template) (part : Part) : Template :=
  if part.isEmpty then template else template ++ [part]

/-- Push parts one after another onto the empty template. -/
def ofParts (parts : List Part) : Template :=
  parts.foldl push []

/-- The template of a run of plain text. -/
def ofText (text : Bytes) : Template :=
  if text.isEmpty then [] else [.literal text]

/-- The names of all referenced variables, in order of appearance. -/
def references (template : Template) : List Name :=
  template.filterMap fun
    | .reference name => some name
    | .literal _ => none

/-- The text of one part, with references looked up in an environment. -/
def evaluatePart (env : Environment) : Part → Bytes
  | .literal text => text
  | .reference name => env.value name

/-- Replace every reference by the value of its variable. An unknown variable is empty. -/
def evaluate (template : Template) (env : Environment) : Bytes :=
  template.flatMap (evaluatePart env)

/-- Whether a byte of literal text has to be written behind a `$`. -/
def needsEscape (b : UInt8) : Bool :=
  b == Byte.dollar || b == Byte.space || b == Byte.colon

/-- Write literal text so that it is read back as text. -/
def escapeText (text : Bytes) : Bytes :=
  text.flatMap fun b => if needsEscape b then [Byte.dollar, b] else [b]

/-- Write one part; a reference always gets braces. -/
def writePart : Part → Bytes
  | .literal text => escapeText text
  | .reference name => [Byte.dollar, Byte.openBrace] ++ name ++ [Byte.closeBrace]

/-- Write a template the way build files do. A `|` cannot be escaped, so a template that
    holds one is read back as a value but not as a path. -/
def write (template : Template) : Bytes :=
  template.flatMap writePart

theorem ofParts_eq_filter (parts : List Part) :
    ofParts parts = parts.filter (!·.isEmpty) := by
  suffices h : ∀ template : Template,
      parts.foldl push template = template ++ parts.filter (!·.isEmpty) by
    simpa [ofParts] using h []
  induction parts with
  | nil => simp
  | cons part rest ih =>
      intro template
      rw [List.foldl_cons, ih]
      cases h : part.isEmpty <;> simp [push, h]

@[simp]
theorem evaluate_append (first second : Template) (env : Environment) :
    evaluate (first ++ second) env = first.evaluate env ++ second.evaluate env := by
  simp [evaluate]

@[simp]
theorem write_append (first second : Template) :
    write (first ++ second) = first.write ++ second.write := by
  simp [write]

end Template

end BuildFile
