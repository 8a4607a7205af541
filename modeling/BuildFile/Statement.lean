import BuildFile.Manifest

/-! # Statements

A build file is a sequence of statements. A statement is what one unindented line says;
the lines that follow a rule or a build, indented, form its block.
-/

namespace BuildFile

/-- A build line: what is made, by which rule and from what. -/
structure BuildLine where
  rule : Name
  outputs : List Template
  explicitInputs : List Template
  implicitInputs : List Template
  orderOnlyInputs : List Template
  deriving Repr, DecidableEq

/-- One unindented line of a build file. -/
inductive Statement where
  /-- The definition of a global variable. -/
  | assignment (binding : Binding)
  /-- The head of a rule. -/
  | rule (name : Name)
  /-- The head of a build. -/
  | build (line : BuildLine)
  /-- A target that is built if none is asked for. -/
  | default (path : Template)
  deriving Repr, DecidableEq

/-- Whether the indented lines that follow belong to the statement. -/
def Statement.opensBlock : Statement → Bool
  | .rule _ | .build _ => true
  | .assignment _ | .default _ => false

/-- A statement with the block that belongs to it. Where a statement opens no block, the
    block is empty. -/
structure Declaration where
  statement : Statement
  block : List Binding
  deriving Repr, DecidableEq

namespace Keyword

def build : Name := ascii "build"
def rule : Name := ascii "rule"
def default : Name := ascii "default"

end Keyword

end BuildFile
