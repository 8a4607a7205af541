import BuildFile.Diagnostic
import BuildFile.Document

/-! # From declarations to a manifest

The declarations of a file are evaluated one after another. Variables and paths take their
values from the variables defined before them; blocks are kept as they are. Each
declaration gives one entry, and a manifest is what its entries say.
-/

namespace BuildFile

/-- A declaration with its variables and paths evaluated. -/
inductive Entry where
  | global (name : Name) (value : Bytes)
  | rule (rule : Rule)
  | build (build : Build)
  | default (path : Bytes)
  deriving Repr, DecidableEq

/-- Evaluate paths in an environment. -/
def Template.evaluateAll (paths : List Template) (env : Environment) : List Bytes :=
  paths.map (·.evaluate env)

/-- Evaluate the paths of a build line, and add its block. -/
def BuildLine.evaluate (line : BuildLine) (block : List Binding) (env : Environment) : Build where
  rule := line.rule
  outputs := Template.evaluateAll line.outputs env
  explicitInputs := Template.evaluateAll line.explicitInputs env
  implicitInputs := Template.evaluateAll line.implicitInputs env
  orderOnlyInputs := Template.evaluateAll line.orderOnlyInputs env
  bindings := block

/-- Evaluate a declaration in the variables defined before it. -/
def Declaration.evaluate (declaration : Declaration) (env : Environment) : Entry :=
  match declaration.statement with
  | .assignment binding => .global binding.name (binding.template.evaluate env)
  | .rule name => .rule { name, bindings := declaration.block }
  | .build line => .build (line.evaluate declaration.block env)
  | .default path => .default (path.evaluate env)

namespace Entry

/-- The variable that an entry defines. -/
def global? : Entry → Option (Name × Bytes)
  | .global name value => some (name, value)
  | .rule _ | .build _ | .default _ => none

/-- The rule that an entry adds. -/
def rule? : Entry → Option Rule
  | .rule added => some added
  | .global _ _ | .build _ | .default _ => none

/-- The build that an entry adds. -/
def build? : Entry → Option Build
  | .build added => some added
  | .global _ _ | .rule _ | .default _ => none

/-- The default target that an entry adds. -/
def default? : Entry → Option Bytes
  | .default path => some path
  | .global _ _ | .rule _ | .build _ => none

/-- The variables known behind an entry. -/
def extend (env : Environment) : Entry → Environment
  | .global name value => env.define name value
  | .rule _ | .build _ | .default _ => env

end Entry

/-- Evaluate declarations in order, each in the variables defined before it. -/
def Declaration.evaluateAll (env : Environment) : List Declaration → List Entry
  | [] => []
  | declaration :: rest =>
      let entry := declaration.evaluate env
      entry :: evaluateAll (entry.extend env) rest

namespace Manifest

/-- The manifest of a list of entries. -/
def ofEntries (entries : List Entry) : Manifest where
  globals := entries.filterMap (·.global?)
  rules := entries.filterMap (·.rule?)
  builds := entries.filterMap (·.build?)
  defaults := entries.filterMap (·.default?)

/-- Add what a declaration says. Values and paths are evaluated in the variables so far. -/
def declare (manifest : Manifest) (declaration : Declaration) : Manifest :=
  let env := manifest.globals
  match declaration.statement with
  | .assignment binding =>
      { manifest with globals := env.define binding.name (binding.template.evaluate env) }
  | .rule name =>
      { manifest with rules := manifest.rules ++ [{ name, bindings := declaration.block }] }
  | .build line =>
      { manifest with builds := manifest.builds ++ [line.evaluate declaration.block env] }
  | .default path => { manifest with defaults := manifest.defaults ++ [path.evaluate env] }

/-- Put the content of one manifest behind that of another. -/
def append (first second : Manifest) : Manifest where
  globals := first.globals ++ second.globals
  rules := first.rules ++ second.rules
  builds := first.builds ++ second.builds
  defaults := first.defaults ++ second.defaults

/-- Go on with a manifest by what a further text declares. The variables of the manifest
    are known to the text. -/
def extend (manifest : Manifest) (text : Bytes) : Except ParseError Manifest :=
  let document := Document.read text
  match document.failure with
  | some failure => .error (.of text failure.expected failure.rest)
  | none =>
      let entries := Declaration.evaluateAll manifest.globals document.declarations
      .ok (manifest.append (ofEntries entries))

/-- Read the text of a build file. -/
def parse (text : Bytes) : Except ParseError Manifest :=
  extend {} text

@[simp]
theorem nil_append (manifest : Manifest) : append {} manifest = manifest := rfl

theorem ofEntries_append (first second : List Entry) :
    ofEntries (first ++ second) = (ofEntries first).append (ofEntries second) := by
  simp [ofEntries, append]

end Manifest

end BuildFile
