import BuildFile.Scope.Expansion

/-! # Edges

An edge is a build with its rule applied: its block is evaluated, and the command and the
description of the rule are expanded for its paths. Resolving a manifest turns all its
builds into edges, or says which is the first that has none.
-/

namespace BuildFile

namespace Keyword

def phony : Name := ascii "phony"
def command : Name := ascii "command"
def description : Name := ascii "description"

end Keyword

/-- What is run to make the outputs of an edge. -/
structure Recipe where
  /-- The command, with its paths quoted for a shell. -/
  command : Bytes
  /-- What to show while the command runs. -/
  description : Bytes
  deriving Repr, DecidableEq

/-- A build with its rule applied. -/
structure Edge where
  rule : Name
  outputs : List Bytes
  explicitInputs : List Bytes
  implicitInputs : List Bytes
  orderOnlyInputs : List Bytes
  /-- There is nothing to run for a phony edge. -/
  recipe : Option Recipe
  deriving Repr, DecidableEq

/-- An edge that only gives its inputs a name. -/
def Edge.isPhony (edge : Edge) : Bool :=
  edge.recipe.isNone

/-- Why a manifest cannot be resolved. -/
inductive ResolveError where
  | undefinedRule (name : Name)
  | duplicateRule (name : Name)
  /-- The build at an index, counted from zero, makes nothing. -/
  | noOutputs (index : Nat)
  | expansion (error : ExpansionError)
  deriving Repr, DecidableEq

namespace ResolveError

def message : ResolveError → Bytes
  | .undefinedRule name => ascii "Undefined rule name: " ++ name
  | .duplicateRule name => ascii "Duplicate rule: " ++ name
  | .noOutputs index => ascii "Build definition #" ++ decimal (index + 1) ++ ascii " has no outputs"
  | .expansion error => error.message

/-- The message of the error that lies behind this one. -/
def cause? : ResolveError → Option Bytes
  | .expansion error => some error.message
  | .undefinedRule _ | .duplicateRule _ | .noOutputs _ => none

end ResolveError

/-- The first name that occurs among the seen ones or earlier in the list. -/
def firstRepeated? (seen : List Name) : List Name → Option Name
  | [] => none
  | name :: rest => if name ∈ seen then some name else firstRepeated? (name :: seen) rest

@[simp]
theorem firstRepeated?_nil (seen : List Name) : firstRepeated? seen [] = none := rfl

theorem firstRepeated?_cons (seen : List Name) (name : Name) (rest : List Name) :
    firstRepeated? seen (name :: rest) =
      if name ∈ seen then some name else firstRepeated? (name :: seen) rest := rfl

/-- Define one more variable of a block. It is expanded in the ones before it, and where they do
    not know a name, in the global ones. -/
def Environment.addBinding (globals values : Environment) (binding : Binding) :
    Except ExpansionError Environment := do
  return values.define binding.name (← (Scope.ofBuild values globals).expand binding.template)

/-- The variables of the block of a build. -/
def Environment.ofBlock (globals : Environment) (block : List Binding) :
    Except ExpansionError Environment :=
  block.foldlM (addBinding globals) []

namespace Manifest

/-- The scope in which a rule is expanded for a build with a block of given values. -/
def edgeScope (manifest : Manifest) (build : Build) (block : Environment) (rule : Rule) : Scope :=
  .ofEdge build.explicitInputs build.outputs block rule.bindings manifest.globals

/-- Expand what the rule of a build runs. -/
def recipe (manifest : Manifest) (build : Build) (block : Environment) :
    Except ResolveError (Option Recipe) :=
  if build.rule = Keyword.phony then .ok none
  else
    match manifest.rule? build.rule with
    | none => .error (.undefinedRule build.rule)
    | some rule => do
        let scope := manifest.edgeScope build block rule
        let command ← (scope.expandName Keyword.command).mapError .expansion
        let description ← (scope.expandName Keyword.description).mapError .expansion
        return some { command, description }

/-- Resolve the build at an index. -/
def resolveBuild (manifest : Manifest) (build : Build) (index : Nat) : Except ResolveError Edge :=
  if build.outputs = [] then .error (.noOutputs index)
  else do
    let block ← (Environment.ofBlock manifest.globals build.bindings).mapError .expansion
    let recipe ← manifest.recipe build block
    return {
      rule := build.rule
      outputs := build.outputs
      explicitInputs := build.explicitInputs
      implicitInputs := build.implicitInputs
      orderOnlyInputs := build.orderOnlyInputs
      recipe }

/-- Resolve all builds in order. No two rules may have the same name, and none that of the
    phony rule, which is always there. -/
def resolve (manifest : Manifest) : Except ResolveError (List Edge) :=
  match firstRepeated? [Keyword.phony] (manifest.rules.map (·.name)) with
  | some name => .error (.duplicateRule name)
  | none => manifest.builds.zipIdx.mapM fun (build, index) => manifest.resolveBuild build index

end Manifest

end BuildFile
