import BuildFile.Template

/-! # Manifests

A manifest is the content of a build file: its variables, rules, build edges and default
targets, each in the order of the file. Variables and paths are evaluated; what stands in
the block of a rule or of a build is kept as templates. Nothing relates the builds to the
rules yet.
-/

namespace BuildFile

/-- A variable defined in the block of a rule or of a build, not evaluated yet. -/
structure Binding where
  name : Name
  template : Template
  deriving Repr, DecidableEq

/-- The template of the first binding of a name. -/
def Binding.find? (bindings : List Binding) (name : Name) : Option Template :=
  (List.find? (·.name == name) bindings).map (·.template)

theorem Binding.find?_cons (binding : Binding) (rest : List Binding) (name : Name) :
    Binding.find? (binding :: rest) name =
      if binding.name = name then some binding.template else Binding.find? rest name := by
  by_cases h : binding.name = name <;> simp [Binding.find?, h]

/-- How to make outputs of some kind: a name and a block of variables. -/
structure Rule where
  name : Name
  bindings : List Binding
  deriving Repr, DecidableEq

/-- The template that a rule gives to a variable. -/
def Rule.binding? (rule : Rule) (name : Name) : Option Template :=
  Binding.find? rule.bindings name

/-- One edge of the build graph: the outputs that a rule makes from inputs. -/
structure Build where
  /-- The name of the rule, which need not exist. -/
  rule : Name
  outputs : List Bytes
  /-- The inputs that a command sees. -/
  explicitInputs : List Bytes
  /-- Inputs that a command does not see. -/
  implicitInputs : List Bytes
  /-- Inputs that only have to exist before the command runs. -/
  orderOnlyInputs : List Bytes
  bindings : List Binding
  deriving Repr, DecidableEq

/-- The inputs of all kinds, in the order in which they are written. -/
def Build.allInputs (build : Build) : List Bytes :=
  build.explicitInputs ++ build.implicitInputs ++ build.orderOnlyInputs

/-- The content of a build file. -/
structure Manifest where
  globals : Environment := []
  rules : List Rule := []
  builds : List Build := []
  defaults : List Bytes := []
  deriving Repr, DecidableEq

/-- The first rule of a name. -/
def Manifest.rule? (manifest : Manifest) (name : Name) : Option Rule :=
  manifest.rules.find? (·.name == name)

end BuildFile
