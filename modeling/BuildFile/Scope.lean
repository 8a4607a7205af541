import BuildFile.Manifest
import BuildFile.Shell

/-! # Scopes

A scope gives names their meaning. It consists of layers, and a name means what the first
layer that knows it says. The commands of an edge are expanded in a scope of four layers:
the paths of the edge, the variables of its block, those of its rule, and the global ones.
-/

namespace BuildFile

/-- What a name stands for. -/
inductive Meaning where
  /-- A value that is final. -/
  | value (text : Bytes)
  /-- A template whose references have to be looked up in the same scope. -/
  | template (template : Template)
  /-- Paths, to be written as words of a shell command, on one line or on a line each. -/
  | paths (paths : List Bytes) (onLines : Bool)
  deriving Repr, DecidableEq

/-- One layer of a scope. -/
inductive Layer where
  /-- The paths of an edge under the names reserved for them. -/
  | paths (inputs outputs : List Bytes)
  /-- Variables with final values. -/
  | values (env : Environment)
  /-- Variables that are templates. -/
  | templates (bindings : List Binding)
  deriving Repr, DecidableEq

namespace Keyword

def inputs : Name := ascii "in"
def inputLines : Name := ascii "in_newline"
def outputs : Name := ascii "out"

end Keyword

/-- What a layer knows about a name. -/
def Layer.meaning? (name : Name) : Layer → Option Meaning
  | .paths inputs outputs =>
      if name = Keyword.inputs then some (.paths inputs false)
      else if name = Keyword.outputs then some (.paths outputs false)
      else if name = Keyword.inputLines then some (.paths inputs true)
      else none
  | .values env => (env.value? name).map .value
  | .templates bindings => (Binding.find? bindings name).map .template

/-- Layers of definitions, the innermost first. -/
abbrev Scope := List Layer

namespace Scope

/-- What a name means: the innermost layer that knows it decides. -/
def meaning? (scope : Scope) (name : Name) : Option Meaning :=
  scope.findSome? (·.meaning? name)

/-- The scope of a file. -/
def ofFile (globals : Environment) : Scope := [.values globals]

/-- The scope of a rule on its own. -/
def ofRule (bindings : List Binding) : Scope := [.templates bindings]

/-- The scope in which the block of a build is evaluated. -/
def ofBuild (block globals : Environment) : Scope := [.values block, .values globals]

/-- The scope in which the variables of a rule are expanded for an edge. -/
def ofEdge (inputs outputs : List Bytes) (block : Environment) (rule : List Binding)
    (globals : Environment) : Scope :=
  [.paths inputs outputs, .values block, .templates rule, .values globals]

/-- The names that layers of templates bind. -/
def templateNames (scope : Scope) : List Name :=
  scope.flatMap fun
    | .templates bindings => bindings.map (·.name)
    | .paths _ _ | .values _ => []

/-- A name stands for a template only if a layer of templates binds it. -/
theorem mem_templateNames {scope : Scope} {name : Name} {template : Template}
    (h : scope.meaning? name = some (.template template)) : name ∈ scope.templateNames := by
  obtain ⟨layer, hlayer, found⟩ := List.exists_of_findSome?_eq_some h
  refine List.mem_flatMap.2 ⟨layer, hlayer, ?_⟩
  cases layer with
  | paths inputs outputs =>
      simp only [Layer.meaning?] at found
      split at found
      · simp at found
      · split at found
        · simp at found
        · split at found <;> simp at found
  | values env => simp [Layer.meaning?] at found
  | templates bindings =>
      simp only [Layer.meaning?, Binding.find?, Option.map_map, Option.map_eq_some_iff] at found
      obtain ⟨binding, hbinding, _⟩ := found
      have same := List.find?_some hbinding
      exact List.mem_map.2 ⟨binding, List.mem_of_find?_eq_some hbinding, by simpa using same⟩

end Scope

end BuildFile
