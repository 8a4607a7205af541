import BuildFile.Manifest
import BuildFile.Text.Outline
import BuildFile.Text.Quoted

/-! # The outline of a manifest

A manifest can be printed in full, with everything it holds laid out under the names that
these things have in the printed form.
-/

namespace BuildFile

open Outline

namespace Outline

/-- A name, which is text. -/
def quotedName (name : Name) : Outline := leaf (quoted .text name)

/-- A byte string of a build file. -/
def quotedBytes (text : Bytes) : Outline := leaf (quoted .bytes text)

end Outline

def Part.outline : Part → Outline
  | .literal text => tagged "Literal" (quotedBytes text)
  | .reference name => tagged "VarRef" (quotedName name)

def Template.outline (template : Template) : Outline :=
  record "EvalTemplate" [("parts", list (template.map (·.outline)))]

def Environment.outline (env : Environment) : Outline :=
  record "Environment"
    [("vars", list (env.map fun (name, value) => tuple [quotedName name, quotedBytes value]))]

def Binding.outline (binding : Binding) : Outline :=
  record "Binding" [("name", quotedName binding.name), ("template", binding.template.outline)]

def Rule.outline (rule : Rule) : Outline :=
  record "Rule"
    [("name", quotedName rule.name), ("bindings", list (rule.bindings.map (·.outline)))]

def Build.outline (build : Build) : Outline :=
  record "Build"
    [("rule", quotedName build.rule),
     ("explicit_outputs", list (build.outputs.map quotedBytes)),
     ("explicit_inputs", list (build.explicitInputs.map quotedBytes)),
     ("implicit_inputs", list (build.implicitInputs.map quotedBytes)),
     ("order_only_inputs", list (build.orderOnlyInputs.map quotedBytes)),
     ("bindings", list (build.bindings.map (·.outline)))]

def Manifest.outline (manifest : Manifest) : Outline :=
  record "Manifest"
    [("global_bindings", Environment.outline manifest.globals),
     ("rules", list (manifest.rules.map (·.outline))),
     ("builds", list (manifest.builds.map (·.outline))),
     ("defaults", list (manifest.defaults.map quotedBytes))]

end BuildFile
