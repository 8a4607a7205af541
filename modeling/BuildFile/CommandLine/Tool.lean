import BuildFile.Manifest.Outline
import BuildFile.Manifest.Read
import BuildFile.OutputIndex

/-! # The tools of the command line

Each tool reports on a build file in lines. A report may break off with an error; the lines
before it stand.
-/

namespace BuildFile

namespace CommandLine

/-- What the command line can be asked to report on. -/
inductive Tool where
  | commands
  | defaults
  | manifest
  | query
  | rules
  | targets
  | vars
  | list
  deriving Repr, DecidableEq

namespace Tool

/-- All tools, in the order in which they are listed. -/
def all : List Tool := [.commands, .defaults, .manifest, .query, .rules, .targets, .vars, .list]

def name : Tool → Bytes
  | .commands => ascii "commands"
  | .defaults => ascii "defaults"
  | .manifest => ascii "manifest"
  | .query => ascii "query"
  | .rules => ascii "rules"
  | .targets => ascii "targets"
  | .vars => ascii "vars"
  | .list => ascii "list"

/-- The tool of a name. -/
def ofName? (name : Bytes) : Option Tool :=
  all.find? (·.name == name)

end Tool

/-- The lines that a tool prints, and the message of the error that ends it, if any. -/
structure Report where
  lines : List Bytes := []
  problem : Option Formatted := none
  deriving Repr, DecidableEq

namespace Report

/-- The text of the lines. Bytes that form no characters are replaced. -/
def text (report : Report) : Bytes :=
  report.lines.flatMap fun line => Utf8.shown line ++ [Byte.newline]

/-- A report of lines only. -/
def ofLines (lines : List Bytes) : Report := { lines }

/-- Report on something that may not be there. -/
def ofExcept {α : Type} (source : Except Formatted α) (report : α → Report) : Report :=
  match source with
  | .error problem => { problem := some problem }
  | .ok value => report value

end Report

/-- The command of every edge that has one. -/
def commandLines (edges : List Edge) : List Bytes :=
  edges.filterMap fun edge => edge.recipe.map (·.command)

/-- Every output with the rule that makes it. -/
def targetLines (manifest : Manifest) : List Bytes :=
  manifest.builds.flatMap fun build => build.outputs.map (· ++ ascii ": " ++ build.rule)

/-- Every global variable with its value, also those that are not in effect. -/
def variableLines (manifest : Manifest) : List Bytes :=
  manifest.globals.map fun (name, value) => name ++ ascii " = " ++ value

/-- The head of a rule, and its block as it could stand in a build file. -/
def ruleLines (rule : Rule) : List Bytes :=
  (ascii "rule " ++ rule.name) ::
    rule.bindings.map fun binding =>
      ascii "  " ++ binding.name ++ ascii " = " ++ binding.template.write

/-- What an edge runs. An empty description is left out. -/
def recipeLines (recipe : Recipe) : List Bytes :=
  (ascii "  command: " ++ recipe.command) ::
    if recipe.description = [] then [] else [ascii "  description: " ++ recipe.description]

/-- How a target is made. -/
def edgeLines (target : Bytes) (edge : Edge) : List Bytes :=
  [target ++ ascii ":", ascii "  rule: " ++ edge.rule]
    ++ (edge.recipe.map recipeLines).getD []
    ++ edge.explicitInputs.map (ascii "  input: " ++ ·)
    ++ edge.implicitInputs.map (ascii "  implicit: " ++ ·)
    ++ edge.orderOnlyInputs.map (ascii "  order-only: " ++ ·)
    ++ edge.outputs.map (ascii "  output: " ++ ·)

/-- The first edge that makes a target. -/
def edgeOf? (edges : List Edge) (index : OutputIndex) (target : Bytes) : Option Edge :=
  (index.producer? target).bind (edges[·]?)

/-- How targets are made, up to the first that no edge makes. -/
def queryReport (edges : List Edge) (index : OutputIndex) : List Bytes → Report
  | [] => {}
  | target :: rest =>
      match edgeOf? edges index target with
      | none => { problem := some (.whole (ascii "Unknown target " ++ Utf8.shown target)) }
      | some edge =>
          let report := queryReport edges index rest
          { report with lines := edgeLines target edge ++ report.lines }

/-- The names of all tools. -/
def listLines : List Bytes :=
  ascii "Subtools:" :: Tool.all.map fun tool => Byte.tab :: tool.name

/-- The edges of a manifest, or the message of the error that there is. -/
def resolved (source : Except Formatted Manifest) : Except Formatted (List Edge) := do
  let manifest ← source
  manifest.resolve.mapError (.whole ·.message)

namespace Tool

/-- Whether a tool reads the build file. -/
def readsFile : Tool → Bool
  | .list => false
  | _ => true

/-- Whether a tool resolves the manifest. -/
def resolves : Tool → Bool
  | .commands | .query => true
  | _ => false

/-- What a tool prints about a manifest, or about the lack of one. -/
def report (source : Except Formatted Manifest) (targets : List Bytes) : Tool → Report
  | .commands => .ofExcept (resolved source) fun edges => .ofLines (commandLines edges)
  | .defaults => .ofExcept source fun manifest => .ofLines manifest.defaults
  | .manifest => .ofExcept source fun manifest => .ofLines manifest.outline
  | .query =>
      .ofExcept (resolved source) fun edges =>
        queryReport edges (OutputIndex.ofEdges edges) targets
  | .rules => .ofExcept source fun manifest => .ofLines (manifest.rules.flatMap ruleLines)
  | .targets => .ofExcept source fun manifest => .ofLines (targetLines manifest)
  | .vars => .ofExcept source fun manifest => .ofLines (variableLines manifest)
  | .list => .ofLines listLines

end Tool

end CommandLine

end BuildFile
