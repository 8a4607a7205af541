import BuildFile.Scope

/-! # Expansion

To expand a template in a scope is to replace its references, and those in the templates
they lead to, until only text is left. That fails if a name leads back to itself. The names
that are being expanded are kept, the innermost first; since no name is among them twice,
expansion ends in every scope.
-/

namespace BuildFile

/-- A cycle of names, each of which is referred to by the template of the one behind it, and
    the last by that of the first. -/
structure ExpansionError where
  cycle : List Name
  deriving Repr, DecidableEq

/-- The cycle that is closed when a name that is being expanded is met again. -/
def ExpansionError.closing (active : List Name) (name : Name) : ExpansionError where
  cycle := active.takeWhile (· != name) ++ [name]

/-- The names in the order in which they lead to each other, from the outermost one back
    to it. -/
def ExpansionError.message (error : ExpansionError) : Bytes :=
  ascii "Cycle in variable expansion: "
    ++ error.cycle.reverse.flatMap (· ++ ascii " -> ")
    ++ error.cycle.getLast?.getD []

namespace Scope

/-- The names that stand for templates and are not being expanded. -/
def idleNames (scope : Scope) (active : List Name) : List Name :=
  scope.templateNames.filter (!active.contains ·)

theorem length_idleNames_lt {scope : Scope} {active : List Name} {name : Name}
    (known : name ∈ scope.templateNames) (idle : name ∉ active) :
    (scope.idleNames (name :: active)).length < (scope.idleNames active).length := by
  have fewer : scope.idleNames (name :: active) = (scope.idleNames active).filter (· != name) := by
    simp only [idleNames, List.filter_filter]
    congr 1
    funext other
    by_cases h : other = name <;> simp [h]
  rw [fewer, List.length_filter_lt_length_iff_exists]
  exact ⟨name, List.mem_filter.2 ⟨known, by simpa using idle⟩, by simp⟩

/-- The text of paths as words of a command. -/
def joinPaths (paths : List Bytes) (onLines : Bool) : Bytes :=
  Shell.join (if onLines then Byte.newline else Byte.space) paths

/-- Expand a template while the given names are being expanded. -/
def expandWithin (scope : Scope) (active : List Name) : Template → Except ExpansionError Bytes
  | [] => .ok []
  | .literal text :: rest => do return text ++ (← scope.expandWithin active rest)
  | .reference name :: rest => do
      let text ← (match _hmeaning : scope.meaning? name with
        | none => .ok []
        | some (.value text) => .ok text
        | some (.paths paths onLines) => .ok (joinPaths paths onLines)
        | some (.template template) =>
            if _hactive : name ∈ active then .error (.closing active name)
            else scope.expandWithin (name :: active) template)
      return text ++ (← scope.expandWithin active rest)
termination_by template => ((scope.idleNames active).length, template.length)
decreasing_by
  · exact Prod.Lex.right _ (Nat.lt_succ_self _)
  · exact Prod.Lex.left _ _ (length_idleNames_lt (mem_templateNames _hmeaning) _hactive)
  · exact Prod.Lex.right _ (Nat.lt_succ_self _)

/-- Expand a template. -/
def expand (scope : Scope) (template : Template) : Except ExpansionError Bytes :=
  scope.expandWithin [] template

/-- Expand what a name stands for. A name that means nothing expands to nothing. -/
def expandName (scope : Scope) (name : Name) : Except ExpansionError Bytes :=
  scope.expand [.reference name]

end Scope

end BuildFile
