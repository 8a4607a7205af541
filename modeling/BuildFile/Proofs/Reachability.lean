import BuildFile.Proofs.CyclicExpansion

/-! # What an expansion depends on

Expansion looks up the names that a template refers to, and from there on the names in the
templates that it finds. What a scope says of any other name plays no part in it.
-/

namespace BuildFile.Scope

open Relation

/-- The template of the first name refers to the second, whatever that one stands for. -/
def Mentions (scope : Scope) (name other : Name) : Prop :=
  ∃ template : Template,
    scope.meaning? name = some (.template template) ∧ other ∈ template.references

/-- A template reaches the names that it refers to, and those that their templates lead to. -/
def Reaches (scope : Scope) (template : Template) (name : Name) : Prop :=
  ∃ first ∈ template.references, ReflTransGen scope.Mentions first name

variable {scope other : Scope} {active : List Name} {name : Name} {template rest : Template}

theorem Reaches.literal {text : Bytes} (h : scope.Reaches rest name) :
    scope.Reaches (.literal text :: rest) name := by
  obtain ⟨first, member, path⟩ := h
  exact ⟨first, mem_references_literal.2 member, path⟩

theorem Reaches.further {first : Name} (h : scope.Reaches rest name) :
    scope.Reaches (.reference first :: rest) name := by
  obtain ⟨start, member, path⟩ := h
  exact ⟨start, mem_references_reference.2 (.inr member), path⟩

theorem reaches_self (name : Name) (rest : Template) :
    scope.Reaches (.reference name :: rest) name :=
  ⟨name, mem_references_reference.2 (.inl rfl), .refl⟩

/-- What the template of a name reaches is reached through the name. -/
theorem Reaches.inner {inner : Name} (meaning : scope.meaning? name = some (.template template))
    (h : scope.Reaches template inner) : scope.Reaches (.reference name :: rest) inner := by
  obtain ⟨first, member, path⟩ := h
  exact ⟨name, mem_references_reference.2 (.inl rfl), path.head ⟨template, meaning, member⟩⟩

theorem expandReference_congr (same : other.meaning? name = scope.meaning? name)
    (inner : ∀ template, scope.meaning? name = some (.template template) → name ∉ active →
      other.expandWithin (name :: active) template =
        scope.expandWithin (name :: active) template) :
    other.expandReference active name = scope.expandReference active name := by
  by_cases isTemplate : scope.IsTemplate name
  · obtain ⟨template, meaning⟩ := isTemplate
    rw [expandReference_template meaning, expandReference_template (same.trans meaning)]
    split
    · rfl
    · next idle => exact inner template meaning idle
  · unfold expandReference
    rw [same]
    split
    · rfl
    · rfl
    · rfl
    · next template meaning => exact absurd ⟨template, meaning⟩ isTemplate

/-- Two scopes that agree on what a template reaches expand it to the same, or fail alike. -/
theorem expandWithin_congr
    (agree : ∀ name, scope.Reaches template name → other.meaning? name = scope.meaning? name) :
    other.expandWithin active template = scope.expandWithin active template := by
  induction active, template using expandWithin.induct scope with
  | case1 active => rw [expandWithin, expandWithin]
  | case2 active text rest ih =>
      rw [expandWithin, expandWithin, ih fun name reached => agree name reached.literal]
  | case3 active name rest inner ih =>
      have first : other.expandReference active name = scope.expandReference active name :=
        expandReference_congr (agree name (reaches_self name rest)) fun template meaning idle =>
          inner template meaning idle fun further reached => agree further (reached.inner meaning)
      rw [expandWithin_reference, expandWithin_reference, first,
        ih fun further reached => agree further reached.further]

theorem expandName_congr
    (agree : ∀ further, scope.Reaches [.reference name] further →
      other.meaning? further = scope.meaning? further) :
    other.expandName name = scope.expandName name :=
  expandWithin_congr agree

end BuildFile.Scope
