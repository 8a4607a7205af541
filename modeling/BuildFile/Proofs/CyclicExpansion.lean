import BuildFile.Scope.Expansion
import Mathlib.Data.List.Chain
import Mathlib.Logic.Relation

/-! # When expansion fails

The templates of a scope refer to each other. Expansion walks along these references with the
names on the way in hand, and fails exactly if the way can reach a cycle. The names it reports
are such a cycle: the part of the way from the first visit of a name to the second.
-/

namespace BuildFile

open Relation

namespace Scope

def IsTemplate (scope : Scope) (name : Name) : Prop :=
  ∃ template, scope.meaning? name = some (.template template)

/-- The template of the first name refers to the second, which stands for a template too. -/
def Refers (scope : Scope) (name other : Name) : Prop :=
  ∃ template : Template, scope.meaning? name = some (.template template) ∧
    other ∈ template.references ∧ scope.IsTemplate other

/-- Some name that refers back to itself can be reached. -/
def LeadsToCycle (scope : Scope) (name : Name) : Prop :=
  ∃ other, ReflTransGen scope.Refers name other ∧ TransGen scope.Refers other other

theorem LeadsToCycle.of_refers {scope : Scope} {name other : Name}
    (refers : scope.Refers name other) (h : scope.LeadsToCycle other) : scope.LeadsToCycle name := by
  obtain ⟨last, reached, cycle⟩ := h
  exact ⟨last, reached.head refers, cycle⟩

theorem LeadsToCycle.exists_refers {scope : Scope} {name : Name} (h : scope.LeadsToCycle name) :
    ∃ other, scope.Refers name other ∧ scope.LeadsToCycle other := by
  obtain ⟨last, reached, cycle⟩ := h
  obtain rfl | ⟨other, refers, further⟩ := reached.cases_head
  · obtain ⟨other, refers, back⟩ := TransGen.head'_iff.1 cycle
    exact ⟨other, refers, name, back, cycle⟩
  · exact ⟨other, refers, last, further, cycle⟩

/-- What a name contributes while the given names are being expanded. -/
def expandReference (scope : Scope) (active : List Name) (name : Name) :
    Except ExpansionError Bytes :=
  match scope.meaning? name with
  | none => .ok []
  | some (.value text) => .ok text
  | some (.paths paths onLines) => .ok (joinPaths paths onLines)
  | some (.template template) =>
      if active.contains name then .error (.closing active name)
      else scope.expandWithin (name :: active) template

variable {scope : Scope} {active : List Name} {name : Name} {template rest : Template}
  {error : ExpansionError}

theorem expandWithin_reference :
    scope.expandWithin active (.reference name :: rest) = (do
      let text ← scope.expandReference active name
      return text ++ (← scope.expandWithin active rest)) := by
  rw [expandWithin]
  congr 1
  unfold expandReference
  split <;> simp_all

theorem expandReference_template (h : scope.meaning? name = some (.template template)) :
    scope.expandReference active name =
      if name ∈ active then .error (.closing active name)
      else scope.expandWithin (name :: active) template := by
  simp only [expandReference, h, List.contains_iff_mem]

theorem expandReference_other (active : List Name) (h : ¬ scope.IsTemplate name) :
    ∃ text, scope.expandReference active name = .ok text := by
  unfold expandReference
  split
  · exact ⟨_, rfl⟩
  · exact ⟨_, rfl⟩
  · exact ⟨_, rfl⟩
  · next template same => exact absurd ⟨template, same⟩ h

/-- Only a template can fail, by being met again or within. -/
theorem template_of_expandReference_error (h : scope.expandReference active name = .error error) :
    ∃ template, scope.meaning? name = some (.template template) ∧
      ((name ∈ active ∧ error = .closing active name) ∨
        (name ∉ active ∧ scope.expandWithin (name :: active) template = .error error)) := by
  by_cases isTemplate : scope.IsTemplate name
  · obtain ⟨template, meaning⟩ := isTemplate
    rw [expandReference_template meaning] at h
    split at h
    · next met =>
      cases h
      exact ⟨template, meaning, .inl ⟨met, rfl⟩⟩
    · next idle => exact ⟨template, meaning, .inr ⟨idle, h⟩⟩
  · obtain ⟨text, done⟩ := expandReference_other active isTemplate
    rw [done] at h
    cases h

theorem bind_eq_error {α β : Type} {first : Except ExpansionError α}
    {next : α → Except ExpansionError β} (h : first >>= next = .error error) :
    first = .error error ∨ ∃ value, next value = .error error := by
  cases first with
  | error other =>
      cases h
      exact .inl rfl
  | ok value => exact .inr ⟨value, h⟩

theorem bind_eq_ok {α β : Type} {first : Except ExpansionError α}
    {next : α → Except ExpansionError β} {result : β} (h : first >>= next = .ok result) :
    ∃ value, first = .ok value ∧ next value = .ok result := by
  cases first with
  | error other => cases h
  | ok value => exact ⟨value, rfl, h⟩

theorem expandWithin_literal_error {text : Bytes}
    (h : scope.expandWithin active (.literal text :: rest) = .error error) :
    scope.expandWithin active rest = .error error := by
  rw [expandWithin] at h
  obtain h | ⟨value, h⟩ := bind_eq_error h
  · exact h
  · cases h

theorem expandWithin_reference_error
    (h : scope.expandWithin active (.reference name :: rest) = .error error) :
    scope.expandReference active name = .error error ∨
      scope.expandWithin active rest = .error error := by
  rw [expandWithin_reference] at h
  obtain h | ⟨text, h⟩ := bind_eq_error h
  · exact .inl h
  · obtain h | ⟨value, h⟩ := bind_eq_error h
    · exact .inr h
    · cases h

theorem expandWithin_literal_ok {text result : Bytes}
    (h : scope.expandWithin active (.literal text :: rest) = .ok result) :
    ∃ value, scope.expandWithin active rest = .ok value := by
  rw [expandWithin] at h
  obtain ⟨value, h, -⟩ := bind_eq_ok h
  exact ⟨value, h⟩

theorem expandWithin_reference_ok {result : Bytes}
    (h : scope.expandWithin active (.reference name :: rest) = .ok result) :
    (∃ text, scope.expandReference active name = .ok text) ∧
      ∃ value, scope.expandWithin active rest = .ok value := by
  rw [expandWithin_reference] at h
  obtain ⟨text, hfirst, h⟩ := bind_eq_ok h
  obtain ⟨value, hrest, -⟩ := bind_eq_ok h
  exact ⟨⟨text, hfirst⟩, value, hrest⟩

theorem mem_references_reference {other : Name} :
    other ∈ Template.references (.reference name :: rest) ↔
      other = name ∨ other ∈ Template.references rest := by
  simp [Template.references]

theorem mem_references_literal {text : Bytes} {other : Name} :
    other ∈ Template.references (.literal text :: rest) ↔ other ∈ Template.references rest := by
  simp [Template.references]

/-- No walk along references out of a template that can be expanded gets into a cycle. -/
theorem not_leadsToCycle_of_ok {result : Bytes}
    (h : scope.expandWithin active template = .ok result) :
    ∀ name ∈ template.references, ¬ scope.LeadsToCycle name := by
  induction active, template using expandWithin.induct scope generalizing result with
  | case1 active => simp [Template.references]
  | case2 active text rest ih =>
      obtain ⟨value, hrest⟩ := expandWithin_literal_ok h
      intro name member
      exact ih hrest name (mem_references_literal.1 member)
  | case3 active name rest inner ih =>
      obtain ⟨⟨text, hfirst⟩, value, hrest⟩ := expandWithin_reference_ok h
      intro other member
      obtain rfl | member := mem_references_reference.1 member
      · intro cyclic
        obtain ⟨further, ⟨template, meaning, among, -⟩, continues⟩ := cyclic.exists_refers
        rw [expandReference_template meaning] at hfirst
        split at hfirst
        · cases hfirst
        · next idle => exact inner template meaning idle hfirst further among continues
      · exact ih hrest other member

/-- The names on the way, the innermost first: each is referred to by the one behind it. -/
structure IsStack (scope : Scope) (active : List Name) : Prop where
  nodup : active.Nodup
  templates : ∀ name ∈ active, scope.IsTemplate name
  chain : active.IsChain fun inner outer => scope.Refers outer inner

/-- A way along which each name is met once and the last one refers to the first. -/
structure IsCycle (scope : Scope) (cycle : List Name) : Prop extends IsStack scope cycle where
  nonempty : cycle ≠ []
  closes : ∀ innermost ∈ cycle.head?, ∀ outermost ∈ cycle.getLast?,
    scope.Refers innermost outermost

theorem isStack_nil : scope.IsStack [] :=
  ⟨List.nodup_nil, by simp, List.isChain_nil⟩

theorem IsStack.cons (stack : scope.IsStack active) (isTemplate : scope.IsTemplate name)
    (idle : name ∉ active) (referred : ∀ inner ∈ active.head?, scope.Refers inner name) :
    scope.IsStack (name :: active) :=
  ⟨List.nodup_cons.2 ⟨idle, stack.nodup⟩, List.forall_mem_cons.2 ⟨isTemplate, stack.templates⟩,
    stack.chain.cons referred⟩

theorem IsStack.of_prefix {front : List Name} (stack : scope.IsStack active)
    (isPrefix : front <+: active) : scope.IsStack front :=
  ⟨stack.nodup.sublist isPrefix.sublist,
    fun name member => stack.templates name (isPrefix.subset member),
    stack.chain.prefix isPrefix⟩

theorem closing_eq {front after : List Name} (first : name ∉ front) :
    (ExpansionError.closing (front ++ name :: after) name).cycle = front ++ [name] := by
  have before : ∀ other ∈ front, (other != name) = true := by
    intro other member
    rw [bne_iff_ne]
    rintro rfl
    exact first member
  simp [ExpansionError.closing, List.takeWhile_append_of_pos before]

/-- Meeting a name of the stack again closes a cycle, which starts with the innermost name. -/
theorem IsStack.isCycle_closing (stack : scope.IsStack active) (met : name ∈ active)
    (referred : ∀ inner ∈ active.head?, scope.Refers inner name) :
    scope.IsCycle (ExpansionError.closing active name).cycle := by
  -- The cycle is the stack up to the earlier visit of the name.
  obtain ⟨front, after, rfl, first⟩ := List.eq_append_cons_of_mem met
  have isPrefix : front ++ [name] <+: front ++ name :: after := ⟨after, by simp⟩
  rw [closing_eq first]
  refine ⟨stack.of_prefix isPrefix, by simp, ?_⟩
  intro innermost head outermost last
  have same : outermost = name := by simpa [eq_comm] using last
  rw [same]
  apply referred innermost
  cases front <;> simpa using head

theorem reaches_of_isChain {inner : Name}
    (chain : (inner :: active).IsChain fun inner outer => scope.Refers outer inner) :
    ∀ outer ∈ inner :: active, ReflTransGen scope.Refers outer inner := by
  induction active generalizing inner with
  | nil => simp [ReflTransGen.refl]
  | cons next active ih =>
      obtain ⟨refers, further⟩ := List.isChain_cons_cons.1 chain
      intro outer member
      obtain rfl | member := List.mem_cons.1 member
      · exact .refl
      · exact (ih further outer member).tail refers

theorem IsCycle.leadsToCycle {cycle : List Name} (h : scope.IsCycle cycle) :
    ∀ outermost ∈ cycle.getLast?, scope.LeadsToCycle outermost := by
  intro outermost last
  cases cycle with
  | nil => exact absurd rfl h.nonempty
  | cons innermost outer =>
      have reached := reaches_of_isChain h.chain outermost (List.mem_of_getLast? last)
      exact ⟨outermost, .refl, .tail' reached (h.closes innermost rfl outermost last)⟩

/-- Expansion on its way: what is left of a template that the innermost name stands for. -/
structure IsWalk (scope : Scope) (active : List Name) (template : Template) : Prop
    extends IsStack scope active where
  referred : ∀ inner ∈ active.head?, ∀ name ∈ template.references,
    scope.IsTemplate name → scope.Refers inner name

theorem isWalk_start (template : Template) : scope.IsWalk [] template :=
  ⟨isStack_nil, by simp⟩

theorem IsWalk.further {part : Part} (walk : scope.IsWalk active (part :: rest)) :
    scope.IsWalk active rest := by
  refine ⟨walk.toIsStack, ?_⟩
  intro inner head name member
  apply walk.referred inner head
  cases part with
  | literal text => exact mem_references_literal.2 member
  | reference other => exact mem_references_reference.2 (.inr member)

theorem IsWalk.meets (walk : scope.IsWalk active (.reference name :: rest))
    (isTemplate : scope.IsTemplate name) : ∀ inner ∈ active.head?, scope.Refers inner name :=
  fun inner head => walk.referred inner head name (mem_references_reference.2 (.inl rfl)) isTemplate

theorem IsWalk.enter (walk : scope.IsWalk active (.reference name :: rest))
    (meaning : scope.meaning? name = some (.template template)) (idle : name ∉ active) :
    scope.IsWalk (name :: active) template := by
  refine ⟨walk.toIsStack.cons ⟨template, meaning⟩ idle (walk.meets ⟨template, meaning⟩), ?_⟩
  intro inner head other member isTemplate
  cases head
  exact ⟨template, meaning, member, isTemplate⟩

/-- Expansion that fails was walking on a cycle, and a reference of the template led there. -/
theorem isCycle_of_error (walk : scope.IsWalk active template)
    (h : scope.expandWithin active template = .error error) :
    scope.IsCycle error.cycle ∧
      ∃ name ∈ template.references, scope.IsTemplate name ∧ scope.LeadsToCycle name := by
  induction active, template using expandWithin.induct scope with
  | case1 active =>
      rw [expandWithin] at h
      cases h
  | case2 active text rest ih =>
      simp only [mem_references_literal]
      exact ih walk.further (expandWithin_literal_error h)
  | case3 active name rest inner ih =>
      have here : name ∈ Template.references (.reference name :: rest) :=
        mem_references_reference.2 (.inl rfl)
      obtain hfirst | hrest := expandWithin_reference_error h
      · obtain ⟨template, meaning, ⟨met, rfl⟩ | ⟨idle, hinner⟩⟩ :=
          template_of_expandReference_error hfirst
        · have cycle := walk.toIsStack.isCycle_closing met (walk.meets ⟨template, meaning⟩)
          have leads := cycle.leadsToCycle name (by simp [ExpansionError.closing])
          exact ⟨cycle, name, here, ⟨template, meaning⟩, leads⟩
        · obtain ⟨cycle, other, member, isTemplate, leads⟩ :=
            inner template meaning idle (walk.enter meaning idle) hinner
          exact ⟨cycle, name, here, ⟨template, meaning⟩,
            leads.of_refers ⟨template, meaning, member, isTemplate⟩⟩
      · obtain ⟨cycle, other, member, isTemplate, leads⟩ := ih walk.further hrest
        exact ⟨cycle, other, mem_references_reference.2 (.inr member), isTemplate, leads⟩

theorem expand_eq_error_iff (scope : Scope) (template : Template) :
    (∃ error, scope.expand template = .error error) ↔
      ∃ name ∈ template.references, scope.IsTemplate name ∧ scope.LeadsToCycle name := by
  constructor
  · intro h
    obtain ⟨error, h⟩ := h
    exact (isCycle_of_error (isWalk_start template) h).2
  · intro h
    obtain ⟨name, member, -, leads⟩ := h
    cases result : scope.expand template with
    | error error => exact ⟨error, rfl⟩
    | ok text => exact absurd leads (not_leadsToCycle_of_ok result name member)

theorem intercalate_concat (separator last : Bytes) (front : List Bytes) :
    separator.intercalate (front ++ [last]) = front.flatMap (· ++ separator) ++ last := by
  induction front with
  | nil => simp
  | cons text front ih =>
      rw [List.cons_append, List.intercalate_cons_of_ne_nil (by simp), ih]
      simp

/-- The message names the cycle from its outermost name on, and that name once more. -/
theorem message_eq (error : ExpansionError) :
    error.message = ascii "Cycle in variable expansion: " ++
      (ascii " -> ").intercalate (error.cycle.reverse ++ error.cycle.getLast?.toList) := by
  rw [ExpansionError.message]
  cases last : error.cycle.getLast? with
  | none =>
      rw [List.getLast?_eq_none_iff] at last
      simp [last]
  | some name => simp [intercalate_concat]

/-- Expansion fails exactly where references lead to a cycle, and reports such a cycle. -/
theorem expansion_fails_iff (scope : Scope) :
    (∀ name, (∃ error, scope.expandName name = .error error) ↔
      scope.IsTemplate name ∧ scope.LeadsToCycle name) ∧
    (∀ template : Template, (∃ error, scope.expand template = .error error) ↔
      ∃ name ∈ template.references, scope.IsTemplate name ∧ scope.LeadsToCycle name) ∧
    ∀ (template : Template) (error : ExpansionError), scope.expand template = .error error →
      scope.IsCycle error.cycle ∧
        error.message = ascii "Cycle in variable expansion: " ++
          (ascii " -> ").intercalate (error.cycle.reverse ++ error.cycle.getLast?.toList) := by
  refine ⟨fun name => ?_, expand_eq_error_iff scope, fun template error failed => ?_⟩
  · have single := expand_eq_error_iff scope [.reference name]
    simpa [Template.references, expandName] using single
  · exact ⟨(isCycle_of_error (isWalk_start template) failed).1, message_eq error⟩

/-- A rule with a variable that leads to a cycle of two others. -/
def knotted : Scope :=
  ofRule [⟨ascii "c", [.reference (ascii "a")]⟩, ⟨ascii "a", [.reference (ascii "b")]⟩,
    ⟨ascii "b", [.reference (ascii "a")]⟩]

theorem expansion_fails_iff_knotted :
    knotted.expand [.reference (ascii "c")] = .error ⟨[ascii "b", ascii "a"]⟩ ∧
      knotted.IsCycle [ascii "b", ascii "a"] ∧
      ExpansionError.message ⟨[ascii "b", ascii "a"]⟩ =
        ascii "Cycle in variable expansion: a -> b -> a" := by
  have c : knotted.meaning? (ascii "c") = some (.template [.reference (ascii "a")]) := by decide
  have a : knotted.meaning? (ascii "a") = some (.template [.reference (ascii "b")]) := by decide
  have b : knotted.meaning? (ascii "b") = some (.template [.reference (ascii "a")]) := by decide
  have failed : knotted.expand [.reference (ascii "c")] = .error ⟨[ascii "b", ascii "a"]⟩ := by
    rw [expand, expandWithin_reference, expandReference_template c, if_neg (by decide),
      expandWithin_reference, expandReference_template a, if_neg (by decide),
      expandWithin_reference, expandReference_template b, if_neg (by decide),
      expandWithin_reference, expandReference_template a, if_pos (by decide)]
    rfl
  obtain ⟨cycle, message⟩ := (expansion_fails_iff knotted).2.2 _ _ failed
  exact ⟨failed, cycle, message.trans (by decide)⟩

end Scope

end BuildFile
