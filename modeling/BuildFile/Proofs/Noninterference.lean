import BuildFile.Proofs.Independence
import BuildFile.Proofs.Insertion
import BuildFile.Proofs.Reachability

/-! # What commands do not depend on

A command comes from what can be reached from it. Scopes that agree on that expand it to the same,
or fail with the same cycle. So a manifest resolves to the same commands when builds get other
inputs of a kind that commands do not see, and when rules get bindings that nothing reads.
-/

namespace BuildFile

/-- What a name is bound to does not depend on the bindings of other names. -/
theorem Binding.find?_inserts {extra : Binding → Prop} {bindings others : List Binding}
    {name : Name} (h : Inserts Eq extra bindings others)
    (unnamed : ∀ binding, extra binding → binding.name ≠ name) :
    Binding.find? others name = Binding.find? bindings name := by
  induction h with
  | nil => rfl
  | keep first _ ih =>
      subst first
      rw [find?_cons, find?_cons, ih]
  | insert added _ ih => rw [find?_cons, if_neg (unnamed _ added), ih]

/-- Only the inputs that commands do not see are others. -/
def Build.Rewires (build other : Build) : Prop :=
  ∃ implicitInputs orderOnlyInputs : List Bytes,
    other = { build with implicitInputs, orderOnlyInputs }

namespace Scope

theorem meaning?_ofEdge_of_find? {inputs outputs : List Bytes} {block globals : Environment}
    {rule other : List Binding} {name : Name}
    (same : Binding.find? other name = Binding.find? rule name) :
    (ofEdge inputs outputs block other globals).meaning? name =
      (ofEdge inputs outputs block rule globals).meaning? name := by
  simp only [meaning?, ofEdge, List.findSome?_cons, Layer.meaning?, same]

/-- Templates come from the rule. -/
theorem binding_of_meaning?_ofEdge {inputs outputs : List Bytes} {block globals : Environment}
    {rule : List Binding} {name : Name} {template : Template}
    (h : (ofEdge inputs outputs block rule globals).meaning? name = some (.template template)) :
    ∃ binding ∈ rule, binding.template = template := by
  obtain ⟨layer, member, found⟩ := List.exists_of_findSome?_eq_some h
  simp only [ofEdge, List.mem_cons, List.not_mem_nil, or_false] at member
  obtain rfl | rfl | rfl | rfl := member
  · unfold Layer.meaning? at found
    grind
  · simp [Layer.meaning?] at found
  · simp only [Layer.meaning?, Binding.find?, Option.map_map, Option.map_eq_some_iff] at found
    obtain ⟨binding, bound, same⟩ := found
    exact ⟨binding, List.mem_of_find?_eq_some bound, Meaning.template.inj same⟩
  · simp [Layer.meaning?] at found

end Scope

namespace Manifest

/-- For some build, the command or the description of a rule leads to a name. They also lead to
    themselves. -/
def Reads (manifest : Manifest) (rule : Rule) (name : Name) : Prop :=
  ∃ build ∈ manifest.builds, ∃ scope, manifest.Uses build rule scope ∧
    (scope.Reaches [.reference Keyword.command] name ∨
      scope.Reaches [.reference Keyword.description] name)

/-- A rule of the same name that has further bindings, of names that are not read. -/
structure AddsUnread (manifest : Manifest) (rule other : Rule) : Prop where
  name : other.name = rule.name
  bindings : Inserts Eq (fun binding => ¬ manifest.Reads rule binding.name)
    rule.bindings other.bindings

/-- A manifest that differs from another one in nothing that a command sees. -/
structure Hides (manifest other : Manifest) : Prop where
  globals : other.globals = manifest.globals
  rules : List.Forall₂ manifest.AddsUnread manifest.rules other.rules
  builds : List.Forall₂ Build.Rewires manifest.builds other.builds

variable {manifest other : Manifest} {build : Build} {rule further : Rule} {scope : Scope}
  {edge : Edge} {edges : List Edge}

/-- A name is not read if no template of the rule refers to it. -/
theorem not_reads_of_unreferenced {name : Name}
    (unreferenced : ∀ binding ∈ rule.bindings, name ∉ binding.template.references)
    (command : name ≠ Keyword.command) (description : name ≠ Keyword.description) :
    ¬ manifest.Reads rule name := by
  have unreached (start : Name) (different : name ≠ start) {build : Build} {scope : Scope}
      (uses : manifest.Uses build rule scope) : ¬ scope.Reaches [.reference start] name := by
    rintro ⟨first, member, path⟩
    obtain rfl : first = start := by simpa [Template.references] using member
    obtain same | ⟨last, -, template, meaning, refers⟩ := path.cases_tail
    · exact different same
    · obtain ⟨values, -, rfl⟩ := uses.scope_eq
      obtain ⟨binding, bound, rfl⟩ := Scope.binding_of_meaning?_ofEdge meaning
      exact unreferenced binding bound refers
  rintro ⟨build, -, scope, uses, reached | reached⟩
  · exact unreached _ command uses reached
  · exact unreached _ description uses reached

/-- What a build expands is the same with a rule that has further bindings. -/
theorem AddsUnread.expandName_eq {values : Environment} (h : manifest.AddsUnread rule further)
    (member : build ∈ manifest.builds)
    (uses : manifest.Uses build rule
      (.ofEdge build.explicitInputs build.outputs values rule.bindings manifest.globals))
    {name : Name} (isRead : name = Keyword.command ∨ name = Keyword.description) :
    (Scope.ofEdge build.explicitInputs build.outputs values further.bindings
        manifest.globals).expandName name =
      (Scope.ofEdge build.explicitInputs build.outputs values rule.bindings
        manifest.globals).expandName name := by
  refine Scope.expandName_congr fun reached path => ?_
  refine Scope.meaning?_ofEdge_of_find? (Binding.find?_inserts h.bindings fun binding unread => ?_)
  -- A name that is reached is read, so no further binding has it.
  rintro rfl
  refine unread ⟨build, member, _, uses, ?_⟩
  obtain rfl | rfl := isRead
  · exact .inl path
  · exact .inr path

theorem exists_mem_of_forall₂ {α β : Type} {r : α → β → Prop} {items : List α} {values : List β}
    (h : List.Forall₂ r items values) {item : α} (member : item ∈ items) :
    ∃ value ∈ values, r item value := by
  obtain ⟨i, found⟩ := List.getElem?_of_mem member
  have here := forall₂_getElem? h i
  rw [found] at here
  generalize known : values[i]? = value at here
  cases here with
  | some related => exact ⟨_, List.mem_of_getElem? known, related⟩

theorem Hides.makes (h : manifest.Hides other) (member : build ∈ manifest.builds)
    {rewired : Build} (rewires : build.Rewires rewired) (made : manifest.Makes build edge) :
    ∃ changed, other.Makes rewired changed ∧ changed.recipe = edge.recipe := by
  obtain ⟨implicitInputs, orderOnlyInputs, rfl⟩ := rewires
  cases made with
  | phony nonempty phony => exact ⟨_, .phony nonempty phony, rfl⟩
  | command nonempty uses command_eq description_eq =>
      obtain ⟨values, evaluated, rfl⟩ := uses.scope_eq
      obtain ⟨further, known, adds⟩ := exists_mem_of_forall₂ h.rules uses.mem
      refine ⟨_, .command nonempty ⟨uses.not_phony, known, adds.name.trans uses.name, values, ?_,
        rfl⟩ ?_ ?_, rfl⟩
      · rwa [h.globals]
      · rw [h.globals, ← command_eq]
        exact adds.expandName_eq member uses (.inl rfl)
      · rw [h.globals, ← description_eq]
        exact adds.expandName_eq member uses (.inr rfl)

theorem map_name_of_addsUnread {rules others : List Rule}
    (h : List.Forall₂ manifest.AddsUnread rules others) :
    others.map (·.name) = rules.map (·.name) := by
  induction h with
  | nil => rfl
  | cons adds _ ih => rw [List.map_cons, List.map_cons, adds.name, ih]

theorem Hides.free (h : manifest.Hides other) (free : ∀ i, ¬ manifest.Clashes i) :
    ∀ i, ¬ other.Clashes i := by
  rw [free_iff] at free ⊢
  rwa [map_name_of_addsUnread h.rules]

theorem exists_forall₂_makes {builds others : List Build}
    (rewires : List.Forall₂ Build.Rewires builds others)
    (makes : List.Forall₂ manifest.Makes builds edges)
    (step : ∀ build ∈ builds, ∀ rewired edge, build.Rewires rewired → manifest.Makes build edge →
      ∃ changed, other.Makes rewired changed ∧ changed.recipe = edge.recipe) :
    ∃ changed, List.Forall₂ other.Makes others changed ∧
      changed.map (·.recipe) = edges.map (·.recipe) := by
  induction rewires generalizing edges with
  | nil =>
      cases makes
      exact ⟨[], .nil, rfl⟩
  | cons first _ ih =>
      cases makes with
      | cons made more =>
          obtain ⟨edge, remade, same⟩ := step _ List.mem_cons_self _ _ first made
          obtain ⟨edges, others, all⟩ := ih more fun build member =>
            step build (List.mem_cons_of_mem _ member)
          refine ⟨edge :: edges, .cons remade others, ?_⟩
          rw [List.map_cons, List.map_cons, same, all]

theorem Hides.resolve (h : manifest.Hides other) (resolved : manifest.resolve = .ok edges) :
    ∃ changed, other.resolve = .ok changed ∧
      changed.map (·.recipe) = edges.map (·.recipe) := by
  obtain ⟨free, makes⟩ := resolve_eq_ok_iff.1 resolved
  obtain ⟨changed, remade, same⟩ := exists_forall₂_makes h.builds makes fun build member _ _ =>
    h.makes member
  exact ⟨changed, resolve_eq_ok_iff.2 ⟨h.free free, remade⟩, same⟩

/-- Expansion depends on what it reaches only: scopes that agree on the names that can be reached
    from a template expand it to the same, or fail with the same cycle. So what builds run stays as
    it is when they get other implicit and order-only inputs, and when rules get bindings of names
    that no command and no description leads to. -/
theorem commands_depend_on_reached_names :
    (∀ (scope other : Scope) (template : Template),
      (∀ name, scope.Reaches template name → other.meaning? name = scope.meaning? name) →
        other.expand template = scope.expand template) ∧
    ∀ (manifest other : Manifest) (edges : List Edge),
      manifest.resolve = .ok edges → manifest.Hides other →
        ∃ changed, other.resolve = .ok changed ∧
          changed.map (·.recipe) = edges.map (·.recipe) :=
  ⟨fun _ _ _ agree => Scope.expandWithin_congr agree,
    fun _ _ _ resolved hides => hides.resolve resolved⟩

/-- What compiles an object also says where its other inputs are noted, which are known by now. -/
def noted : Manifest where
  rules := [⟨ascii "cc", [⟨ascii "depfile", [.reference Keyword.outputs, .literal (ascii ".d")]⟩,
      ⟨Keyword.command, [.literal (ascii "cc "), .reference Keyword.inputs]⟩]⟩, toolRules[1]]
  builds := [{ compiled with implicitInputs := [ascii "a.h"] }]

theorem hides_noted : { rules := toolRules, builds := [compiled] : Manifest }.Hides noted where
  globals := rfl
  rules := by
    have unread : ¬ { rules := toolRules, builds := [compiled] : Manifest }.Reads toolRules[0]
        (ascii "depfile") :=
      not_reads_of_unreferenced (by decide) (by decide) (by decide)
    exact .cons ⟨rfl, .insert unread (.refl (fun _ => rfl) _)⟩
      (.cons ⟨rfl, .refl (fun _ => rfl) _⟩ .nil)
  builds := .cons ⟨[ascii "a.h"], [], rfl⟩ .nil

/-- Also a file and a block in which one name has the same value and another one has not. -/
theorem commands_depend_on_reached_names_noted :
    (Scope.ofBuild [(ascii "v", ascii "x")] []).expand [.reference (ascii "v")] =
        (Scope.ofFile [(ascii "v", ascii "x"), (ascii "w", ascii "y")]).expand
          [.reference (ascii "v")] ∧
      ∃ changed, noted.resolve = .ok changed ∧
        changed.map (·.recipe) = [some { command := ascii "cc a.c", description := [] }] := by
  obtain ⟨congr, unchanged⟩ := commands_depend_on_reached_names
  have resolved : { rules := toolRules, builds := [compiled] : Manifest }.resolve =
      .ok [compiledEdge] :=
    resolve_eq_ok_iff.2 ⟨free_iff.2 (by decide), .cons (makes_compiled.of_perm (.refl _) rfl) .nil⟩
  refine ⟨congr _ _ _ fun name reached => ?_, unchanged _ _ _ resolved hides_noted⟩
  obtain ⟨first, member, path⟩ := reached
  obtain rfl : first = ascii "v" := by simpa [Template.references] using member
  obtain rfl | ⟨next, ⟨template, meaning, -⟩, -⟩ := path.cases_head
  · decide
  · have final : (Scope.ofFile [(ascii "v", ascii "x"), (ascii "w", ascii "y")]).meaning?
        (ascii "v") = some (.value (ascii "x")) := by decide
    cases final.symm.trans meaning

end Manifest

end BuildFile
