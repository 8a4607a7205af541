import BuildFile.Proofs.Concatenation
import BuildFile.Proofs.Reachability
import BuildFile.Proofs.Resolution

/-! # The first definition counts

Of several definitions of a name only the first is ever looked up. So a list of definitions can
be replaced by those in effect, in a file, in a rule or in a build, and a further definition of
a known name changes nothing but the list of definitions.
-/

namespace BuildFile

section Effective

variable {α : Type} (key : α → Name)

theorem find?_filter_ne {name other : Name} (h : other ≠ name) (items : List α) :
    (items.filter fun item => decide ((key item == other) = false)).find? (key · == name) =
      items.find? (key · == name) := by
  rw [List.find?_filter]
  congr 1
  funext item
  by_cases same : key item = name
  · simp [same, h.symm]
  · simp [same]

/-- What is first of its name stays when everything is dropped that is not. -/
theorem find?_eraseDupsBy (items : List α) (name : Name) :
    (items.eraseDupsBy fun later first => key later == key first).find? (key · == name) =
      items.find? (key · == name) := by
  -- On the length, since the rest is filtered before it is gone through.
  induction size : items.length using Nat.strongRecOn generalizing items with
  | ind size ih =>
      subst size
      cases items with
      | nil => rfl
      | cons first rest =>
          rw [List.eraseDupsBy_cons, List.find?_cons, List.find?_cons]
          split
          · rfl
          · next other =>
            have ne : key first ≠ name := by simpa using other
            rw [ih _ (Nat.lt_succ_of_le (List.length_filter_le _ _)) _ rfl, find?_filter_ne key ne]

end Effective

namespace Environment

/-- The definitions in effect: of each name the first. -/
def effective (env : Environment) : Environment :=
  env.eraseDupsBy fun later first => later.1 == first.1

/-- Looked up in either, every name has the same value. -/
def Alike (first second : Environment) : Prop :=
  ∀ name, first.value? name = second.value? name

theorem alike_effective (env : Environment) : env.effective.Alike env := by
  intro name
  rw [value?, value?, effective, find?_eraseDupsBy Prod.fst]

variable {first second third globals others : Environment} {name : Name}

theorem Alike.refl (env : Environment) : env.Alike env := fun _ => rfl

theorem Alike.symm (h : first.Alike second) : second.Alike first := fun name => (h name).symm

theorem Alike.trans (h : first.Alike second) (k : second.Alike third) : first.Alike third :=
  fun name => (h name).trans (k name)

theorem Alike.append (h : first.Alike second) (k : globals.Alike others) :
    (first ++ globals).Alike (second ++ others) := by
  intro name
  rw [value?_append, value?_append, h name, k name]

theorem Alike.define (h : first.Alike second) (name : Name) (value : Bytes) :
    (first.define name value).Alike (second.define name value) :=
  h.append (.refl _)

/-- A further definition of a known name is not looked up. -/
theorem alike_define_of_known (known : (first.value? name).isSome) (value : Bytes) :
    (first.define name value).Alike first := by
  intro other
  rw [value?_define]
  by_cases same : name = other
  · subst same
    obtain ⟨bound, found⟩ := Option.isSome_iff_exists.1 known
    rw [found, Option.some_or]
  · rw [if_neg same, Option.or_none]

theorem Alike.evaluate_eq (h : first.Alike second) (template : Template) :
    template.evaluate first = template.evaluate second := by
  have part (part : Part) :
      Template.evaluatePart first part = Template.evaluatePart second part := by
    cases part with
    | literal text => rfl
    | reference name => simp only [Template.evaluatePart, value, h name]
  rw [Template.evaluate, Template.evaluate, funext part]

end Environment

namespace Binding

/-- The bindings in effect: of each name the first. -/
def effective (bindings : List Binding) : List Binding :=
  bindings.eraseDupsBy fun later first => later.name == first.name

theorem find?_effective (bindings : List Binding) (name : Name) :
    find? (effective bindings) name = find? bindings name := by
  rw [find?, find?, effective, find?_eraseDupsBy Binding.name]

end Binding

namespace Environment

variable {first second globals others : Environment} {block : List Binding} {name : Name}

/-- Define the variables of a block behind others, each with the value that it has there. -/
def defineAll (globals values : Environment) (block : List Binding) : Environment :=
  block.foldl (fun values binding =>
    values.define binding.name (binding.template.evaluate (values ++ globals))) values

@[simp]
theorem defineAll_nil (globals values : Environment) : defineAll globals values [] = values := rfl

@[simp]
theorem defineAll_cons (globals values : Environment) (binding : Binding) (rest : List Binding) :
    defineAll globals values (binding :: rest) = defineAll globals
      (values.define binding.name (binding.template.evaluate (values ++ globals))) rest :=
  rfl

theorem foldlM_addBinding (globals values : Environment) (block : List Binding) :
    block.foldlM (addBinding globals) values = .ok (defineAll globals values block) := by
  induction block generalizing values with
  | nil => rfl
  | cons binding rest ih =>
      rw [List.foldlM_cons, addBinding_eq]
      exact ih _

theorem ofBlock_eq (globals : Environment) (block : List Binding) :
    ofBlock globals block = .ok (defineAll globals [] block) :=
  foldlM_addBinding globals [] block

theorem Alike.defineAll (h : first.Alike second) (k : globals.Alike others) (block : List Binding) :
    (defineAll globals first block).Alike (defineAll others second block) := by
  induction block generalizing first second with
  | nil => exact h
  | cons binding rest ih =>
      rw [defineAll_cons, defineAll_cons, (h.append k).evaluate_eq]
      exact ih (h.define _ _)

/-- Bindings of a name that is known already can be left out of a block. -/
theorem Alike.defineAll_filter (h : first.Alike second) (k : globals.Alike others)
    (known : (first.value? name).isSome) (block : List Binding) :
    (Environment.defineAll globals first block).Alike (Environment.defineAll others second
      (block.filter fun binding => decide ((binding.name == name) = false))) := by
  induction block generalizing first second with
  | nil => exact h
  | cons binding rest ih =>
      by_cases dead : binding.name = name
      · rw [List.filter_cons_of_neg (by simp [dead]), defineAll_cons, dead]
        have same := alike_define_of_known known (binding.template.evaluate (first ++ globals))
        refine ih (same.trans h) ?_
        rwa [same name]
      · rw [List.filter_cons_of_pos (by simp [dead]), defineAll_cons, defineAll_cons,
          (h.append k).evaluate_eq]
        refine ih (h.define _ _) ?_
        rw [value?_define, Option.isSome_or, known, Bool.true_or]

/-- A block gives its names the same values as the bindings of it that are in effect. -/
theorem Alike.defineAll_effective (h : first.Alike second) (k : globals.Alike others)
    (block : List Binding) :
    (Environment.defineAll globals first block).Alike
      (Environment.defineAll others second (Binding.effective block)) := by
  induction size : block.length using Nat.strongRecOn generalizing block first second globals with
  | ind size ih =>
      subst size
      cases block with
      | nil => exact h
      | cons binding rest =>
          rw [Binding.effective, List.eraseDupsBy_cons, defineAll_cons, defineAll_cons,
            (h.append k).evaluate_eq]
          generalize binding.template.evaluate (second ++ others) = value
          have known : ((first.define binding.name value).value? binding.name).isSome := by
            rw [value?_define, if_pos rfl, Option.isSome_or, Option.isSome_some, Bool.or_true]
          refine ((h.define binding.name value).defineAll_filter k known rest).trans ?_
          exact ih _ (Nat.lt_succ_of_le (List.length_filter_le _ _)) (.refl _) (.refl _) _ rfl

end Environment

/-- Rules of one name that give every variable the same template. -/
structure Rule.Alike (first second : Rule) : Prop where
  name_eq : first.name = second.name
  binding?_eq : ∀ name, first.binding? name = second.binding? name

theorem Rule.Alike.refl (rule : Rule) : rule.Alike rule :=
  ⟨rfl, fun _ => rfl⟩

section Rules

variable {rules others : List Rule}

theorem map_name_eq_of_alike (h : List.Forall₂ Rule.Alike rules others) :
    rules.map (·.name) = others.map (·.name) := by
  induction h with
  | nil => rfl
  | cons alike _ ih => rw [List.map_cons, List.map_cons, alike.name_eq, ih]

theorem find?_name_of_alike (h : List.Forall₂ Rule.Alike rules others) (name : Name) :
    Option.Rel Rule.Alike (rules.find? (·.name == name)) (others.find? (·.name == name)) := by
  induction h with
  | nil => exact .none
  | cons alike _ ih =>
      rw [List.find?_cons, List.find?_cons, alike.name_eq]
      split
      · exact .some alike
      · exact ih

end Rules

/-- Builds of the same paths by the same rule, whose blocks give every variable the same value. -/
structure Build.Alike (first second : Build) : Prop where
  rule_eq : first.rule = second.rule
  outputs_eq : first.outputs = second.outputs
  explicitInputs_eq : first.explicitInputs = second.explicitInputs
  implicitInputs_eq : first.implicitInputs = second.implicitInputs
  orderOnlyInputs_eq : first.orderOnlyInputs = second.orderOnlyInputs
  block : ∀ {globals others : Environment}, globals.Alike others →
    (globals.defineAll [] first.bindings).Alike (others.defineAll [] second.bindings)

theorem Build.Alike.refl (build : Build) : build.Alike build :=
  ⟨rfl, rfl, rfl, rfl, rfl, fun alike => (Environment.Alike.refl []).defineAll alike build.bindings⟩

theorem Build.Alike.edge_eq {first second : Build} (h : first.Alike second)
    (recipe : Option Recipe) : first.edge recipe = second.edge recipe := by
  simp only [edge, h.rule_eq, h.outputs_eq, h.explicitInputs_eq, h.implicitInputs_eq,
    h.orderOnlyInputs_eq]

namespace Scope

/-- Whatever is looked up in the scope of an edge, definitions that are dead have no part in it. -/
theorem meaning?_ofEdge_congr {inputs outputs : List Bytes} {block values : Environment}
    {rule other : List Binding} {globals others : Environment} (blocks : block.Alike values)
    (rules : ∀ name, Binding.find? rule name = Binding.find? other name)
    (all : globals.Alike others) (name : Name) :
    (ofEdge inputs outputs block rule globals).meaning? name =
      (ofEdge inputs outputs values other others).meaning? name := by
  simp only [meaning?, ofEdge, List.findSome?_cons, Layer.meaning?, blocks name, rules name,
    all name]

end Scope

namespace Manifest

/-- Manifests of the same builds by the same rules, in which every name has the same value. -/
structure Alike (first second : Manifest) : Prop where
  globals : first.globals.Alike second.globals
  rules : List.Forall₂ Rule.Alike first.rules second.rules
  builds : List.Forall₂ Build.Alike first.builds second.builds

variable {first second : Manifest} {build other : Build}

theorem Alike.rule? (h : first.Alike second) (name : Name) :
    Option.Rel Rule.Alike (first.rule? name) (second.rule? name) :=
  find?_name_of_alike h.rules name

theorem Alike.recipe_eq (h : first.Alike second) (builds : build.Alike other)
    {block values : Environment} (blocks : block.Alike values) :
    first.recipe build block = second.recipe other values := by
  rw [recipe, recipe, builds.rule_eq]
  split
  · rfl
  · have rules := h.rule? other.rule
    generalize first.rule? other.rule = found at rules
    generalize second.rule? other.rule = known at rules
    cases rules with
    | none => rfl
    | @some rule further alike =>
        have expand (name : Name) :
            (first.edgeScope build block rule).expandName name =
              (second.edgeScope other values further).expandName name := by
          refine Scope.expandName_congr fun reached _ => ?_
          rw [edgeScope, edgeScope, builds.explicitInputs_eq, builds.outputs_eq]
          exact Scope.meaning?_ofEdge_congr blocks alike.binding?_eq h.globals reached
        simp only [expand]

theorem Alike.resolveBuild_eq (h : first.Alike second) (builds : build.Alike other) (index : Nat) :
    first.resolveBuild build index = second.resolveBuild other index := by
  by_cases empty : other.outputs = []
  · rw [resolveBuild_of_empty empty, resolveBuild_of_empty (builds.outputs_eq.trans empty)]
  · rw [resolveBuild_of_ofBlock empty (Environment.ofBlock_eq _ _),
      resolveBuild_of_ofBlock (builds.outputs_eq ▸ empty) (Environment.ofBlock_eq _ _),
      h.recipe_eq builds (builds.block h.globals), funext builds.edge_eq]

theorem alike_of_globals (globals : first.globals.Alike second.globals)
    (rules : first.rules = second.rules) (builds : first.builds = second.builds) :
    first.Alike second where
  globals := globals
  rules := rules ▸ List.forall₂_same.2 fun rule _ => .refl rule
  builds := builds ▸ List.forall₂_same.2 fun build _ => .refl build

theorem mapM_zipIdx_congr {α β ε : Type} {r : α → α → Prop} {f g : α × Nat → Except ε β}
    {items others : List α} (pairs : List.Forall₂ r items others)
    (same : ∀ item other index, r item other → f (item, index) = g (other, index)) (n : Nat) :
    (items.zipIdx n).mapM f = (others.zipIdx n).mapM g := by
  induction pairs generalizing n with
  | nil => rfl
  | cons alike _ ih =>
      rw [List.zipIdx_cons, List.zipIdx_cons, List.mapM_cons, List.mapM_cons, same _ _ n alike,
        ih (n + 1)]

/-- What a manifest is resolved to, or which error there is, does not depend on dead
    definitions. -/
theorem Alike.resolve_eq (h : first.Alike second) : first.resolve = second.resolve := by
  rw [resolve, resolve, map_name_eq_of_alike h.rules]
  split
  · rfl
  · exact mapM_zipIdx_congr h.builds (fun _ _ index builds => h.resolveBuild_eq builds index) 0

end Manifest

/-- The rule with the bindings in effect. -/
def Rule.effective (rule : Rule) : Rule :=
  { rule with bindings := Binding.effective rule.bindings }

/-- The build with the bindings in effect. -/
def Build.effective (build : Build) : Build :=
  { build with bindings := Binding.effective build.bindings }

/-- The manifest without the variables and bindings whose name occurs earlier in their list. -/
def Manifest.effective (manifest : Manifest) : Manifest :=
  { manifest with
    globals := manifest.globals.effective
    rules := manifest.rules.map Rule.effective
    builds := manifest.builds.map Build.effective }

theorem Rule.alike_effective (rule : Rule) : rule.effective.Alike rule :=
  ⟨rfl, Binding.find?_effective rule.bindings⟩

theorem Build.alike_effective (build : Build) : build.effective.Alike build :=
  ⟨rfl, rfl, rfl, rfl, rfl, fun alike =>
    ((Environment.Alike.refl []).defineAll_effective alike.symm build.bindings).symm⟩

theorem Manifest.alike_effective (manifest : Manifest) : manifest.effective.Alike manifest where
  globals := manifest.globals.alike_effective
  rules := List.forall₂_map_left_iff.2 (List.forall₂_same.2 fun rule _ => rule.alike_effective)
  builds := List.forall₂_map_left_iff.2 (List.forall₂_same.2 fun build _ => build.alike_effective)

namespace Declaration

theorem evaluate_congr {first second : Environment} (h : first.Alike second)
    (declaration : Declaration) : declaration.evaluate first = declaration.evaluate second := by
  obtain ⟨statement, block⟩ := declaration
  cases statement with
  | rule name => rfl
  | assignment binding => simp only [evaluate, h.evaluate_eq]
  | default path => simp only [evaluate, h.evaluate_eq]
  | build line => simp only [evaluate, BuildLine.evaluate, Template.evaluateAll, h.evaluate_eq]

/-- Declarations only depend on the definitions before them that are in effect. -/
theorem evaluateAll_congr {first second : Environment} (h : first.Alike second)
    (declarations : List Declaration) :
    evaluateAll first declarations = evaluateAll second declarations := by
  induction declarations generalizing first second with
  | nil => rfl
  | cons declaration rest ih =>
      rw [evaluateAll, evaluateAll, evaluate_congr h]
      refine congrArg (_ :: ·) (ih ?_)
      cases declaration.evaluate second with
      | global name value => exact h.define name value
      | rule | build | default => exact h

end Declaration

namespace Manifest

/-- Every entry counts as one item of a manifest. -/
theorem ofEntries_eq_empty {entries : List Entry} (h : ofEntries entries = {}) : entries = [] := by
  cases entries with
  | nil => rfl
  | cons entry rest =>
      cases entry <;>
        simp [ofEntries, Entry.global?, Entry.rule?, Entry.build?, Entry.default?] at h

theorem single_of_append {manifest : Manifest} {name other : Name} {value bound : Bytes}
    (h : append { globals := [(name, value)] } manifest = { globals := [(other, bound)] }) :
    name = other ∧ manifest = {} := by
  obtain ⟨globals, rules, builds, defaults⟩ := manifest
  simp_all [append]

/-- Declarations that give a single variable are a single assignment. -/
theorem exists_assignment_of_single {declarations : List Declaration} {env : Environment}
    {name : Name} {value : Bytes}
    (h : ofEntries (Declaration.evaluateAll env declarations) = { globals := [(name, value)] }) :
    ∃ template block, declarations = [⟨.assignment ⟨name, template⟩, block⟩] := by
  cases declarations with
  | nil => cases h
  | cons declaration rest =>
      obtain ⟨statement, block⟩ := declaration
      cases statement with
      | rule | build | default =>
          simp [Declaration.evaluateAll, Declaration.evaluate, ofEntries, Entry.rule?, Entry.build?,
            Entry.default?] at h
      | assignment binding =>
          change append { globals := [(binding.name, binding.template.evaluate env)] }
            (ofEntries (Declaration.evaluateAll (env.define binding.name _) rest)) = _ at h
          obtain ⟨rfl, nothing⟩ := single_of_append h
          cases rest with
          | nil => exact ⟨binding.template, block, rfl⟩
          | cons further rest => cases ofEntries_eq_empty nothing

/-- A further text is read alike, whether a known name was defined once more before it or not. -/
theorem extend_known {manifest : Manifest} {name : Name}
    (known : (manifest.globals.value? name).isSome) (bound text : Bytes) :
    (∃ error, manifest.extend text = .error error ∧
      (manifest.append { globals := [(name, bound)] }).extend text = .error error) ∨
    ∃ added, manifest.extend text = .ok (manifest.append added) ∧
      (manifest.append { globals := [(name, bound)] }).extend text =
        .ok ((manifest.append { globals := [(name, bound)] }).append added) := by
  cases finished : (Document.read text).failure with
  | some failure => exact .inl ⟨_, extend_of_failure finished _, extend_of_failure finished _⟩
  | none =>
      have same : (manifest.append { globals := [(name, bound)] }).globals.Alike manifest.globals :=
        Environment.alike_define_of_known known bound
      refine .inr ⟨_, extend_of_read finished _, ?_⟩
      rw [extend_of_read finished, Declaration.evaluateAll_congr same]

theorem alike_append_known {manifest : Manifest} {name : Name}
    (known : (manifest.globals.value? name).isSome) (bound : Bytes) (added : Manifest) :
    ((manifest.append { globals := [(name, bound)] }).append added).Alike
      (manifest.append added) :=
  alike_of_globals ((Environment.alike_define_of_known known bound).append (.refl _))
    (by simp [append]) (by simp [append])

theorem parse_known {first line second : Bytes} {manifest : Manifest} {name : Name} {value : Bytes}
    (accepted : parse first = .ok manifest) (known : (manifest.globals.value? name).isSome)
    (assigned : parse line = .ok { globals := [(name, value)] })
    (unindented : second.head? ≠ some Byte.space) :
    ((∃ error, parse (first ++ line ++ second) = .error error) ∧
      ∃ error, parse (first ++ second) = .error error) ∨
    ∃ bound added, parse (first ++ second) = .ok (manifest.append added) ∧
      parse (first ++ line ++ second) =
        .ok ((manifest.append { globals := [(name, bound)] }).append added) := by
  obtain ⟨file, valid, rfl, same⟩ := extend_eq_ok_iff.1 accepted
  obtain ⟨further, validFurther, rfl, single⟩ := extend_eq_ok_iff.1 assigned
  obtain ⟨template, block, declared⟩ := exists_assignment_of_single single
  have stops : Written.Stops Byte.isSpace second.head? := by
    intro b next
    rw [Option.mem_def] at next
    simpa [Byte.isSpace, next] using unindented
  rw [nil_append] at same
  have both : ofEntries (Declaration.evaluateAll []
      (Written.File.declarations (file ++ further))) =
        manifest.append { globals := [(name, template.evaluate manifest.globals)] } := by
    rw [Written.File.declarations_append, Declaration.evaluateAll_append, ofEntries_append, same,
      declared]
    rfl
  have short := extend_file_append {} valid stops
  have long := extend_file_append {} (valid.append validFurther) stops
  rw [nil_append, same] at short
  rw [Written.File.text_append, nil_append, both] at long
  rw [parse, parse, short, long]
  obtain ⟨error, hshort, hlong⟩ | ⟨added, hshort, hlong⟩ :=
    extend_known known (template.evaluate manifest.globals) second
  · rw [hshort, hlong]
    exact .inl ⟨⟨_, rfl⟩, _, rfl⟩
  · rw [hshort, hlong]
    exact .inr ⟨_, added, rfl, rfl⟩

/-- Of several definitions of a name the first is in effect, and the others have no part in what a
    manifest is resolved to. In a text, a further assignment to a known variable only adds that
    variable once more. -/
theorem first_definition_wins :
    (∀ manifest : Manifest, manifest.effective.resolve = manifest.resolve) ∧
    ∀ (first line second : Bytes) (manifest : Manifest) (name : Name) (value : Bytes),
      parse first = .ok manifest → (manifest.globals.value? name).isSome →
      parse line = .ok { globals := [(name, value)] } → second.head? ≠ some Byte.space →
      ((∃ long, parse (first ++ line ++ second) = .ok long) ↔
        ∃ short, parse (first ++ second) = .ok short) ∧
      ∀ long short, parse (first ++ line ++ second) = .ok long →
        parse (first ++ second) = .ok short →
          (∃ later bound, short.globals = manifest.globals ++ later ∧
            long = { short with globals := manifest.globals ++ (name, bound) :: later }) ∧
          long.resolve = short.resolve := by
  refine ⟨fun manifest => manifest.alike_effective.resolve_eq, ?_⟩
  intro first line second manifest name value accepted known assigned unindented
  obtain ⟨⟨error, hlong⟩, other, hshort⟩ | ⟨bound, added, hshort, hlong⟩ :=
    parse_known accepted known assigned unindented
  · rw [hlong, hshort]
    exact ⟨⟨nofun, nofun⟩, nofun⟩
  · rw [hlong, hshort]
    refine ⟨⟨fun _ => ⟨_, rfl⟩, fun _ => ⟨_, rfl⟩⟩, ?_⟩
    rintro _ _ ⟨⟩ ⟨⟩
    refine ⟨⟨added.globals, bound, rfl, ?_⟩, (alike_append_known known bound added).resolve_eq⟩
    simp [append]

/-- The rule sees the first value of `x`, with and without the second definition. -/
theorem first_definition_wins_twice :
    let second := ascii "rule r\n  command = $x\nbuild a: r\n"
    let rule : Rule := ⟨ascii "r", [⟨Keyword.command, [.reference (ascii "x")]⟩]⟩
    let build : Build := ⟨ascii "r", [ascii "a"], [], [], [], []⟩
    let short : Manifest :=
      { globals := [(ascii "x", ascii "1")], rules := [rule], builds := [build] }
    let long : Manifest := { short with globals := [(ascii "x", ascii "1"), (ascii "x", ascii "2")] }
    parse (ascii "x = 1\n" ++ ascii "x = 2\n" ++ second) = .ok long ∧
      parse (ascii "x = 1\n" ++ second) = .ok short ∧ long.resolve = short.resolve := by
  intro second rule build short long
  have hlong : parse (ascii "x = 1\n" ++ ascii "x = 2\n" ++ second) = .ok long := by
    decide +kernel
  have hshort : parse (ascii "x = 1\n" ++ second) = .ok short := by decide +kernel
  have accepted : parse (ascii "x = 1\n") = .ok { globals := [(ascii "x", ascii "1")] } := by
    decide +kernel
  have assigned : parse (ascii "x = 2\n") = .ok { globals := [(ascii "x", ascii "2")] } := by
    decide +kernel
  obtain ⟨-, same⟩ := first_definition_wins.2 _ _ second _ _ _ accepted (by decide) assigned
    (by decide)
  exact ⟨hlong, hshort, (same long short hlong hshort).2⟩

end Manifest

end BuildFile
