import BuildFile.Proofs.CyclicExpansion
import Mathlib.Data.List.Forall2

/-! # Expansion as evaluation

Expansion looks names up layer by layer and goes on within the templates it finds. Evaluation
looks them up once, in a flat list of values. Where expansion succeeds it is evaluation in the
list of all layers, one behind the other, in which the variables of a rule stand with the values
that their names expand to. Which names are being expanded around a template decides only
whether its expansion fails.
-/

namespace BuildFile

namespace Scope

variable {scope : Scope} {active fewer : List Name} {name : Name} {template rest : Template}
  {env : Environment} {text result : Bytes}

theorem expandReference_of_not_isTemplate (h : ¬ scope.IsTemplate name) (active other : List Name) :
    scope.expandReference active name = scope.expandReference other name := by
  unfold expandReference
  split
  · rfl
  · rfl
  · rfl
  · next template meaning => exact absurd ⟨template, meaning⟩ h

/-- Fewer names on the way do not change what an expansion that succeeds gives. -/
theorem expandWithin_of_subset (subset : fewer ⊆ active)
    (h : scope.expandWithin active template = .ok result) :
    scope.expandWithin fewer template = .ok result := by
  induction active, template using expandWithin.induct scope generalizing fewer result with
  | case1 active =>
      rw [expandWithin] at h ⊢
      exact h
  | case2 active text rest ih =>
      rw [expandWithin] at h ⊢
      obtain ⟨value, hrest, done⟩ := bind_eq_ok h
      rw [ih subset hrest]
      exact done
  | case3 active name rest inner ih =>
      rw [expandWithin_reference] at h ⊢
      obtain ⟨text, hfirst, h⟩ := bind_eq_ok h
      obtain ⟨value, hrest, done⟩ := bind_eq_ok h
      have first : scope.expandReference fewer name = .ok text := by
        by_cases isTemplate : scope.IsTemplate name
        · obtain ⟨template, meaning⟩ := isTemplate
          rw [expandReference_template meaning] at hfirst ⊢
          split at hfirst
          · cases hfirst
          · next idle =>
            rw [if_neg fun met => idle (subset met)]
            exact inner template meaning idle (List.cons_subset_cons name subset) hfirst
        · rw [← hfirst]
          exact expandReference_of_not_isTemplate isTemplate fewer active
      rw [first, ih subset hrest]
      exact done

theorem expand_of_expandWithin (h : scope.expandWithin active template = .ok result) :
    scope.expand template = .ok result :=
  expandWithin_of_subset (List.nil_subset active) h

theorem expandName_eq (scope : Scope) (name : Name) :
    scope.expandName name = scope.expandReference [] name := by
  rw [expandName, expand, expandWithin_reference, expandWithin]
  cases scope.expandReference [] name with
  | error error => rfl
  | ok text => exact congrArg Except.ok (List.append_nil text)

/-- Every name has the value that it expands to, where it can be expanded at all. -/
def Agrees (scope : Scope) (env : Environment) : Prop :=
  ∀ name text, scope.expandName name = .ok text → env.value name = text

theorem Agrees.evaluate_eq (agrees : scope.Agrees env) (h : scope.expand template = .ok text) :
    template.evaluate env = text := by
  unfold expand at h
  induction template generalizing text with
  | nil =>
      rw [expandWithin] at h
      cases h
      rfl
  | cons part rest ih =>
      cases part with
      | literal literal =>
          rw [expandWithin] at h
          obtain ⟨value, hrest, done⟩ := bind_eq_ok h
          cases done
          exact congrArg (literal ++ ·) (ih hrest)
      | reference name =>
          rw [expandWithin_reference, ← expandName_eq] at h
          obtain ⟨first, hfirst, h⟩ := bind_eq_ok h
          obtain ⟨value, hrest, done⟩ := bind_eq_ok h
          cases done
          have same : env.value name = first := agrees name first hfirst
          rw [← same, ← ih hrest]
          rfl

/-- The paths of an edge under the names reserved for them, as values. -/
def pathValues (inputs outputs : List Bytes) : Environment :=
  [(Keyword.inputs, joinPaths inputs false), (Keyword.outputs, joinPaths outputs false),
    (Keyword.inputLines, joinPaths inputs true)]

/-- Lists the variables of a rule with the values that their names expand to in a scope. Where a
    name cannot be expanded, any value may stand. -/
def Lists (scope : Scope) (rule : List Binding) (values : Environment) : Prop :=
  List.Forall₂ (fun binding entry => entry.1 = binding.name ∧
    ∀ text, scope.expandName binding.name = .ok text → entry.2 = text) rule values

/-- A layer as a list of values. -/
inductive ListsLayer (scope : Scope) : Layer → Environment → Prop where
  | paths (inputs outputs : List Bytes) :
      ListsLayer scope (.paths inputs outputs) (pathValues inputs outputs)
  | values (env : Environment) : ListsLayer scope (.values env) env
  | templates {rule : List Binding} {values : Environment} (lists : scope.Lists rule values) :
      ListsLayer scope (.templates rule) values

section Lookup

variable {rule : List Binding} {values : Environment} {layer : Layer} {meaning : Meaning}

theorem Lists.value?_of_find?_none (h : scope.Lists rule values)
    (unbound : Binding.find? rule name = none) : values.value? name = none := by
  induction h with
  | nil => rfl
  | @cons binding entry _ _ named _ ih =>
      rw [Binding.find?_cons] at unbound
      split at unbound
      · cases unbound
      · next other =>
        rw [Environment.value?_cons, named.1, if_neg other]
        exact ih unbound

theorem Lists.value?_of_find?_some (h : scope.Lists rule values)
    (bound : Binding.find? rule name = some template)
    (expanded : scope.expandName name = .ok text) : values.value? name = some text := by
  induction h with
  | nil => cases bound
  | @cons binding entry _ _ named _ ih =>
      rw [Binding.find?_cons] at bound
      rw [Environment.value?_cons, named.1]
      split at bound
      · next same =>
        rw [if_pos same, named.2 text (same ▸ expanded)]
      · next other =>
        rw [if_neg other]
        exact ih bound

theorem value?_pathValues_of_some {inputs outputs : List Bytes}
    (known : Layer.meaning? name (.paths inputs outputs) = some meaning) :
    ∃ paths onLines, meaning = .paths paths onLines ∧
      (pathValues inputs outputs).value? name = some (joinPaths paths onLines) := by
  simp only [Layer.meaning?] at known
  simp only [pathValues, Environment.value?_cons, eq_comm (b := name)]
  split at known
  · next first =>
    cases known
    exact ⟨_, _, rfl, if_pos first⟩
  · next other =>
    rw [if_neg other]
    split at known
    · next second =>
      cases known
      exact ⟨_, _, rfl, if_pos second⟩
    · next other =>
      rw [if_neg other]
      split at known
      · next third =>
        cases known
        exact ⟨_, _, rfl, if_pos third⟩
      · cases known

theorem ListsLayer.value?_of_none (h : scope.ListsLayer layer env)
    (unknown : layer.meaning? name = none) : env.value? name = none := by
  cases h with
  | paths inputs outputs =>
      simp only [Layer.meaning?] at unknown
      split at unknown
      · cases unknown
      · split at unknown
        · cases unknown
        · split at unknown
          · cases unknown
          · simp_all [pathValues, Environment.value?_cons, eq_comm]
  | values => simpa [Layer.meaning?] using unknown
  | templates lists =>
      apply lists.value?_of_find?_none
      simpa [Layer.meaning?] using unknown

theorem expandName_none (h : scope.meaning? name = none) : scope.expandName name = .ok [] := by
  simp only [expandName_eq, expandReference, h]

theorem expandName_value (h : scope.meaning? name = some (.value text)) :
    scope.expandName name = .ok text := by
  simp only [expandName_eq, expandReference, h]

theorem expandName_paths {paths : List Bytes} {onLines : Bool}
    (h : scope.meaning? name = some (.paths paths onLines)) :
    scope.expandName name = .ok (joinPaths paths onLines) := by
  simp only [expandName_eq, expandReference, h]

/-- The layer that decides what a name means also decides which value is found for it. -/
theorem ListsLayer.value?_of_some (h : scope.ListsLayer layer env)
    (known : layer.meaning? name = some meaning) (decides : scope.meaning? name = some meaning)
    (expanded : scope.expandName name = .ok text) : env.value? name = some text := by
  cases h with
  | paths inputs outputs =>
      obtain ⟨paths, onLines, rfl, found⟩ := value?_pathValues_of_some known
      rw [expandName_paths decides] at expanded
      cases expanded
      exact found
  | values =>
      obtain ⟨value, found, rfl⟩ := Option.map_eq_some_iff.1 known
      rw [expandName_value decides] at expanded
      cases expanded
      exact found
  | templates lists =>
      obtain ⟨template, bound, rfl⟩ := Option.map_eq_some_iff.1 known
      exact lists.value?_of_find?_some bound expanded

end Lookup

/-- The lists of all layers, the innermost first, agree with the scope. -/
theorem agrees_of_listsLayer {lists : List Environment}
    (h : List.Forall₂ scope.ListsLayer scope lists) : scope.Agrees lists.flatten := by
  intro name text expanded
  -- The layers that are passed over know nothing, so what is left of them decides.
  suffices ∀ {layers lists}, List.Forall₂ scope.ListsLayer layers lists →
      scope.meaning? name = Scope.meaning? layers name →
      Environment.value lists.flatten name = text from this h rfl
  intro layers lists h
  induction h with
  | nil =>
      intro decides
      rw [expandName_none decides] at expanded
      cases expanded
      rfl
  | @cons layer env layers lists first _ ih =>
      intro decides
      rw [meaning?, meaning?, List.findSome?_cons] at decides
      rw [Environment.value, List.flatten_cons, Environment.value?_append]
      split at decides
      · next meaning known =>
        rw [first.value?_of_some known decides expanded]
        rfl
      · next unknown =>
        rw [first.value?_of_none unknown]
        exact ih decides

theorem exists_expand (final : ∀ name, ¬ scope.IsTemplate name) (template : Template) :
    ∃ text, scope.expand template = .ok text := by
  cases result : scope.expand template with
  | ok text => exact ⟨text, rfl⟩
  | error error =>
      obtain ⟨name, -, isTemplate, -⟩ := (expand_eq_error_iff scope template).1 ⟨error, result⟩
      exact absurd isTemplate (final name)

theorem expand_of_agrees (final : ∀ name, ¬ scope.IsTemplate name) (agrees : scope.Agrees env)
    (template : Template) : scope.expand template = .ok (template.evaluate env) := by
  obtain ⟨text, done⟩ := exists_expand final template
  rw [done, agrees.evaluate_eq done]

theorem not_isTemplate_of_values {envs : List Environment} (name : Name) :
    ¬ IsTemplate (envs.map .values) name := by
  rintro ⟨template, meaning⟩
  obtain ⟨layer, member, found⟩ := List.exists_of_findSome?_eq_some meaning
  obtain ⟨env, -, rfl⟩ := List.mem_map.1 member
  simp [Layer.meaning?] at found

theorem expand_values (envs : List Environment) (template : Template) :
    expand (envs.map .values) template = .ok (template.evaluate envs.flatten) := by
  refine expand_of_agrees not_isTemplate_of_values (agrees_of_listsLayer ?_) template
  rw [List.forall₂_map_left_iff, List.forall₂_same]
  exact fun env _ => .values env

theorem expand_ofFile (globals : Environment) (template : Template) :
    (ofFile globals).expand template = .ok (template.evaluate globals) := by
  simpa [ofFile] using expand_values [globals] template

theorem expand_ofBuild (block globals : Environment) (template : Template) :
    (ofBuild block globals).expand template = .ok (template.evaluate (block ++ globals)) := by
  simpa [ofBuild] using expand_values [block, globals] template

theorem agrees_ofEdge {inputs outputs : List Bytes} {block globals values : Environment}
    {rule : List Binding} (lists : (ofEdge inputs outputs block rule globals).Lists rule values) :
    (ofEdge inputs outputs block rule globals).Agrees
      (pathValues inputs outputs ++ block ++ values ++ globals) := by
  have layers := agrees_of_listsLayer (.cons (.paths inputs outputs)
    (.cons (.values block) (.cons (.templates lists) (.cons (.values globals) .nil))))
  simpa [ofEdge] using layers

/-- Expansion gives what evaluation gives: always where all values are final, and in the scope of
    an edge wherever it succeeds. The names that are being expanded around a template have no
    part in what it expands to. -/
theorem expansion_eq_evaluation :
    (∀ (globals : Environment) (template : Template),
      (ofFile globals).expand template = .ok (template.evaluate globals)) ∧
    (∀ (block globals : Environment) (template : Template),
      (ofBuild block globals).expand template = .ok (template.evaluate (block ++ globals))) ∧
    (∀ (inputs outputs : List Bytes) (block : Environment) (rule : List Binding)
        (globals values : Environment) (template : Template) (text : Bytes),
      (ofEdge inputs outputs block rule globals).Lists rule values →
      (ofEdge inputs outputs block rule globals).expand template = .ok text →
      text = template.evaluate (pathValues inputs outputs ++ block ++ values ++ globals)) ∧
    ∀ (scope : Scope) (active : List Name) (template : Template) (text : Bytes),
      scope.expandWithin active template = .ok text → scope.expand template = .ok text := by
  refine ⟨expand_ofFile, expand_ofBuild, ?_, fun _ _ _ _ => expand_of_expandWithin⟩
  intro inputs outputs block rule globals values template text lists expanded
  exact ((agrees_ofEdge lists).evaluate_eq expanded).symm

/-- A rule with a variable that refers to itself, which the command does not use. -/
def compileRule : List Binding :=
  [⟨ascii "command", [.literal (ascii "cc "), .reference (ascii "flags"), .literal (ascii " "),
      .reference (ascii "in")]⟩,
    ⟨ascii "flags", [.reference (ascii "level"), .literal (ascii " -Wall")]⟩,
    ⟨ascii "loop", [.reference (ascii "loop")]⟩]

def compile : Scope :=
  ofEdge [ascii "a.c", ascii "b c.c"] [ascii "x.o"] [(ascii "level", ascii "-O0")] compileRule
    [(ascii "level", ascii "-O2")]

def compileValues : Environment :=
  [(ascii "command", ascii "cc -O0 -Wall a.c 'b c.c'"), (ascii "flags", ascii "-O0 -Wall"),
    (ascii "loop", ascii "anything")]

theorem expansion_eq_evaluation_compile :
    compile.Lists compileRule compileValues ∧
      compile.expand [.reference (ascii "command")] = .ok (ascii "cc -O0 -Wall a.c 'b c.c'") ∧
      ascii "cc -O0 -Wall a.c 'b c.c'" =
        Template.evaluate [.reference (ascii "command")]
          (pathValues [ascii "a.c", ascii "b c.c"] [ascii "x.o"] ++
            [(ascii "level", ascii "-O0")] ++ compileValues ++ [(ascii "level", ascii "-O2")]) := by
  have value {name : Name} {text : Bytes} (h : compile.expandName name = .ok text) :
      ∀ other, compile.expandName name = .ok other → text = other := by
    intro other same
    rw [h] at same
    exact Except.ok.inj same
  have commandIs : compile.meaning? (ascii "command") = some (.template [.literal (ascii "cc "),
      .reference (ascii "flags"), .literal (ascii " "), .reference (ascii "in")]) := by decide
  have flagsIs : compile.meaning? (ascii "flags") =
      some (.template [.reference (ascii "level"), .literal (ascii " -Wall")]) := by decide
  have loopIs : compile.meaning? (ascii "loop") =
      some (.template [.reference (ascii "loop")]) := by decide
  have levelIs : compile.meaning? (ascii "level") = some (.value (ascii "-O0")) := by decide
  have inputsAre : compile.meaning? (ascii "in") =
      some (.paths [ascii "a.c", ascii "b c.c"] false) := by decide
  have flags (active : List Name) (idle : ascii "flags" ∉ active) :
      compile.expandReference active (ascii "flags") = .ok (ascii "-O0 -Wall") := by
    rw [expandReference_template flagsIs, if_neg idle]
    simp only [expandWithin_reference, expandReference, levelIs, expandWithin]
    rfl
  have inner := flags [ascii "command"] (by decide)
  have inputs (active : List Name) :
      compile.expandReference active (ascii "in") = .ok (ascii "a.c 'b c.c'") := by
    simp only [expandReference, inputsAre]
    rfl
  have loop : compile.expandName (ascii "loop") = .error ⟨[ascii "loop"]⟩ := by
    rw [expandName_eq, expandReference_template loopIs, if_neg (by decide),
      expandWithin_reference, expandReference_template loopIs, if_pos (by decide)]
    rfl
  have expanded : compile.expand [.reference (ascii "command")] =
      .ok (ascii "cc -O0 -Wall a.c 'b c.c'") := by
    rw [← expandName, expandName_eq, expandReference_template commandIs, if_neg (by decide)]
    simp only [expandWithin_reference, expandWithin, inner, inputs]
    rfl
  have lists : compile.Lists compileRule compileValues := by
    refine .cons ⟨rfl, value expanded⟩ (.cons ⟨rfl, value ?_⟩ (.cons ⟨rfl, ?_⟩ .nil))
    · exact (expandName_eq _ _).trans (flags [] (by decide))
    · intro text same
      rw [loop] at same
      cases same
  exact ⟨lists, expanded, expansion_eq_evaluation.2.2.1 _ _ _ _ _ _ _ _ lists expanded⟩

end Scope

end BuildFile
