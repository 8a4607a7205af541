import BuildFile.Edge
import BuildFile.Proofs.Evaluation
import Mathlib.Data.List.Nodup
import Mathlib.Data.Nat.Find
import Mathlib.Order.Bounds.Defs

/-! # What resolving gives

A manifest whose rules have names of their own is resolved build by build. For each build it is
said here, without the steps that are taken, which error it leads to or which edge it becomes.
The first build that leads to an error decides; where there is none, every build has its edge.
-/

namespace BuildFile

section First

variable {p q : Nat → Prop} {α β ε : Type}

theorem exists_isLeast_of_zero (h : p 0) : (∃ i, IsLeast {i | p i} i ∧ q i) ↔ q 0 := by
  constructor
  · rintro ⟨i, least, found⟩
    obtain rfl : i = 0 := Nat.le_zero.1 (least.2 h)
    exact found
  · intro found
    exact ⟨0, ⟨h, fun _ _ => Nat.zero_le _⟩, found⟩

theorem exists_isLeast_of_not_zero (h : ¬ p 0) :
    (∃ i, IsLeast {i | p i} i ∧ q i) ↔ ∃ i, IsLeast {i | p (i + 1)} i ∧ q (i + 1) := by
  constructor
  · rintro ⟨i, ⟨holds, least⟩, found⟩
    cases i with
    | zero => exact absurd holds h
    | succ i => exact ⟨i, ⟨holds, fun j later => Nat.le_of_succ_le_succ (least later)⟩, found⟩
  · rintro ⟨i, ⟨holds, least⟩, found⟩
    refine ⟨i + 1, ⟨holds, fun j later => ?_⟩, found⟩
    cases j with
    | zero => exact absurd later h
    | succ j => exact Nat.succ_le_succ (least later)

theorem mapM_cons_of_error {f : α → Except ε β} {first : α} {error : ε} (h : f first = .error error)
    (rest : List α) : (first :: rest).mapM f = .error error := by
  rw [List.mapM_cons, h]
  rfl

theorem mapM_cons_of_ok {f : α → Except ε β} {first : α} {value : β} (h : f first = .ok value)
    (rest : List α) : (first :: rest).mapM f = (rest.mapM f).map (value :: ·) := by
  rw [List.mapM_cons, h]
  rfl

theorem map_eq_error_iff {f : α → β} {result : Except ε α} {error : ε} :
    result.map f = .error error ↔ result = .error error := by
  cases result <;> simp [Except.map]

variable {f : α × Nat → Except ε β}

/-- The first item that fails decides the error. -/
theorem mapM_zipIdx_eq_error_iff {items : List α} {error : ε} (n : Nat) :
    (items.zipIdx n).mapM f = .error error ↔
      ∃ i, IsLeast {i | ∃ item error, items[i]? = some item ∧ f (item, i + n) = .error error} i ∧
        ∃ item, items[i]? = some item ∧ f (item, i + n) = .error error := by
  induction items generalizing n with
  | nil => simp [pure, Except.pure]
  | cons first rest ih =>
      have next (i : Nat) : i + 1 + n = i + (n + 1) := by omega
      rw [List.zipIdx_cons]
      cases result : f (first, n) with
      | error other =>
          rw [exists_isLeast_of_zero ⟨first, other, rfl, by rwa [Nat.zero_add]⟩,
            mapM_cons_of_error result]
          simp [result]
      | ok value =>
          rw [exists_isLeast_of_not_zero (by simp [result]), mapM_cons_of_ok result,
            map_eq_error_iff, ih (n + 1)]
          simp only [List.getElem?_cons_succ, next]

/-- Where no item fails there is a result for each. -/
theorem exists_mapM_zipIdx {r : α → β → Prop} {items : List α} (n : Nat)
    (h : ∀ i item, items[i]? = some item → ∃ value, f (item, i + n) = .ok value ∧ r item value) :
    ∃ values, (items.zipIdx n).mapM f = .ok values ∧
      List.Forall₂ r items values := by
  induction items generalizing n with
  | nil => exact ⟨[], rfl, .nil⟩
  | cons first rest ih =>
      obtain ⟨value, done, related⟩ := h 0 first rfl
      rw [Nat.zero_add] at done
      obtain ⟨values, others, pairs⟩ := ih (n + 1) fun i item found => by
        have next : i + 1 + n = i + (n + 1) := by omega
        exact next ▸ h (i + 1) item found
      refine ⟨value :: values, ?_, .cons related pairs⟩
      rw [List.zipIdx_cons, mapM_cons_of_ok done, others]
      rfl

end First

/-- The name at an index is among the seen ones or stands at an earlier index. -/
def RepeatsAt (seen names : List Name) (index : Nat) : Prop :=
  ∃ name, names[index]? = some name ∧ (name ∈ seen ∨ name ∈ names.take index)

theorem repeatsAt_zero {seen names : List Name} {name : Name} :
    RepeatsAt seen (name :: names) 0 ↔ name ∈ seen := by
  simp [RepeatsAt]

theorem repeatsAt_succ {seen names : List Name} {name : Name} {index : Nat} :
    RepeatsAt seen (name :: names) (index + 1) ↔ RepeatsAt (name :: seen) names index := by
  simp only [RepeatsAt, List.getElem?_cons_succ, List.take_succ_cons, List.mem_cons]
  constructor
  · rintro ⟨other, found, h⟩
    exact ⟨other, found, by tauto⟩
  · rintro ⟨other, found, h⟩
    exact ⟨other, found, by tauto⟩

theorem firstRepeated?_eq_some_iff {seen names : List Name} {name : Name} :
    firstRepeated? seen names = some name ↔
      ∃ i, IsLeast {i | RepeatsAt seen names i} i ∧ names[i]? = some name := by
  induction names generalizing seen with
  | nil => simp
  | cons first rest ih =>
      by_cases known : first ∈ seen
      · rw [exists_isLeast_of_zero (repeatsAt_zero.2 known)]
        simp [firstRepeated?_cons, known]
      · rw [exists_isLeast_of_not_zero (repeatsAt_zero.not.2 known)]
        simp [firstRepeated?_cons, known, ih, repeatsAt_succ]

theorem firstRepeated?_eq_none_iff {seen names : List Name} :
    firstRepeated? seen names = none ↔ names.Nodup ∧ ∀ name ∈ names, name ∉ seen := by
  induction names generalizing seen with
  | nil => simp
  | cons first rest ih =>
      by_cases known : first ∈ seen
      · simp [firstRepeated?_cons, known]
      · rw [firstRepeated?_cons, if_neg known, ih]
        simp only [List.nodup_cons, List.mem_cons, not_or, forall_eq_or_imp]
        constructor
        · rintro ⟨nodup, others⟩
          exact ⟨⟨fun member => (others first member).1 rfl, nodup⟩, known,
            fun name member => (others name member).2⟩
        · rintro ⟨⟨fresh, nodup⟩, -, others⟩
          refine ⟨nodup, fun name member => ⟨?_, others name member⟩⟩
          rintro rfl
          exact fresh member

/-- The values of a block: each variable is its template evaluated in the variables before it and
    then the global ones, of which the first that has the name counts. -/
inductive IsEvaluated (globals : Environment) : List Binding → Environment → Prop where
  | nil : IsEvaluated globals [] []
  | snoc {block values} (binding : Binding) (before : IsEvaluated globals block values) :
      IsEvaluated globals (block ++ [binding])
        (values ++ [(binding.name, binding.template.evaluate (values ++ globals))])

theorem addBinding_eq (globals values : Environment) (binding : Binding) :
    Environment.addBinding globals values binding =
      .ok (values.define binding.name (binding.template.evaluate (values ++ globals))) := by
  rw [Environment.addBinding, Scope.expand_ofBuild]
  rfl

theorem ofBlock_concat {globals values : Environment} {block : List Binding}
    (before : Environment.ofBlock globals block = .ok values) (binding : Binding) :
    Environment.ofBlock globals (block ++ [binding]) =
      .ok (values.define binding.name (binding.template.evaluate (values ++ globals))) := by
  rw [Environment.ofBlock] at before
  rw [Environment.ofBlock, List.foldlM_append, before, ← addBinding_eq]
  exact bind_pure (Environment.addBinding globals values binding)

theorem IsEvaluated.ofBlock_eq {globals values : Environment} {block : List Binding}
    (h : IsEvaluated globals block values) : Environment.ofBlock globals block = .ok values := by
  induction h with
  | nil => rfl
  | snoc binding before ih => exact ofBlock_concat ih binding

theorem exists_isEvaluated (globals : Environment) (block : List Binding) :
    ∃ values, IsEvaluated globals block values := by
  induction block using List.reverseRecOn with
  | nil => exact ⟨[], .nil⟩
  | append_singleton block binding ih =>
      obtain ⟨values, before⟩ := ih
      exact ⟨_, before.snoc binding⟩

/-- The edge of a build that runs a recipe, or nothing. -/
def Build.edge (build : Build) (recipe : Option Recipe) : Edge where
  rule := build.rule
  outputs := build.outputs
  explicitInputs := build.explicitInputs
  implicitInputs := build.implicitInputs
  orderOnlyInputs := build.orderOnlyInputs
  recipe

namespace Manifest

/-- The rule at an index has the name of the phony rule or of a rule before it. -/
def Clashes (manifest : Manifest) (index : Nat) : Prop :=
  ∃ rule, manifest.rules[index]? = some rule ∧
    (rule.name = Keyword.phony ∨ ∃ earlier ∈ manifest.rules.take index, earlier.name = rule.name)

/-- The rule of a build that is not phony, and the scope in which the rule is expanded for it: the
    paths of the build, the variables of its block, those of the rule, and the global ones. -/
structure Uses (manifest : Manifest) (build : Build) (rule : Rule) (scope : Scope) : Prop where
  not_phony : build.rule ≠ Keyword.phony
  mem : rule ∈ manifest.rules
  name : rule.name = build.rule
  scope_eq : ∃ values, IsEvaluated manifest.globals build.bindings values ∧
    scope = .ofEdge build.explicitInputs build.outputs values rule.bindings manifest.globals

/-- The error that the build at an index leads to. Each kind presupposes that those before it do
    not apply. -/
inductive Fails (manifest : Manifest) (index : Nat) (build : Build) : ResolveError → Prop where
  | noOutputs (empty : build.outputs = []) : Fails manifest index build (.noOutputs index)
  | undefinedRule (nonempty : build.outputs ≠ []) (not_phony : build.rule ≠ Keyword.phony)
      (undefined : ∀ rule ∈ manifest.rules, rule.name ≠ build.rule) :
      Fails manifest index build (.undefinedRule build.rule)
  | command {rule scope error} (nonempty : build.outputs ≠ [])
      (uses : manifest.Uses build rule scope)
      (failed : scope.expandName Keyword.command = .error error) :
      Fails manifest index build (.expansion error)
  | description {rule scope command error} (nonempty : build.outputs ≠ [])
      (uses : manifest.Uses build rule scope)
      (expanded : scope.expandName Keyword.command = .ok command)
      (failed : scope.expandName Keyword.description = .error error) :
      Fails manifest index build (.expansion error)

/-- The edge that a build becomes. It has nothing to run exactly if its rule is the phony one. -/
inductive Makes (manifest : Manifest) (build : Build) : Edge → Prop where
  | phony (nonempty : build.outputs ≠ []) (phony : build.rule = Keyword.phony) :
      Makes manifest build (build.edge none)
  | command {rule scope command description} (nonempty : build.outputs ≠ [])
      (uses : manifest.Uses build rule scope)
      (command_eq : scope.expandName Keyword.command = .ok command)
      (description_eq : scope.expandName Keyword.description = .ok description) :
      Makes manifest build (build.edge (some { command, description }))

/-- The build at an index leads to an error. -/
def FailsAt (manifest : Manifest) (index : Nat) : Prop :=
  ∃ build error, manifest.builds[index]? = some build ∧ manifest.Fails index build error

variable {manifest : Manifest} {build : Build} {index : Nat} {rule : Rule} {scope : Scope}
  {error : ResolveError} {edge : Edge}

theorem clashes_iff : manifest.Clashes index ↔
    RepeatsAt [Keyword.phony] (manifest.rules.map (·.name)) index := by
  simp only [Clashes, RepeatsAt, List.getElem?_map, Option.map_eq_some_iff, List.mem_singleton,
    ← List.map_take, List.mem_map]
  constructor
  · rintro ⟨rule, found, h⟩
    exact ⟨rule.name, ⟨rule, found, rfl⟩, h⟩
  · rintro ⟨_, ⟨rule, found, rfl⟩, h⟩
    exact ⟨rule, found, h⟩

/-- The name of the first rule whose name is not free. -/
theorem firstRepeated?_rules_eq_some_iff {name : Name} :
    firstRepeated? [Keyword.phony] (manifest.rules.map (·.name)) = some name ↔
      ∃ i, IsLeast {i | manifest.Clashes i} i ∧
        ∃ rule, manifest.rules[i]? = some rule ∧ rule.name = name := by
  simp only [firstRepeated?_eq_some_iff, clashes_iff, List.getElem?_map, Option.map_eq_some_iff]

theorem firstRepeated?_rules_eq_none_iff :
    firstRepeated? [Keyword.phony] (manifest.rules.map (·.name)) = none ↔
      ∀ i, ¬ manifest.Clashes i := by
  classical
  constructor
  · intro unique i clashes
    have some : ∃ i, manifest.Clashes i := ⟨i, clashes⟩
    have least : IsLeast {i | manifest.Clashes i} (Nat.find some) :=
      ⟨Nat.find_spec some, fun _ => Nat.find_min' some⟩
    obtain ⟨rule, found, -⟩ := Nat.find_spec some
    have repeated := firstRepeated?_rules_eq_some_iff.2 ⟨_, least, rule, found, rfl⟩
    rw [unique] at repeated
    cases repeated
  · intro free
    rw [Option.eq_none_iff_forall_ne_some]
    intro name repeated
    obtain ⟨i, least, -⟩ := firstRepeated?_rules_eq_some_iff.1 repeated
    exact free i least.1

theorem Uses.rule?_eq (free : ∀ i, ¬ manifest.Clashes i) (uses : manifest.Uses build rule scope) :
    manifest.rule? build.rule = some rule := by
  have nodup := (firstRepeated?_eq_none_iff.1 (firstRepeated?_rules_eq_none_iff.2 free)).1
  cases result : manifest.rule? build.rule with
  | none => exact absurd uses.name (by simpa using List.find?_eq_none.1 result rule uses.mem)
  | some other =>
      have same : other.name = build.rule := by simpa using List.find?_some result
      rw [List.inj_on_of_nodup_map nodup (List.mem_of_find?_eq_some result) uses.mem
        (same.trans uses.name.symm)]

theorem resolveBuild_of_empty (empty : build.outputs = []) :
    manifest.resolveBuild build index = .error (.noOutputs index) := by
  rw [resolveBuild, if_pos empty]

theorem resolveBuild_of_ofBlock {values : Environment} (nonempty : build.outputs ≠ [])
    (evaluated : Environment.ofBlock manifest.globals build.bindings = .ok values) :
    manifest.resolveBuild build index = (manifest.recipe build values).map build.edge := by
  rw [resolveBuild, if_neg nonempty, evaluated]
  change (manifest.recipe build values >>= _) = _
  cases manifest.recipe build values <;> rfl

theorem recipe_of_undefined (not_phony : build.rule ≠ Keyword.phony)
    (undefined : ∀ rule ∈ manifest.rules, rule.name ≠ build.rule) (values : Environment) :
    manifest.recipe build values = .error (.undefinedRule build.rule) := by
  have missing : manifest.rule? build.rule = none := List.find?_eq_none.2 (by simpa using undefined)
  rw [recipe, if_neg not_phony, missing]

theorem Uses.exists_recipe_eq (free : ∀ i, ¬ manifest.Clashes i)
    (uses : manifest.Uses build rule scope) :
    ∃ values, Environment.ofBlock manifest.globals build.bindings = .ok values ∧
      manifest.recipe build values = (do
        let command ← (scope.expandName Keyword.command).mapError .expansion
        let description ← (scope.expandName Keyword.description).mapError .expansion
        return some { command, description }) := by
  obtain ⟨values, evaluated, rfl⟩ := uses.scope_eq
  refine ⟨values, evaluated.ofBlock_eq, ?_⟩
  rw [recipe, if_neg uses.not_phony, uses.rule?_eq free]
  rfl

theorem Fails.resolveBuild_eq (free : ∀ i, ¬ manifest.Clashes i)
    (h : manifest.Fails index build error) : manifest.resolveBuild build index = .error error := by
  cases h with
  | noOutputs empty => exact resolveBuild_of_empty empty
  | undefinedRule nonempty not_phony undefined =>
      obtain ⟨values, evaluated⟩ := exists_isEvaluated manifest.globals build.bindings
      rw [resolveBuild_of_ofBlock nonempty evaluated.ofBlock_eq,
        recipe_of_undefined not_phony undefined]
      rfl
  | command nonempty uses failed =>
      obtain ⟨values, evaluated, hrecipe⟩ := uses.exists_recipe_eq free
      rw [resolveBuild_of_ofBlock nonempty evaluated, hrecipe, failed]
      rfl
  | description nonempty uses expanded failed =>
      obtain ⟨values, evaluated, hrecipe⟩ := uses.exists_recipe_eq free
      rw [resolveBuild_of_ofBlock nonempty evaluated, hrecipe, expanded, failed]
      rfl

theorem Makes.resolveBuild_eq (free : ∀ i, ¬ manifest.Clashes i) (h : manifest.Makes build edge)
    (index : Nat) : manifest.resolveBuild build index = .ok edge := by
  cases h with
  | phony nonempty phony =>
      obtain ⟨values, evaluated⟩ := exists_isEvaluated manifest.globals build.bindings
      rw [resolveBuild_of_ofBlock nonempty evaluated.ofBlock_eq, recipe, if_pos phony]
      rfl
  | command nonempty uses command_eq description_eq =>
      obtain ⟨values, evaluated, hrecipe⟩ := uses.exists_recipe_eq free
      rw [resolveBuild_of_ofBlock nonempty evaluated, hrecipe, command_eq, description_eq]
      rfl

theorem exists_uses (not_phony : build.rule ≠ Keyword.phony) (mem : rule ∈ manifest.rules)
    (name : rule.name = build.rule) : ∃ scope, manifest.Uses build rule scope := by
  obtain ⟨values, evaluated⟩ := exists_isEvaluated manifest.globals build.bindings
  exact ⟨_, not_phony, mem, name, values, evaluated, rfl⟩

/-- Every build leads to an error or becomes an edge. -/
theorem fails_or_makes (manifest : Manifest) (index : Nat) (build : Build) :
    (∃ error, manifest.Fails index build error) ∨ ∃ edge, manifest.Makes build edge := by
  by_cases nonempty : build.outputs = []
  · exact .inl ⟨_, .noOutputs nonempty⟩
  by_cases not_phony : build.rule = Keyword.phony
  · exact .inr ⟨_, .phony nonempty not_phony⟩
  by_cases defined : ∃ rule ∈ manifest.rules, rule.name = build.rule
  · obtain ⟨rule, mem, name⟩ := defined
    obtain ⟨scope, uses⟩ := exists_uses not_phony mem name
    cases command_eq : scope.expandName Keyword.command with
    | error error => exact .inl ⟨_, .command nonempty uses command_eq⟩
    | ok command =>
        cases description_eq : scope.expandName Keyword.description with
        | error error => exact .inl ⟨_, .description nonempty uses command_eq description_eq⟩
        | ok description => exact .inr ⟨_, .command nonempty uses command_eq description_eq⟩
  · exact .inl ⟨_, .undefinedRule nonempty not_phony fun rule mem name => defined ⟨rule, mem, name⟩⟩

theorem resolveBuild_eq_error_iff (free : ∀ i, ¬ manifest.Clashes i) :
    manifest.resolveBuild build index = .error error ↔ manifest.Fails index build error := by
  constructor
  · intro h
    obtain ⟨other, fails⟩ | ⟨edge, makes⟩ := fails_or_makes manifest index build
    · rw [fails.resolveBuild_eq free] at h
      cases h
      exact fails
    · rw [makes.resolveBuild_eq free] at h
      cases h
  · exact Fails.resolveBuild_eq free

theorem resolve_eq_mapM (free : ∀ i, ¬ manifest.Clashes i) :
    manifest.resolve =
      manifest.builds.zipIdx.mapM fun (build, index) => manifest.resolveBuild build index := by
  rw [resolve, firstRepeated?_rules_eq_none_iff.2 free]

theorem resolve_eq_error_iff (free : ∀ i, ¬ manifest.Clashes i) :
    manifest.resolve = .error error ↔
      ∃ i, IsLeast {i | manifest.FailsAt i} i ∧
        ∃ build, manifest.builds[i]? = some build ∧ manifest.Fails i build error := by
  rw [resolve_eq_mapM free, mapM_zipIdx_eq_error_iff]
  simp only [Nat.add_zero, resolveBuild_eq_error_iff free, FailsAt]

theorem resolve_eq_duplicateRule_iff {name : Name} :
    manifest.resolve = .error (.duplicateRule name) ↔
      ∃ i, IsLeast {i | manifest.Clashes i} i ∧
        ∃ rule, manifest.rules[i]? = some rule ∧ rule.name = name := by
  rw [← firstRepeated?_rules_eq_some_iff]
  cases result : firstRepeated? [Keyword.phony] (manifest.rules.map (·.name)) with
  | some first => simp [resolve, result]
  | none =>
      have free := firstRepeated?_rules_eq_none_iff.1 result
      rw [resolve_eq_error_iff free]
      constructor
      · rintro ⟨i, -, build, -, fails⟩
        cases fails
      · intro h
        cases h

theorem exists_resolve_eq (free : ∀ i, ¬ manifest.Clashes i) (all : ∀ i, ¬ manifest.FailsAt i) :
    ∃ edges, manifest.resolve = .ok edges ∧ List.Forall₂ manifest.Makes manifest.builds edges := by
  rw [resolve_eq_mapM free]
  refine exists_mapM_zipIdx 0 fun i build found => ?_
  obtain ⟨error, fails⟩ | ⟨edge, makes⟩ := fails_or_makes manifest i build
  · exact absurd ⟨build, error, found, fails⟩ (all i)
  · exact ⟨edge, makes.resolveBuild_eq free _, makes⟩

theorem free_of_resolve {edges : List Edge} (h : manifest.resolve = .ok edges) :
    ∀ i, ¬ manifest.Clashes i := by
  rw [← firstRepeated?_rules_eq_none_iff]
  cases repeated : firstRepeated? [Keyword.phony] (manifest.rules.map (·.name)) with
  | none => rfl
  | some name =>
      rw [resolve, repeated] at h
      cases h

/-- Where resolving succeeds, every build has its edge. -/
theorem makes_of_resolve {edges : List Edge} (h : manifest.resolve = .ok edges) :
    List.Forall₂ manifest.Makes manifest.builds edges := by
  classical
  have free := free_of_resolve h
  have all : ∀ i, ¬ manifest.FailsAt i := by
    intro i fails
    have some : ∃ i, manifest.FailsAt i := ⟨i, fails⟩
    have least : IsLeast {i | manifest.FailsAt i} (Nat.find some) :=
      ⟨Nat.find_spec some, fun _ => Nat.find_min' some⟩
    obtain ⟨build, error, found, failed⟩ := Nat.find_spec some
    rw [(resolve_eq_error_iff free).2 ⟨_, least, build, found, failed⟩] at h
    cases h
  obtain ⟨others, resolved, makes⟩ := exists_resolve_eq free all
  rw [resolved] at h
  cases h
  exact makes

/-- The first rule whose name is not free decides. Where there is none, the first build that
    leads to an error does, and where there is none of these either, every build has its edge. -/
theorem resolve_first_error_or_edges (manifest : Manifest) :
    (∀ name, manifest.resolve = .error (.duplicateRule name) ↔
      ∃ i, IsLeast {i | manifest.Clashes i} i ∧
        ∃ rule, manifest.rules[i]? = some rule ∧ rule.name = name) ∧
    ((∀ i, ¬ manifest.Clashes i) →
      (∀ error, manifest.resolve = .error error ↔
        ∃ i, IsLeast {i | manifest.FailsAt i} i ∧
          ∃ build, manifest.builds[i]? = some build ∧ manifest.Fails i build error) ∧
      ((∀ i, ¬ manifest.FailsAt i) →
        ∃ edges, manifest.resolve = .ok edges ∧
          List.Forall₂ manifest.Makes manifest.builds edges)) :=
  ⟨fun _ => resolve_eq_duplicateRule_iff,
    fun free => ⟨fun _ => resolve_eq_error_iff free, exists_resolve_eq free⟩⟩

/-- A cycle that a build can break by a variable of its own. -/
def knottedRule : Rule where
  name := ascii "r"
  bindings := [⟨Keyword.command, [.reference (ascii "x")]⟩,
    ⟨ascii "x", [.reference (ascii "y")]⟩, ⟨ascii "y", [.reference (ascii "x")]⟩]

def knottedBuild (bindings : List Binding) : Build :=
  ⟨ascii "r", [ascii "a"], [], [], [], bindings⟩

def breaksKnot : Build := knottedBuild [⟨ascii "x", [.literal (ascii "me")]⟩]

def knotted (builds : List Build) : Manifest := { rules := [knottedRule], builds }

theorem knotted_free (builds : List Build) : ∀ i, ¬ (knotted builds).Clashes i := by
  rw [← firstRepeated?_rules_eq_none_iff]
  change firstRepeated? [Keyword.phony] [ascii "r"] = none
  decide

theorem uses_knotted (builds : List Build) {bindings : List Binding} {values : Environment}
    (evaluated : IsEvaluated [] bindings values) :
    (knotted builds).Uses (knottedBuild bindings) knottedRule
      (.ofEdge [] [ascii "a"] values knottedRule.bindings []) :=
  ⟨show ascii "r" ≠ Keyword.phony by decide, List.mem_singleton_self _, rfl, values, evaluated, rfl⟩

theorem makes_breaksKnot (builds : List Build) :
    (knotted builds).Makes breaksKnot
      (breaksKnot.edge (some { command := ascii "me", description := [] })) := by
  have evaluated : IsEvaluated [] [⟨ascii "x", [.literal (ascii "me")]⟩]
      [(ascii "x", ascii "me")] := IsEvaluated.nil.snoc ⟨ascii "x", [.literal (ascii "me")]⟩
  let scope := Scope.ofEdge [] [ascii "a"] [(ascii "x", ascii "me")] knottedRule.bindings []
  have commandIs : scope.meaning? Keyword.command =
      some (.template [.reference (ascii "x")]) := by decide
  have xIs : scope.meaning? (ascii "x") = some (.value (ascii "me")) := by decide
  have unknown : scope.meaning? Keyword.description = none := by decide
  refine .command (by decide) (uses_knotted builds evaluated) ?_ (Scope.expandName_none unknown)
  rw [Scope.expandName_eq, Scope.expandReference_template commandIs, if_neg (by decide)]
  simp only [Scope.expandWithin_reference, Scope.expandReference, xIs, Scope.expandWithin]
  rfl

theorem fails_knottedBuild (builds : List Build) (index : Nat) :
    (knotted builds).Fails index (knottedBuild []) (.expansion ⟨[ascii "y", ascii "x"]⟩) := by
  let scope := Scope.ofEdge [] [ascii "a"] [] knottedRule.bindings []
  have commandIs : scope.meaning? Keyword.command =
      some (.template [.reference (ascii "x")]) := by decide
  have xIs : scope.meaning? (ascii "x") = some (.template [.reference (ascii "y")]) := by decide
  have yIs : scope.meaning? (ascii "y") = some (.template [.reference (ascii "x")]) := by decide
  refine .command (by decide) (uses_knotted builds .nil) ?_
  rw [Scope.expandName_eq, Scope.expandReference_template commandIs, if_neg (by decide),
    Scope.expandWithin_reference, Scope.expandReference_template xIs, if_neg (by decide),
    Scope.expandWithin_reference, Scope.expandReference_template yIs, if_neg (by decide),
    Scope.expandWithin_reference, Scope.expandReference_template xIs, if_pos (by decide)]
  rfl

/-- The first build has an edge and the second none, which is told before the third is looked at.
    Without these two there is nothing wrong. -/
theorem resolve_first_error_or_edges_knotted :
    let broken := knotted [breaksKnot, knottedBuild [], { knottedBuild [] with outputs := [] }]
    (∀ i, ¬ broken.Clashes i) ∧
      broken.resolve = .error (.expansion ⟨[ascii "y", ascii "x"]⟩) ∧
      (∀ i, ¬ (knotted [breaksKnot]).FailsAt i) ∧
      ∃ edges, (knotted [breaksKnot]).resolve = .ok edges ∧
        List.Forall₂ (knotted [breaksKnot]).Makes [breaksKnot] edges := by
  have first (builds : List Build) (found : builds[0]? = some breaksKnot) :
      ¬ (knotted builds).FailsAt 0 := by
    rintro ⟨build, error, same, fails⟩
    have known : builds[0]? = some build := same
    rw [found, Option.some_inj] at known
    subst known
    have failed := fails.resolveBuild_eq (knotted_free builds)
    rw [(makes_breaksKnot builds).resolveBuild_eq (knotted_free builds)] at failed
    cases failed
  have none (i : Nat) : ¬ (knotted [breaksKnot]).FailsAt i := by
    cases i with
    | zero => exact first _ rfl
    | succ i =>
        rintro ⟨build, error, found, -⟩
        simp [knotted] at found
  refine ⟨knotted_free _, ?_, none, ?_⟩
  · refine (((resolve_first_error_or_edges _).2 (knotted_free _)).1 _).2 ⟨1, ⟨?_, ?_⟩, _, rfl, ?_⟩
    · exact ⟨_, _, rfl, fails_knottedBuild _ _⟩
    · intro i failsAt
      cases i with
      | zero => exact absurd failsAt (first _ rfl)
      | succ i => exact Nat.succ_le_succ (Nat.zero_le i)
    · exact fails_knottedBuild _ _
  · exact ((resolve_first_error_or_edges _).2 (knotted_free _)).2 none

end Manifest

end BuildFile
