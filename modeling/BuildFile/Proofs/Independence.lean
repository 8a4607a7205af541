import BuildFile.Proofs.Resolution

/-! # Edges do not depend on each other

What a build becomes depends on the global variables and on which rules there are, not on their
order and not on the other builds. So the edges of rearranged builds are the rearranged edges, and
the edges of two lists of builds behind each other are those of the first and then those of the
second. Only the error of a build without outputs tells where the build stands.
-/

namespace BuildFile

/-- The items at the given indices. -/
def arrange {α : Type} (order : List Nat) (items : List α) : List α :=
  order.filterMap (items[·]?)

section Arrange

variable {α β : Type} {r : α → β → Prop}

theorem arrange_range (items : List α) : arrange (List.range items.length) items = items := by
  induction items with
  | nil => rfl
  | cons first rest ih =>
      have moved : (first :: rest : List α)[0]? = some first := rfl
      rw [arrange, List.length_cons, List.range_succ_eq_map, List.filterMap_cons_some moved,
        List.filterMap_map]
      exact congrArg (first :: ·) ih

/-- Where every index is listed once, no item is lost and none comes twice. -/
theorem arrange_perm {order : List Nat} {items : List α}
    (perm : order.Perm (List.range items.length)) : (arrange order items).Perm items := by
  have moved := perm.filterMap (items[·]?)
  rwa [← arrange, ← arrange, arrange_range] at moved

theorem forall₂_getElem? {items : List α} {values : List β} (h : List.Forall₂ r items values)
    (i : Nat) : Option.Rel r items[i]? values[i]? := by
  induction h generalizing i with
  | nil => exact .none
  | cons related _ ih =>
      cases i with
      | zero => exact .some related
      | succ i => exact ih i

/-- Related lists are related in any arrangement. -/
theorem forall₂_arrange {items : List α} {values : List β} (h : List.Forall₂ r items values)
    (order : List Nat) : List.Forall₂ r (arrange order items) (arrange order values) := by
  induction order with
  | nil => exact .nil
  | cons i order ih =>
      have here := forall₂_getElem? h i
      rw [arrange, arrange, List.filterMap_cons, List.filterMap_cons]
      generalize items[i]? = item at here ⊢
      generalize values[i]? = value at here ⊢
      cases here with
      | none => exact ih
      | some related => exact .cons related ih

end Arrange

section Behind

variable {α β ε : Type} {f : α × Nat → Except ε β}

/-- If each item has its value at every index, so has a list of them. -/
theorem mapM_zipIdx_of_forall₂ {items : List α} {values : List β}
    (h : List.Forall₂ (fun item value => ∀ i, f (item, i) = .ok value) items values) (n : Nat) :
    (items.zipIdx n).mapM f = .ok values := by
  induction h generalizing n with
  | nil => rfl
  | cons done _ ih =>
      rw [List.zipIdx_cons, mapM_cons_of_ok (done n), ih (n + 1)]
      rfl

/-- Counting from further on changes the errors only. -/
theorem mapM_zipIdx_add (f : α × Nat → Except ε β) {g : ε → ε} {count : Nat}
    (moved : ∀ item i, f (item, count + i) = (f (item, i)).mapError g) (items : List α) (n : Nat) :
    (items.zipIdx (count + n)).mapM f = ((items.zipIdx n).mapM f).mapError g := by
  induction items generalizing n with
  | nil => rfl
  | cons first rest ih =>
      rw [List.zipIdx_cons, List.zipIdx_cons]
      cases result : f (first, n) with
      | error error =>
          have later : f (first, count + n) = .error (g error) := by rw [moved, result]; rfl
          rw [mapM_cons_of_error result, mapM_cons_of_error later]
          rfl
      | ok value =>
          have later : f (first, count + n) = .ok value := by rw [moved, result]; rfl
          rw [mapM_cons_of_ok result, mapM_cons_of_ok later, Nat.add_assoc, ih (n + 1)]
          cases (rest.zipIdx (n + 1)).mapM f <;> rfl

end Behind

/-- The error of a build that has that many builds in front of it. -/
def ResolveError.behind (count : Nat) : ResolveError → ResolveError
  | .noOutputs index => .noOutputs (count + index)
  | .undefinedRule name => .undefinedRule name
  | .duplicateRule name => .duplicateRule name
  | .expansion error => .expansion error

namespace Manifest

variable {manifest other : Manifest} {build : Build} {rule : Rule} {scope : Scope} {edge : Edge}
  {edges : List Edge} {index : Nat} {error : ResolveError}

theorem free_iff : (∀ i, ¬ manifest.Clashes i) ↔
    (manifest.rules.map (·.name)).Nodup ∧ Keyword.phony ∉ manifest.rules.map (·.name) := by
  rw [← firstRepeated?_rules_eq_none_iff, firstRepeated?_eq_none_iff]
  refine and_congr_right fun _ => ⟨fun h member => ?_, fun h name member known => ?_⟩
  · exact h _ member (List.mem_singleton_self _)
  · exact h (List.mem_singleton.1 known ▸ member)

/-- A rule that clashes decides, whatever the builds are. -/
theorem exists_resolve_of_clashes (clashes : ¬ ∀ i, ¬ manifest.Clashes i) :
    ∃ name, ∀ builds, { manifest with builds }.resolve = .error (.duplicateRule name) := by
  rw [← firstRepeated?_rules_eq_none_iff, ← Ne, Option.ne_none_iff_exists'] at clashes
  obtain ⟨name, repeated⟩ := clashes
  exact ⟨name, fun builds => by rw [resolve, repeated]⟩

/-- Resolving succeeds with the edges that the builds make one by one. -/
theorem resolve_eq_ok_iff : manifest.resolve = .ok edges ↔
    (∀ i, ¬ manifest.Clashes i) ∧ List.Forall₂ manifest.Makes manifest.builds edges := by
  constructor
  · intro h
    exact ⟨free_of_resolve h, makes_of_resolve h⟩
  · rintro ⟨free, makes⟩
    rw [resolve_eq_mapM free]
    exact mapM_zipIdx_of_forall₂ (makes.imp fun build edge made => made.resolveBuild_eq free) 0

/-- Whether resolving succeeds can be asked of each build on its own. -/
theorem exists_resolve_ok_iff : (∃ edges, manifest.resolve = .ok edges) ↔
    (∀ i, ¬ manifest.Clashes i) ∧ ∀ build ∈ manifest.builds, ∃ edge, manifest.Makes build edge := by
  simp only [resolve_eq_ok_iff, exists_and_left]
  refine and_congr_right fun _ => ?_
  generalize manifest.builds = builds
  induction builds with
  | nil => exact ⟨(fun _ _ member => nomatch member), fun _ => ⟨[], .nil⟩⟩
  | cons build rest ih =>
      rw [List.forall_mem_cons, ← ih]
      constructor
      · rintro ⟨edges, makes⟩
        cases makes with
        | cons made others => exact ⟨⟨_, made⟩, _, others⟩
      · rintro ⟨⟨edge, made⟩, edges, others⟩
        exact ⟨edge :: edges, .cons made others⟩

theorem free_of_perm (rules : other.rules.Perm manifest.rules)
    (free : ∀ i, ¬ manifest.Clashes i) : ∀ i, ¬ other.Clashes i := by
  have names := rules.map (·.name)
  rw [free_iff] at free ⊢
  exact ⟨names.nodup_iff.2 free.1, fun member => free.2 (names.mem_iff.1 member)⟩

theorem Uses.of_perm (uses : manifest.Uses build rule scope)
    (rules : other.rules.Perm manifest.rules) (globals : other.globals = manifest.globals) :
    other.Uses build rule scope where
  not_phony := uses.not_phony
  mem := rules.mem_iff.2 uses.mem
  name := uses.name
  scope_eq := globals ▸ uses.scope_eq

theorem Makes.of_perm (made : manifest.Makes build edge)
    (rules : other.rules.Perm manifest.rules) (globals : other.globals = manifest.globals) :
    other.Makes build edge := by
  cases made with
  | phony nonempty phony => exact .phony nonempty phony
  | command nonempty uses command_eq description_eq =>
      exact .command nonempty (uses.of_perm rules globals) command_eq description_eq

section Rearranged

variable {rules : List Rule} {order : List Nat} (perm : rules.Perm manifest.rules)

include perm

/-- Rearranged builds become the rearranged edges. -/
theorem resolve_arrange (h : manifest.resolve = .ok edges) :
    { manifest with rules, builds := arrange order manifest.builds }.resolve =
      .ok (arrange order edges) := by
  obtain ⟨free, makes⟩ := resolve_eq_ok_iff.1 h
  refine resolve_eq_ok_iff.2 ⟨free_of_perm perm free, ?_⟩
  refine (forall₂_arrange makes order).imp fun build edge made => ?_
  exact made.of_perm perm rfl

/-- No rearrangement makes an error go away. -/
theorem exists_error_arrange (every : order.Perm (List.range manifest.builds.length))
    (h : manifest.resolve = .error error) :
    ∃ error, { manifest with rules, builds := arrange order manifest.builds }.resolve =
      .error error := by
  cases result : { manifest with rules, builds := arrange order manifest.builds }.resolve with
  | error error => exact ⟨error, rfl⟩
  | ok edges =>
      obtain ⟨free, makes⟩ := exists_resolve_ok_iff.1 ⟨edges, result⟩
      have resolved : ∃ edges, manifest.resolve = .ok edges := by
        refine exists_resolve_ok_iff.2 ⟨free_of_perm perm.symm free, fun build member => ?_⟩
        obtain ⟨edge, made⟩ := makes build ((arrange_perm every).mem_iff.2 member)
        exact ⟨edge, made.of_perm perm.symm rfl⟩
      obtain ⟨edges, resolved⟩ := resolved
      rw [h] at resolved
      cases resolved

end Rearranged

theorem Fails.behind (fails : manifest.Fails index build error) (count : Nat) :
    manifest.Fails (count + index) build (error.behind count) := by
  cases fails with
  | noOutputs empty => exact .noOutputs empty
  | undefinedRule nonempty not_phony undefined => exact .undefinedRule nonempty not_phony undefined
  | command nonempty uses failed => exact .command nonempty uses failed
  | description nonempty uses expanded failed => exact .description nonempty uses expanded failed

theorem resolveBuild_behind (free : ∀ i, ¬ manifest.Clashes i) (build : Build)
    (count index : Nat) : manifest.resolveBuild build (count + index) =
      (manifest.resolveBuild build index).mapError (.behind count) := by
  obtain ⟨error, fails⟩ | ⟨edge, makes⟩ := fails_or_makes manifest index build
  · rw [fails.resolveBuild_eq free, (fails.behind count).resolveBuild_eq free]
    rfl
  · rw [makes.resolveBuild_eq free, makes.resolveBuild_eq free]
    rfl

theorem resolve_builds (free : ∀ i, ¬ manifest.Clashes i) (builds : List Build) :
    { manifest with builds }.resolve =
      builds.zipIdx.mapM fun (build, index) => manifest.resolveBuild build index :=
  @resolve_eq_mapM { manifest with builds } free

/-- Builds behind others are resolved as if they stood alone, up to where their errors are. -/
theorem resolve_append (manifest : Manifest) (first second : List Build) :
    { manifest with builds := first ++ second }.resolve = (do
      let edges ← { manifest with builds := first }.resolve
      let more ← { manifest with builds := second }.resolve.mapError (.behind first.length)
      return edges ++ more) := by
  by_cases free : ∀ i, ¬ manifest.Clashes i
  · have moved := mapM_zipIdx_add (fun (build, index) => manifest.resolveBuild build index)
      (fun build i => resolveBuild_behind free build first.length i) second 0
    rw [resolve_builds free, resolve_builds free, resolve_builds free, List.zipIdx_append,
      List.mapM_append, Nat.add_comm 0, moved]
  · obtain ⟨name, failed⟩ := exists_resolve_of_clashes free
    rw [failed, failed]
    rfl

/-- The order of rules does not count, and neither does that of builds, except that the edges are
    in the same order. Builds cut in two lists have the edges of the first and then those of the
    second, or the error of the first list that has one. -/
theorem resolve_independent (manifest : Manifest) :
    (∀ (rules : List Rule) (order : List Nat), rules.Perm manifest.rules →
      order.Perm (List.range manifest.builds.length) →
        (∀ edges, manifest.resolve = .ok edges →
          { manifest with rules, builds := arrange order manifest.builds }.resolve =
            .ok (arrange order edges)) ∧
        (∀ error, manifest.resolve = .error error →
          ∃ other, { manifest with rules, builds := arrange order manifest.builds }.resolve =
            .error other)) ∧
    (∀ first second : List Build,
      (∀ edges more, { manifest with builds := first }.resolve = .ok edges →
        { manifest with builds := second }.resolve = .ok more →
          { manifest with builds := first ++ second }.resolve = .ok (edges ++ more)) ∧
      (∀ error, { manifest with builds := first }.resolve = .error error →
        { manifest with builds := first ++ second }.resolve = .error error) ∧
      (∀ edges error, { manifest with builds := first }.resolve = .ok edges →
        { manifest with builds := second }.resolve = .error error →
          { manifest with builds := first ++ second }.resolve =
            .error (error.behind first.length))) := by
  constructor
  · intro rules order perm every
    exact ⟨fun edges => resolve_arrange perm, fun error => exists_error_arrange perm every⟩
  · intro first second
    refine ⟨?_, ?_, ?_⟩
    · intro edges more hfirst hsecond
      rw [resolve_append, hfirst, hsecond]
      rfl
    · intro error hfirst
      rw [resolve_append, hfirst]
      rfl
    · intro edges error hfirst hsecond
      rw [resolve_append, hfirst, hsecond]
      rfl

/-- The rules for an object that is compiled and has a second name by which it can be asked for. -/
def toolRules : List Rule :=
  [⟨ascii "cc", [⟨Keyword.command, [.literal (ascii "cc "), .reference Keyword.inputs]⟩]⟩,
    ⟨ascii "ld", [⟨Keyword.command, [.literal (ascii "ld "), .reference Keyword.inputs]⟩]⟩]

def compiled : Build := ⟨ascii "cc", [ascii "a.o"], [ascii "a.c"], [], [], []⟩

def aliased : Build := ⟨Keyword.phony, [ascii "all"], [ascii "a.o"], [], [], []⟩

def makesNothing : Build := ⟨ascii "ld", [], [ascii "a.o"], [], [], []⟩

def compiledEdge : Edge := compiled.edge (some { command := ascii "cc a.c", description := [] })

theorem makes_compiled : { rules := toolRules : Manifest }.Makes compiled compiledEdge := by
  let scope := Scope.ofEdge [ascii "a.c"] [ascii "a.o"] [] toolRules[0].bindings []
  have commandIs : scope.meaning? Keyword.command =
      some (.template [.literal (ascii "cc "), .reference Keyword.inputs]) := by decide
  have inputsAre : scope.meaning? Keyword.inputs = some (.paths [ascii "a.c"] false) := by decide
  have unknown : scope.meaning? Keyword.description = none := by decide
  have uses : { rules := toolRules : Manifest }.Uses compiled toolRules[0] scope :=
    ⟨show ascii "cc" ≠ Keyword.phony by decide, List.mem_cons_self, rfl, [], .nil, rfl⟩
  refine .command (by decide) uses ?_ (Scope.expandName_none unknown)
  rw [Scope.expandName_eq, Scope.expandReference_template commandIs, if_neg (by decide)]
  simp only [Scope.expandWithin_reference, Scope.expandReference, inputsAre, Scope.expandWithin]
  rfl

/-- Both orders of the rules and of the builds, and a third build behind them that fails. -/
theorem resolve_independent_swapped :
    { rules := toolRules, builds := [compiled, aliased] : Manifest }.resolve =
        .ok [compiledEdge, aliased.edge none] ∧
      { rules := toolRules.reverse, builds := [aliased, compiled] : Manifest }.resolve =
        .ok [aliased.edge none, compiledEdge] ∧
      { rules := toolRules, builds := [makesNothing] : Manifest }.resolve =
        .error (.noOutputs 0) ∧
      { rules := toolRules, builds := [compiled, aliased, makesNothing] : Manifest }.resolve =
        .error (.noOutputs 2) := by
  have resolved : { rules := toolRules, builds := [compiled, aliased] : Manifest }.resolve =
      .ok [compiledEdge, aliased.edge none] := by
    refine resolve_eq_ok_iff.2 ⟨free_iff.2 (by decide), ?_⟩
    exact .cons (makes_compiled.of_perm (.refl _) rfl) (.cons (.phony (by decide) rfl) .nil)
  have failed : { rules := toolRules, builds := [makesNothing] : Manifest }.resolve =
      .error (.noOutputs 0) := by decide
  obtain ⟨rearranged, split⟩ :=
    resolve_independent { rules := toolRules, builds := [compiled, aliased] }
  obtain ⟨-, -, later⟩ := split [compiled, aliased] [makesNothing]
  obtain ⟨swapped, -⟩ :=
    rearranged toolRules.reverse [1, 0] (List.reverse_perm _) (List.Perm.swap 0 1 [])
  exact ⟨resolved, swapped _ resolved, failed, later _ _ resolved failed⟩

end Manifest

end BuildFile
