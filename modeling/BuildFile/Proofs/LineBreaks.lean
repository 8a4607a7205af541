import BuildFile.CommandLine.Run
import BuildFile.Proofs.Lines
import BuildFile.Proofs.ParsedContent
import BuildFile.Proofs.Reachability
import BuildFile.Proofs.Resolution
import BuildFile.Proofs.ShellWords

/-! # Where line breaks come from

Nothing that is read from a file holds a line break, so reports on it have a line for each item.
In a command or a description a line break can only separate paths that are asked for on lines.
-/

namespace BuildFile

namespace Shell

theorem notMem_quoteByte {b : UInt8} (other : b ≠ Byte.newline) : Byte.newline ∉ quoteByte b := by
  rw [quoteByte]
  split
  · decide
  · simpa using other.symm

theorem notMem_quote {path : Bytes} (free : Byte.newline ∉ path) : Byte.newline ∉ quote path := by
  by_cases safe : path ≠ [] ∧ ∀ b ∈ path, isSafe b = true
  · rwa [quote_of_safe safe]
  · rw [quote_of_not_safe safe]
    simp only [List.mem_cons, List.mem_append, List.mem_flatMap, List.not_mem_nil, or_false, not_or]
    refine ⟨by decide, ?_, by decide⟩
    rintro ⟨b, within, found⟩
    exact notMem_quoteByte (fun same => free (same ▸ within)) found

/-- Only a separator can break the line of paths, and only between two of them. -/
theorem notMem_join {separator : UInt8} {paths : List Bytes}
    (free : ∀ path ∈ paths, Byte.newline ∉ path)
    (unbroken : separator ≠ Byte.newline ∨ paths.length ≤ 1) :
    Byte.newline ∉ join separator paths := by
  induction paths with
  | nil => simp [join]
  | cons first rest ih =>
      obtain ⟨here, others⟩ := List.forall_mem_cons.1 free
      cases rest with
      | nil => simpa [join] using notMem_quote here
      | cons second rest =>
          have other : separator ≠ Byte.newline := unbroken.resolve_right (by simp)
          rw [join_cons_cons, List.mem_append, List.mem_cons, not_or, not_or]
          exact ⟨notMem_quote here, other.symm, ih others (.inl other)⟩

end Shell

/-- The literals of a template hold no line break. -/
def Template.OneLine (template : Template) : Prop :=
  ∀ text, .literal text ∈ template → Byte.newline ∉ text

theorem Template.WellFormed.oneLine {template : Template} (h : template.WellFormed) :
    template.OneLine :=
  fun _ member => (h _ member).2

/-- What a name stands for holds no line break, up to the references in it. -/
def Meaning.OneLine : Meaning → Prop
  | .value text => Byte.newline ∉ text
  | .template parts => parts.OneLine
  | .paths words onLines => Byte.newline ∉ Scope.joinPaths words onLines

namespace Scope

variable {scope : Scope} {active : List Name} {template : Template} {result : Bytes}

/-- Expansion brings no line break in that is not in something it reaches. -/
theorem notMem_expandWithin (literals : template.OneLine)
    (meanings : ∀ name meaning, scope.Reaches template name →
      scope.meaning? name = some meaning → meaning.OneLine)
    (h : scope.expandWithin active template = .ok result) : Byte.newline ∉ result := by
  induction active, template using expandWithin.induct scope generalizing result with
  | case1 active =>
      rw [expandWithin] at h
      cases h
      exact List.not_mem_nil
  | case2 active text rest ih =>
      rw [expandWithin] at h
      obtain ⟨value, hrest, done⟩ := bind_eq_ok h
      cases done
      rw [List.mem_append, not_or]
      exact ⟨literals text (by simp), ih (fun text member => literals text (by simp [member]))
        (fun name meaning reached => meanings name meaning reached.literal) hrest⟩
  | case3 active name rest inner ih =>
      rw [expandWithin_reference] at h
      obtain ⟨text, hfirst, h⟩ := bind_eq_ok h
      obtain ⟨value, hrest, done⟩ := bind_eq_ok h
      cases done
      rw [List.mem_append, not_or]
      refine ⟨?_, ih (fun text member => literals text (by simp [member]))
        (fun name meaning reached => meanings name meaning reached.further) hrest⟩
      have here := fun meaning => meanings name meaning (reaches_self name rest)
      cases known : scope.meaning? name with
      | none =>
          rw [expandReference, known] at hfirst
          cases hfirst
          exact List.not_mem_nil
      | some meaning =>
          cases meaning with
          | value text =>
              rw [expandReference, known] at hfirst
              cases hfirst
              exact here _ known
          | paths paths onLines =>
              rw [expandReference, known] at hfirst
              cases hfirst
              exact here _ known
          | template template =>
              rw [expandReference_template known] at hfirst
              split at hfirst
              · cases hfirst
              · next idle =>
                exact inner template known idle (here _ known)
                  (fun name meaning reached => meanings name meaning (reached.inner known)) hfirst

section Edge

variable {inputs outputs : List Bytes} {block globals : Environment} {rule : List Binding}
  {name : Name} {meaning : Meaning}

theorem oneLine_of_value? {env : Environment} (values : env.WellFormed) {text : Bytes}
    (h : env.value? name = some text) : Meaning.OneLine (.value text) := by
  obtain ⟨entry, found, rfl⟩ := Option.map_eq_some_iff.1 h
  exact (values entry (List.mem_of_find?_eq_some found)).2

theorem oneLine_of_find? (bindings : ∀ binding ∈ rule, binding.WellFormed)
    (h : Binding.find? rule name = some template) : Meaning.OneLine (.template template) := by
  obtain ⟨binding, found, rfl⟩ := Option.map_eq_some_iff.1 h
  exact (bindings binding (List.mem_of_find?_eq_some found)).template.oneLine

/-- In the scope of an edge only the inputs can be on several lines, under the name that asks for
    it. -/
theorem oneLine_ofEdge (paths : ∀ path ∈ inputs ++ outputs, Byte.newline ∉ path)
    (values : block.WellFormed) (bindings : ∀ binding ∈ rule, binding.WellFormed)
    (all : globals.WellFormed)
    (h : (ofEdge inputs outputs block rule globals).meaning? name = some meaning) :
    meaning.OneLine ∨ name = Keyword.inputLines ∧ 2 ≤ inputs.length := by
  obtain ⟨layer, member, known⟩ := List.exists_of_findSome?_eq_some h
  obtain ⟨inPaths, outPaths⟩ := List.forall_mem_append.1 paths
  simp only [ofEdge, List.mem_cons, List.not_mem_nil, or_false] at member
  obtain rfl | rfl | rfl | rfl := member
  · rw [Layer.meaning?] at known
    split at known
    · cases known
      exact .inl (Shell.notMem_join inPaths (.inl (by decide)))
    · split at known
      · cases known
        exact .inl (Shell.notMem_join outPaths (.inl (by decide)))
      · split at known
        · next asked =>
          cases known
          by_cases single : inputs.length ≤ 1
          · exact .inl (Shell.notMem_join inPaths (.inr single))
          · exact .inr ⟨asked, by omega⟩
        · cases known
  · obtain ⟨text, found, rfl⟩ := Option.map_eq_some_iff.1 known
    exact .inl (oneLine_of_value? values found)
  · obtain ⟨template, found, rfl⟩ := Option.map_eq_some_iff.1 known
    exact .inl (oneLine_of_find? bindings found)
  · obtain ⟨text, found, rfl⟩ := Option.map_eq_some_iff.1 known
    exact .inl (oneLine_of_value? all found)

/-- A line break in what a name expands to for an edge stands between inputs. -/
theorem inputLines_of_newline (paths : ∀ path ∈ inputs ++ outputs, Byte.newline ∉ path)
    (values : block.WellFormed) (bindings : ∀ binding ∈ rule, binding.WellFormed)
    (all : globals.WellFormed)
    (h : (ofEdge inputs outputs block rule globals).expandName name = .ok result)
    (broken : Byte.newline ∈ result) :
    2 ≤ inputs.length ∧
      (ofEdge inputs outputs block rule globals).Reaches [.reference name] Keyword.inputLines := by
  by_contra other
  refine notMem_expandWithin (fun text member => ?_) (fun further meaning reached known => ?_) h
    broken
  · simp at member
  · obtain oneLine | ⟨rfl, several⟩ := oneLine_ofEdge paths values bindings all known
    · exact oneLine
    · exact absurd ⟨several, reached⟩ other

end Edge

end Scope

theorem IsEvaluated.wellFormed {globals values : Environment} {block : List Binding}
    (h : IsEvaluated globals block values) (all : globals.WellFormed)
    (bindings : ∀ binding ∈ block, binding.WellFormed) : values.WellFormed := by
  induction h with
  | nil => exact fun entry member => nomatch member
  | snoc binding before ih =>
      obtain ⟨earlier, last⟩ := List.forall_mem_append.1 bindings
      have valid := List.forall_mem_singleton.1 last
      have known := ih earlier
      exact known.define valid.name (valid.template.notMem_evaluate (known.append all))

namespace Manifest

variable {manifest : Manifest} {build : Build} {rule : Rule} {scope : Scope} {edge : Edge}

theorem Uses.inputLines_of_newline (uses : manifest.Uses build rule scope)
    (valid : manifest.WellFormed) (member : build ∈ manifest.builds) {name : Name} {result : Bytes}
    (h : scope.expandName name = .ok result) (broken : Byte.newline ∈ result) :
    2 ≤ build.explicitInputs.length ∧ scope.Reaches [.reference name] Keyword.inputLines := by
  obtain ⟨values, evaluated, rfl⟩ := uses.scope_eq
  have wellFormed := valid.builds build member
  have paths : ∀ path ∈ build.explicitInputs ++ build.outputs, Byte.newline ∉ path := by
    intro path within
    refine wellFormed.paths path ?_
    simp only [Build.allInputs, List.mem_append] at within ⊢
    exact within.symm.imp_right fun here => .inl (.inl here)
  exact Scope.inputLines_of_newline paths (evaluated.wellFormed valid.globals wellFormed.bindings)
    (valid.rules rule uses.mem).bindings valid.globals h broken

/-- Where there is a line break in what an edge runs or shows, it has several inputs, and they
    were asked for on lines. -/
theorem Makes.inputLines_of_newline (makes : manifest.Makes build edge)
    (valid : manifest.WellFormed) (member : build ∈ manifest.builds) {recipe : Recipe}
    (runs : edge.recipe = some recipe) :
    ∃ rule scope, manifest.Uses build rule scope ∧
      (Byte.newline ∈ recipe.command → 2 ≤ edge.explicitInputs.length ∧
        scope.Reaches [.reference Keyword.command] Keyword.inputLines) ∧
      (Byte.newline ∈ recipe.description → 2 ≤ edge.explicitInputs.length ∧
        scope.Reaches [.reference Keyword.description] Keyword.inputLines) := by
  cases makes with
  | phony => cases runs
  | command nonempty uses command_eq description_eq =>
      cases runs
      exact ⟨_, _, uses, uses.inputLines_of_newline valid member command_eq,
        uses.inputLines_of_newline valid member description_eq⟩

end Manifest

namespace CommandLine

theorem splitOn_ofLines {lines : List Bytes} (free : AreLines lines) :
    (Report.ofLines lines).text.splitOn Byte.newline = lines.map Utf8.shown ++ [[]] := by
  rw [← splitOn_linesText free.map_shown]
  simp [Report.ofLines, Report.text, linesText, List.flatMap_map]

/-- What a tool prints about an accepted text is what it reports on the manifest. -/
theorem runTool_output {options : Options} {tool : Tool}
    (named : Tool.ofName? options.tool = some tool) {text : Bytes} {manifest : Manifest}
    (accepted : Manifest.parse text = .ok manifest) :
    (options.runTool (.ok text)).output = (tool.report (.ok manifest) options.targets).text := by
  have source : Manifest.read options.file (.ok text) = .ok manifest := by
    change ((Manifest.parse text).mapError _).mapError _ = _
    rw [accepted]
    rfl
  rw [Options.runTool, named]
  dsimp only
  rw [source]
  rfl

theorem areLines_variableLines {manifest : Manifest} (valid : manifest.WellFormed) :
    AreLines (variableLines manifest) := by
  intro line member
  obtain ⟨entry, within, rfl⟩ := List.mem_map.1 member
  obtain ⟨isName, free⟩ := valid.globals entry within
  simp only [List.mem_append, not_or]
  exact ⟨⟨isName.notMem_newline, by decide⟩, free⟩

theorem areLines_targetLines {manifest : Manifest} (valid : manifest.WellFormed) :
    AreLines (targetLines manifest) := by
  intro line member
  obtain ⟨build, within, member⟩ := List.mem_flatMap.1 member
  obtain ⟨path, output, rfl⟩ := List.mem_map.1 member
  obtain ⟨isName, paths, -⟩ := valid.builds build within
  simp only [List.mem_append, not_or]
  exact ⟨⟨paths path (List.mem_append_left _ output), by decide⟩, isName.notMem_newline⟩

end CommandLine

open CommandLine in
/-- Everything that is read is well formed. So variables and targets are reported on a line each,
    and a command or a description goes over several lines only if it asks for several inputs on
    lines. -/
theorem Manifest.parse_well_formed {text : Bytes} {manifest : Manifest}
    (accepted : parse text = .ok manifest) :
    manifest.WellFormed ∧
    (∀ options : Options, options.tool = Tool.vars.name →
      (options.runTool (.ok text)).output.splitOn Byte.newline =
        (manifest.globals.map fun (name, value) => Utf8.shown (name ++ ascii " = " ++ value))
          ++ [[]]) ∧
    (∀ options : Options, options.tool = Tool.targets.name →
      (options.runTool (.ok text)).output.splitOn Byte.newline =
        (manifest.builds.flatMap fun build => build.outputs.map fun path =>
          Utf8.shown (path ++ ascii ": " ++ build.rule)) ++ [[]]) ∧
    ∀ edges, manifest.resolve = .ok edges →
      List.Forall₂ (fun build edge => manifest.Makes build edge ∧
        ∀ recipe, edge.recipe = some recipe → ∃ rule scope, manifest.Uses build rule scope ∧
          (Byte.newline ∈ recipe.command → 2 ≤ edge.explicitInputs.length ∧
            scope.Reaches [.reference Keyword.command] Keyword.inputLines) ∧
          (Byte.newline ∈ recipe.description → 2 ≤ edge.explicitInputs.length ∧
            scope.Reaches [.reference Keyword.description] Keyword.inputLines))
        manifest.builds edges := by
  have valid := wellFormed_of_parse accepted
  refine ⟨valid, fun options tool => ?_, fun options tool => ?_, fun edges resolved => ?_⟩
  · have named : Tool.ofName? options.tool = some .vars := by
      rw [tool]
      decide
    rw [runTool_output named accepted]
    refine (splitOn_ofLines (areLines_variableLines valid)).trans ?_
    rw [variableLines, List.map_map]
    rfl
  · have named : Tool.ofName? options.tool = some .targets := by
      rw [tool]
      decide
    rw [runTool_output named accepted]
    refine (splitOn_ofLines (areLines_targetLines valid)).trans ?_
    simp only [targetLines, List.map_flatMap, List.map_map]
    rfl
  · have pairs := (List.forall₂_and_left _ _).2 ⟨fun _ member => member, makes_of_resolve resolved⟩
    refine pairs.imp fun build edge ⟨member, makes⟩ => ⟨makes, fun recipe runs => ?_⟩
    exact makes.inputLines_of_newline valid member runs

/-- A file with a command that goes over two lines. -/
def linkFile : Bytes :=
  ascii "x = 1\nrule link\n  command = ld $in_newline\n  description = $in\nbuild a: link b c\n"

def linkRule : Rule where
  name := ascii "link"
  bindings := [⟨Keyword.command, [.literal (ascii "ld "), .reference Keyword.inputLines]⟩,
    ⟨Keyword.description, [.reference Keyword.inputs]⟩]

def linkBuild : Build := ⟨ascii "link", [ascii "a"], [ascii "b", ascii "c"], [], [], []⟩

def linkManifest : Manifest where
  globals := [(ascii "x", ascii "1")]
  rules := [linkRule]
  builds := [linkBuild]

def linkEdge : Edge :=
  linkBuild.edge (some { command := ascii "ld b\nc", description := ascii "b c" })

theorem Manifest.makes_link : linkManifest.Makes linkBuild linkEdge := by
  let scope := Scope.ofEdge [ascii "b", ascii "c"] [ascii "a"] [] linkRule.bindings
    [(ascii "x", ascii "1")]
  have commandIs : scope.meaning? Keyword.command =
      some (.template [.literal (ascii "ld "), .reference Keyword.inputLines]) := by decide
  have descriptionIs : scope.meaning? Keyword.description =
      some (.template [.reference Keyword.inputs]) := by decide
  have linesAre : scope.meaning? Keyword.inputLines =
      some (.paths [ascii "b", ascii "c"] true) := by decide
  have inputsAre : scope.meaning? Keyword.inputs =
      some (.paths [ascii "b", ascii "c"] false) := by decide
  have uses : linkManifest.Uses linkBuild linkRule scope :=
    ⟨show ascii "link" ≠ Keyword.phony by decide, List.mem_singleton_self _, rfl, [], .nil, rfl⟩
  refine .command (by decide) uses ?_ ?_
  · rw [Scope.expandName_eq, Scope.expandReference_template commandIs, if_neg (by decide)]
    simp only [Scope.expandWithin_reference, Scope.expandReference, linesAre, Scope.expandWithin]
    rfl
  · rw [Scope.expandName_eq, Scope.expandReference_template descriptionIs, if_neg (by decide)]
    simp only [Scope.expandWithin_reference, Scope.expandReference, inputsAre, Scope.expandWithin]
    rfl

theorem Manifest.resolve_link : linkManifest.resolve = .ok [linkEdge] := by
  have free : ∀ i, ¬ linkManifest.Clashes i := by
    rw [← firstRepeated?_rules_eq_none_iff]
    change firstRepeated? [Keyword.phony] [ascii "link"] = none
    decide
  rw [resolve_eq_mapM free]
  change [(linkBuild, 0)].mapM _ = _
  simp only [List.mapM_cons, makes_link.resolveBuild_eq free]
  rfl

theorem Manifest.parse_well_formed_link :
    parse linkFile = .ok linkManifest ∧
      (∀ options : CommandLine.Options, options.tool = CommandLine.Tool.vars.name →
        (options.runTool (.ok linkFile)).output.splitOn Byte.newline = [ascii "x = 1", []]) ∧
      linkManifest.resolve = .ok [linkEdge] ∧
      ∃ rule scope, linkManifest.Uses linkBuild rule scope ∧
        2 ≤ linkEdge.explicitInputs.length ∧
        scope.Reaches [.reference Keyword.command] Keyword.inputLines := by
  have accepted : parse linkFile = .ok linkManifest := by decide +kernel
  obtain ⟨-, vars, -, edges⟩ := parse_well_formed accepted
  have shown : [Utf8.shown (ascii "x = 1"), []] = [ascii "x = 1", []] := by decide +kernel
  obtain ⟨-, recipes⟩ := List.forall₂_cons.1 (edges _ resolve_link) |>.1
  obtain ⟨rule, scope, uses, broken, -⟩ := recipes _ rfl
  exact ⟨accepted, fun options tool => (vars options tool).trans shown, resolve_link, rule, scope,
    uses, broken (by decide)⟩

end BuildFile
