import BuildFile.CommandLine.Run
import BuildFile.Proofs.DiagnosticPlace
import BuildFile.Proofs.FirstProducer
import BuildFile.Proofs.Independence

/-! # Reports on targets

Three tools tell of targets: one lists them as the file has them, one lists the commands of the
edges, and one looks targets up in the index of the outputs. They tell of the same builds: what is
found in the index is the first build that makes a target, whatever other builds make it too, and
nothing is found for what is not listed.
-/

namespace BuildFile

/-- The outputs of all builds, in the order of the file. -/
def Manifest.outputs (manifest : Manifest) : List Bytes := manifest.builds.flatMap (·.outputs)

/-- The build at an index is the first that has a target among its outputs. -/
def Manifest.FirstMakes (manifest : Manifest) (target : Bytes) (index : Nat) (build : Build) :
    Prop :=
  IsLeast {i | ∃ build, manifest.builds[i]? = some build ∧ target ∈ build.outputs} index ∧
    manifest.builds[index]? = some build

/-- An edge has what its build has. -/
theorem Manifest.Makes.eq_edge {manifest : Manifest} {build : Build} {edge : Edge}
    (makes : manifest.Makes build edge) : edge = build.edge edge.recipe := by
  cases makes <;> rfl

theorem Manifest.Makes.recipe_eq_none_iff {manifest : Manifest} {build : Build} {edge : Edge}
    (makes : manifest.Makes build edge) : edge.recipe = none ↔ build.rule = Keyword.phony := by
  cases makes with
  | phony nonempty phony => simp [Build.edge, phony]
  | command nonempty uses => simp [Build.edge, uses.not_phony]

namespace CommandLine

/-- What came of opening a file is a text that can be parsed and resolved. -/
def Resolves (content : Except IoError Bytes) (manifest : Manifest) (edges : List Edge) : Prop :=
  ∃ text, content = .ok text ∧ Manifest.parse text = .ok manifest ∧ manifest.resolve = .ok edges

/-- Run a tool in place of the one that the options name. -/
def Options.runAs (options : Options) (content : Except IoError Bytes) (tool : Tool) : Outcome :=
  { options with tool := tool.name }.runTool content

/-- If what came of opening a file is a text with an error, the error is not too far to the right
    to be shown. -/
def Showable (content : Except IoError Bytes) : Prop :=
  ∀ text diagnostic, content = .ok text → Manifest.readText text = .error diagnostic →
    diagnostic.location.column ≤ 65536

/-- The paths of a build, each with what it is for. -/
def pathLines (build : Build) : List Bytes :=
  build.explicitInputs.map (ascii "  input: " ++ ·)
    ++ build.implicitInputs.map (ascii "  implicit: " ++ ·)
    ++ build.orderOnlyInputs.map (ascii "  order-only: " ++ ·)
    ++ build.outputs.map (ascii "  output: " ++ ·)

/-- The lines that describe how a target is made, from the first build that makes it and from the
    edge of this build. -/
inductive Describes (manifest : Manifest) (edges : List Edge) (target : Bytes) :
    List Bytes → Prop where
  | phony {index : Nat} {build : Build} (first : manifest.FirstMakes target index build)
      (rule : build.rule = Keyword.phony) :
      Describes manifest edges target
        ([target ++ ascii ":", ascii "  rule: " ++ build.rule] ++ pathLines build)
  | recipe {index : Nat} {build : Build} {edge : Edge} {recipe : Recipe}
      (first : manifest.FirstMakes target index build) (rule : build.rule ≠ Keyword.phony)
      (resolved : edges[index]? = some edge) (runs : edge.recipe = some recipe) :
      Describes manifest edges target
        ([target ++ ascii ":", ascii "  rule: " ++ build.rule]
          ++ [ascii "  command: " ++ recipe.command]
          ++ (if recipe.description = [] then []
            else [ascii "  description: " ++ recipe.description])
          ++ pathLines build)

section Lookup

variable {manifest : Manifest} {edges : List Edge} {target : Bytes} {edge : Edge}

theorem map_outputs_eq {builds : List Build} (makes : List.Forall₂ manifest.Makes builds edges) :
    edges.map (·.outputs) = builds.map (·.outputs) := by
  induction makes with
  | nil => rfl
  | @cons build edge _ _ makes _ ih =>
      have same : edge.outputs = build.outputs := congrArg Edge.outputs makes.eq_edge
      simp only [List.map_cons, same, ih]

/-- The index leads to the first build that makes a target. -/
theorem producer?_eq_some_iff (makes : List.Forall₂ manifest.Makes manifest.builds edges)
    {index : Nat} :
    (OutputIndex.ofEdges edges).producer? target = some index ↔
      ∃ build, manifest.FirstMakes target index build := by
  rw [OutputIndex.ofEdges, map_outputs_eq makes, OutputIndex.producer?_ofOutputs_eq_some_iff]
  simp only [List.getElem?_map, Option.map_eq_some_iff, Manifest.FirstMakes]
  constructor
  · intro least
    obtain ⟨build, found, -⟩ : ∃ build, manifest.builds[index]? = some build ∧ _ := by
      simpa using least.1
    exact ⟨build, by simpa using least, found⟩
  · rintro ⟨build, least, -⟩
    simpa using least

theorem producer?_eq_none_iff (makes : List.Forall₂ manifest.Makes manifest.builds edges) :
    (OutputIndex.ofEdges edges).producer? target = none ↔ target ∉ manifest.outputs := by
  rw [← Option.not_isSome_iff_eq_none, Option.isSome_iff_exists, OutputIndex.ofEdges,
    map_outputs_eq makes, OutputIndex.exists_producer?_ofOutputs_iff]
  simp [Manifest.outputs]

theorem exists_edge_of_firstMakes (makes : List.Forall₂ manifest.Makes manifest.builds edges)
    {index : Nat} {build : Build} (first : manifest.FirstMakes target index build) :
    ∃ edge, edges[index]? = some edge ∧ manifest.Makes build edge := by
  have pair := forall₂_getElem? makes index
  rw [first.2] at pair
  generalize edges[index]? = found at pair
  cases pair with
  | some makes => exact ⟨_, rfl, makes⟩

theorem describes_edgeLines {index : Nat} {build : Build}
    (first : manifest.FirstMakes target index build) (resolved : edges[index]? = some edge)
    (makes : manifest.Makes build edge) :
    Describes manifest edges target (edgeLines target edge) := by
  rw [makes.eq_edge]
  cases runs : edge.recipe with
  | none =>
      have lines : Describes manifest edges target _ :=
        .phony first (makes.recipe_eq_none_iff.1 runs)
      simpa [edgeLines, pathLines, Build.edge] using lines
  | some recipe =>
      have rule : build.rule ≠ Keyword.phony := fun phony => by
        rw [makes.recipe_eq_none_iff.2 phony] at runs
        cases runs
      have lines : Describes manifest edges target _ := .recipe first rule resolved runs
      simpa [edgeLines, recipeLines, pathLines, Build.edge] using lines

/-- A target is found exactly if it is listed, and then it is described. -/
theorem edgeOf?_cases (makes : List.Forall₂ manifest.Makes manifest.builds edges)
    (target : Bytes) :
    (target ∉ manifest.outputs ∧ edgeOf? edges (.ofEdges edges) target = none) ∨
      (target ∈ manifest.outputs ∧ ∃ edge, edgeOf? edges (.ofEdges edges) target = some edge ∧
        Describes manifest edges target (edgeLines target edge)) := by
  cases known : (OutputIndex.ofEdges edges).producer? target with
  | none => exact .inl ⟨(producer?_eq_none_iff makes).1 known, by simp [edgeOf?, known]⟩
  | some index =>
      obtain ⟨build, first⟩ := (producer?_eq_some_iff makes).1 known
      obtain ⟨edge, resolved, made⟩ := exists_edge_of_firstMakes makes first
      refine .inr ⟨?_, edge, by simp [edgeOf?, known, resolved],
        describes_edgeLines first resolved made⟩
      by_contra unlisted
      rw [(producer?_eq_none_iff makes).2 unlisted] at known
      cases known

/-- Targets are described one after another, up to the first that is not listed. -/
theorem exists_blocks (makes : List.Forall₂ manifest.Makes manifest.builds edges)
    (targets : List Bytes) :
    ∃ blocks, List.Forall₂ (Describes manifest edges)
        (targets.takeWhile (· ∈ manifest.outputs)) blocks ∧
      (queryReport edges (.ofEdges edges) targets).lines = blocks.flatten := by
  induction targets with
  | nil => exact ⟨[], .nil, rfl⟩
  | cons target rest ih =>
      obtain ⟨blocks, described, lines⟩ := ih
      obtain ⟨unlisted, missing⟩ | ⟨listed, edge, found, block⟩ := edgeOf?_cases makes target
      · exact ⟨[], by simp [unlisted], by simp [queryReport, missing]⟩
      · refine ⟨edgeLines target edge :: blocks, ?_, by simp [queryReport, found, lines]⟩
        rw [List.takeWhile_cons_of_pos (by simpa using listed)]
        exact .cons block described

theorem problem_queryReport (makes : List.Forall₂ manifest.Makes manifest.builds edges)
    (targets : List Bytes) :
    (queryReport edges (.ofEdges edges) targets).problem =
      (targets.find? (· ∉ manifest.outputs)).map
        (.whole <| ascii "Unknown target " ++ Utf8.shown ·) := by
  induction targets with
  | nil => rfl
  | cons target rest ih =>
      obtain ⟨unlisted, missing⟩ | ⟨listed, edge, found, -⟩ := edgeOf?_cases makes target
      · simp [queryReport, missing, unlisted]
      · simp [queryReport, found, listed, ih]

end Lookup

section Run

variable {options : Options} {content : Except IoError Bytes} {manifest : Manifest}
  {edges : List Edge}

/-- What there is to report on. -/
def source (options : Options) (content : Except IoError Bytes) : Except Formatted Manifest :=
  (Manifest.read options.file content).mapError (·.message)

theorem runAs_eq (options : Options) (content : Except IoError Bytes) (tool : Tool) :
    options.runAs content tool = options.finish
      (Options.startRecord :: toolRecords tool options.file content)
      (tool.report (source options content) options.targets) := by
  have named : Tool.ofName? tool.name = some tool := by cases tool <;> decide
  simp only [Options.runAs, Options.runTool, named]
  rfl

theorem mapError_eq_ok_iff {ε ε' α : Type} {result : Except ε α} {f : ε → ε'} {value : α} :
    result.mapError f = .ok value ↔ result = .ok value := by
  cases result <;> simp [Except.mapError]

theorem mapError_eq_error_iff {ε ε' α : Type} {result : Except ε α} {f : ε → ε'} {shown : ε'} :
    result.mapError f = .error shown ↔ ∃ error, result = .error error ∧ f error = shown := by
  cases result <;> simp [Except.mapError]

theorem source_eq_ok_iff :
    source options content = .ok manifest ↔
      ∃ text, content = .ok text ∧ Manifest.parse text = .ok manifest := by
  rw [source, mapError_eq_ok_iff]
  cases content with
  | error error => simp [Manifest.read, Except.mapError, bind, Except.bind]
  | ok text =>
      change (Manifest.readText text).mapError _ = .ok manifest ↔ _
      simp [Manifest.readText, mapError_eq_ok_iff]

theorem resolved_eq_ok_iff :
    resolved (source options content) = .ok edges ↔
      ∃ manifest, Resolves content manifest edges := by
  constructor
  · intro h
    cases found : source options content with
    | error problem =>
        rw [found] at h
        cases h
    | ok manifest =>
        rw [found] at h
        obtain ⟨text, opened, parsed⟩ := source_eq_ok_iff.1 found
        exact ⟨manifest, text, opened, parsed, mapError_eq_ok_iff.1 h⟩
  · rintro ⟨manifest, text, opened, parsed, resolves⟩
    rw [source_eq_ok_iff.2 ⟨text, opened, parsed⟩]
    exact mapError_eq_ok_iff.2 resolves

theorem showable_of_accepted {text : Bytes} (accepted : Manifest.readText text = .ok manifest) :
    Showable (.ok text) := by
  rintro _ diagnostic ⟨⟩ rejected
  rw [accepted] at rejected
  cases rejected

theorem showable_iff_of_rejected {text : Bytes} {diagnostic : Diagnostic}
    (rejected : Manifest.readText text = .error diagnostic) :
    Showable (.ok text) ↔ diagnostic.location.column ≤ 65536 := by
  refine ⟨fun showable => showable _ _ rfl rejected, ?_⟩
  rintro narrow _ other ⟨⟩ same
  rw [rejected] at same
  cases same
  exact narrow

theorem source_of_rejected {text : Bytes} {diagnostic : Diagnostic}
    (rejected : Manifest.readText text = .error diagnostic) (options : Options) :
    source options (.ok text) = .error (ReadError.malformed options.file diagnostic).message := by
  change ((Manifest.readText text).mapError _).mapError _ = _
  rw [rejected]
  rfl

theorem not_resolves_of_rejected {text : Bytes} {diagnostic : Diagnostic}
    (rejected : Manifest.readText text = .error diagnostic) :
    ¬ ∃ manifest edges, Resolves (.ok text) manifest edges := by
  rintro ⟨manifest, edges, _, ⟨⟩, parsed, -⟩
  rw [Manifest.readText, parsed] at rejected
  cases rejected

/-- Of all problems that keep edges from being known, only a diagnostic may not be shown. -/
theorem exists_whole_iff {problem : Formatted}
    (h : resolved (source options content) = .error problem) :
    (∃ text, problem = .whole text) ↔ Showable content := by
  cases content with
  | error error =>
      cases h
      exact ⟨fun _ text diagnostic opened => (nomatch opened), fun _ => ⟨_, rfl⟩⟩
  | ok text =>
      cases read : Manifest.readText text with
      | error diagnostic =>
          rw [source_of_rejected read] at h
          cases h
          rw [showable_iff_of_rejected read, ReadError.message,
            Formatted.exists_behind_eq_whole_iff, Diagnostic.exists_message_iff]
      | ok manifest =>
          have parsed : Manifest.parse text = .ok manifest := mapError_eq_ok_iff.1 read
          rw [source_eq_ok_iff.2 ⟨text, rfl, parsed⟩] at h
          obtain ⟨error, -, rfl⟩ := mapError_eq_error_iff.1 h
          exact ⟨fun _ => showable_of_accepted read, fun _ => ⟨_, rfl⟩⟩

/-- Without edges there is nothing to report but the problem. The program crashes on one that
    cannot be shown. -/
theorem runAs_of_not_resolves (missing : ¬ ∃ manifest edges, Resolves content manifest edges)
    (tool : Tool) (asked : tool ∈ [Tool.commands, Tool.query]) (options : Options) :
    (options.runAs content tool).output = [] ∧
      (Showable content → (options.runAs content tool).status = 1) ∧
      (¬ Showable content → (options.runAs content tool).status = 101) := by
  cases found : resolved (source options content) with
  | ok edges =>
      obtain ⟨manifest, h⟩ := resolved_eq_ok_iff.1 found
      exact absurd ⟨manifest, edges, h⟩ missing
  | error problem =>
      have report : tool.report (source options content) options.targets =
          { problem := some problem } := by
        cases tool <;> simp_all [Tool.report, Report.ofExcept]
      rw [runAs_eq, report, ← exists_whole_iff found]
      cases problem <;> simp [Options.finish, Report.status, Report.text]

theorem text_ofLines_eq (lines : List Bytes) :
    (Report.ofLines lines).text = linesText (lines.map Utf8.shown) := by
  simp [Report.ofLines, Report.text, linesText, List.flatMap_map]

theorem Resolves.runAs_commands (h : Resolves content manifest edges) (options : Options) :
    (options.runAs content .commands).status = 0 ∧
      (options.runAs content .commands).output =
        linesText ((edges.filterMap fun edge => edge.recipe.map (·.command)).map Utf8.shown) := by
  rw [runAs_eq, Tool.report, resolved_eq_ok_iff.2 ⟨manifest, h⟩, ← text_ofLines_eq]
  exact ⟨rfl, rfl⟩

theorem Resolves.runAs_targets (h : Resolves content manifest edges) (options : Options) :
    (options.runAs content .targets).status = 0 ∧
      (options.runAs content .targets).output =
        linesText ((manifest.builds.flatMap fun build =>
          build.outputs.map (· ++ ascii ": " ++ build.rule)).map Utf8.shown) := by
  obtain ⟨text, opened, parsed, -⟩ := h
  rw [runAs_eq, Tool.report, source_eq_ok_iff.2 ⟨text, opened, parsed⟩, ← text_ofLines_eq]
  exact ⟨rfl, rfl⟩

theorem Resolves.makes (h : Resolves content manifest edges) :
    List.Forall₂ manifest.Makes manifest.builds edges := by
  obtain ⟨text, -, -, resolves⟩ := h
  exact Manifest.makes_of_resolve resolves

theorem Resolves.exists_blocks_query (h : Resolves content manifest edges) (options : Options) :
    ∃ blocks, List.Forall₂ (Describes manifest edges)
        (options.targets.takeWhile (· ∈ manifest.outputs)) blocks ∧
      (options.runAs content .query).output = linesText (blocks.flatten.map Utf8.shown) := by
  obtain ⟨blocks, described, lines⟩ := exists_blocks h.makes options.targets
  refine ⟨blocks, described, ?_⟩
  rw [runAs_eq, Tool.report, resolved_eq_ok_iff.2 ⟨manifest, h⟩, ← lines, ← text_ofLines_eq]
  rfl

theorem Resolves.status_query (h : Resolves content manifest edges) (options : Options) :
    (options.runAs content .query).status =
      if (options.targets.find? (· ∉ manifest.outputs)).isSome then 1 else 0 := by
  rw [runAs_eq, Tool.report, resolved_eq_ok_iff.2 ⟨manifest, h⟩, Report.ofExcept, Options.finish,
    Report.status, problem_queryReport h.makes]
  cases options.targets.find? (· ∉ manifest.outputs) <;> rfl

/-- The two tools tell the same about what they do, and one of them has an error to add. -/
theorem Resolves.errors_query (h : Resolves content manifest edges) (options : Options) :
    (options.runAs content .query).errors = (options.runAs content .commands).errors ++
      ((options.targets.find? (· ∉ manifest.outputs)).map fun target =>
        ascii "[ERROR] Unknown target " ++ Utf8.shown target ++ [Byte.newline]).getD [] := by
  have message : ascii "[ERROR] Unknown target " = ascii "[ERROR] " ++ ascii "Unknown target " := by
    decide
  rw [runAs_eq, runAs_eq, Tool.report, Tool.report, resolved_eq_ok_iff.2 ⟨manifest, h⟩,
    Report.ofExcept, Report.ofExcept, Options.finish, Options.finish,
    problem_queryReport h.makes, message]
  cases options.targets.find? (· ∉ manifest.outputs) <;> simp [toolRecords, Report.ofLines,
    Tool.readsFile, Tool.resolves, errorText, errorRecord, Log.Record.line]

/-- The tools that list targets, look them up and list commands report on the same builds. If there
    are no edges, those that need edges end with status 1 exactly if they can show why. -/
theorem reports_agree (options : Options) (content : Except IoError Bytes) :
    ((options.runAs content .commands).status = 0 ↔
      ∃ manifest edges, Resolves content manifest edges) ∧
    ((¬ ∃ manifest edges, Resolves content manifest edges) →
      ∀ tool ∈ [Tool.commands, Tool.query],
        (options.runAs content tool).output = [] ∧
        (Showable content → (options.runAs content tool).status = 1) ∧
        (¬ Showable content → (options.runAs content tool).status = 101)) ∧
    ∀ manifest edges, Resolves content manifest edges →
      (options.runAs content .commands).output =
        linesText ((edges.filterMap fun edge => edge.recipe.map (·.command)).map Utf8.shown) ∧
      (options.runAs content .targets).status = 0 ∧
      (options.runAs content .targets).output =
        linesText ((manifest.builds.flatMap fun build =>
          build.outputs.map (· ++ ascii ": " ++ build.rule)).map Utf8.shown) ∧
      (∃ blocks, List.Forall₂ (Describes manifest edges)
          (options.targets.takeWhile (· ∈ manifest.outputs)) blocks ∧
        (options.runAs content .query).output = linesText (blocks.flatten.map Utf8.shown)) ∧
      ((options.runAs content .query).status = 0 ↔
        ∀ target ∈ options.targets, target ∈ manifest.outputs) ∧
      ∀ target, options.targets.find? (· ∉ manifest.outputs) = some target →
        (options.runAs content .query).status = 1 ∧
        (options.runAs content .query).errors = (options.runAs content .commands).errors
          ++ ascii "[ERROR] Unknown target " ++ Utf8.shown target ++ [Byte.newline] := by
  refine ⟨⟨fun success => ?_, ?_⟩, fun missing tool asked => ?_, fun manifest edges h => ?_⟩
  · by_contra missing
    obtain ⟨-, told, crashed⟩ := runAs_of_not_resolves missing .commands (by decide) options
    by_cases showable : Showable content
    · simp [told showable] at success
    · simp [crashed showable] at success
  · rintro ⟨manifest, edges, h⟩
    exact (h.runAs_commands options).1
  · exact runAs_of_not_resolves missing tool asked options
  · obtain ⟨-, commands⟩ := h.runAs_commands options
    obtain ⟨status, targets⟩ := h.runAs_targets options
    refine ⟨commands, status, targets, h.exists_blocks_query options, ?_, fun target unlisted => ?_⟩
    · rw [h.status_query options]
      simp [List.find?_isSome]
    · rw [h.status_query options, h.errors_query options, unlisted]
      simp

end Run

/-- A target that is made twice, by a rule and by a phony build. -/
def twiceFile : Bytes :=
  ascii "rule r\n  command = cp $in\nbuild a b: r i\nbuild b c: phony a\n"

def twiceRule : Rule := ⟨ascii "r", [⟨Keyword.command,
  [.literal (ascii "cp "), .reference Keyword.inputs]⟩]⟩

def copied : Build := ⟨ascii "r", [ascii "a", ascii "b"], [ascii "i"], [], [], []⟩

def renamed : Build := ⟨Keyword.phony, [ascii "b", ascii "c"], [ascii "a"], [], [], []⟩

def twiceManifest : Manifest where
  rules := [twiceRule]
  builds := [copied, renamed]

def copiedEdge : Edge := copied.edge (some { command := ascii "cp i", description := [] })

theorem resolves_twice :
    Resolves (.ok twiceFile) twiceManifest [copiedEdge, renamed.edge none] := by
  let scope := Scope.ofEdge [ascii "i"] [ascii "a", ascii "b"] [] twiceRule.bindings []
  have commandIs : scope.meaning? Keyword.command =
      some (.template [.literal (ascii "cp "), .reference Keyword.inputs]) := by decide
  have inputsAre : scope.meaning? Keyword.inputs = some (.paths [ascii "i"] false) := by decide
  have unknown : scope.meaning? Keyword.description = none := by decide
  have uses : twiceManifest.Uses copied twiceRule scope :=
    ⟨show ascii "r" ≠ Keyword.phony by decide, List.mem_singleton_self _, rfl, [], .nil, rfl⟩
  have first : twiceManifest.Makes copied copiedEdge := by
    refine .command (by decide) uses ?_ (Scope.expandName_none unknown)
    rw [Scope.expandName_eq, Scope.expandReference_template commandIs, if_neg (by decide)]
    simp only [Scope.expandWithin_reference, Scope.expandReference, inputsAre, Scope.expandWithin]
    rfl
  refine ⟨twiceFile, rfl, by decide +kernel, ?_⟩
  exact Manifest.resolve_eq_ok_iff.2 ⟨Manifest.free_iff.2 (by decide),
    .cons first (.cons (.phony (by decide) rfl) .nil)⟩

/-- Two targets that are known, and one that is not. Without a file there is nothing to report, but
    that can be told. -/
theorem reports_agree_twice :
    let options : Options := { targets := [ascii "b", ascii "c", ascii "d", ascii "a"] }
    (∃ blocks, List.Forall₂ (Describes twiceManifest [copiedEdge, renamed.edge none])
        [ascii "b", ascii "c"] blocks ∧
      (options.runAs (.ok twiceFile) .query).output = linesText (blocks.flatten.map Utf8.shown)) ∧
    (options.runAs (.ok twiceFile) .query).status = 1 ∧
    (options.runAs (.ok twiceFile) .query).errors =
      (options.runAs (.ok twiceFile) .commands).errors
        ++ ascii "[ERROR] Unknown target " ++ Utf8.shown (ascii "d") ++ [Byte.newline] ∧
    (options.runAs (.error .noSuchFile) .query).output = [] ∧
    (options.runAs (.error .noSuchFile) .query).status = 1 := by
  intro options
  obtain ⟨-, -, agree⟩ := reports_agree options (.ok twiceFile)
  obtain ⟨-, -, -, blocks, -, unlisted⟩ := agree _ _ resolves_twice
  obtain ⟨status, errors⟩ := unlisted (ascii "d") (by decide)
  obtain ⟨-, missing, -⟩ := reports_agree options (.error .noSuchFile)
  have nothing : ¬ ∃ manifest edges, Resolves (.error .noSuchFile) manifest edges := by
    rintro ⟨manifest, edges, text, opened, -⟩
    cases opened
  have showable : Showable (.error .noSuchFile) := by
    intro text diagnostic opened
    cases opened
  obtain ⟨silent, told, -⟩ := missing nothing .query (by decide)
  exact ⟨blocks, status, errors, silent, told showable⟩

/-- A name alone in its line is an error behind the name, which here is too far to the right. -/
theorem reports_agree_overlong :
    let options : Options := {}
    let content : Except IoError Bytes := .ok (Manifest.overlong ++ [Byte.newline])
    (¬ ∃ manifest edges, Resolves content manifest edges) ∧
      ∀ tool ∈ [Tool.commands, Tool.query], (options.runAs content tool).status ≠ 1 := by
  intro options content
  have missing : ¬ ∃ manifest edges, Resolves content manifest edges :=
    not_resolves_of_rejected Manifest.readText_overlong
  have hidden : ¬ Showable content := by
    rw [showable_iff_of_rejected Manifest.readText_overlong]
    decide
  refine ⟨missing, fun tool asked => ?_⟩
  obtain ⟨-, -, crashed⟩ := runAs_of_not_resolves missing tool asked options
  simp [crashed hidden]

end CommandLine

end BuildFile
