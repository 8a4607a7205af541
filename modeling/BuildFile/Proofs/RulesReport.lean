import BuildFile.CommandLine.Run
import BuildFile.Proofs.Grammar
import BuildFile.Proofs.Lines
import BuildFile.Proofs.Written.Encoding

/-! # The report on rules is a build file

What is printed about the rules of a file is itself a file with the same rules and nothing
else. Names and templates are such as were read, so writing them leaves nothing that could be
read in another way. A text in UTF-8 has its values in UTF-8, so no byte is replaced when they
are shown.
-/

namespace BuildFile

open Written Utf8

/-- Join neighbouring literals in what a variable stands for. -/
def Binding.merge (binding : Binding) : Binding :=
  { binding with template := binding.template.merge }

/-- Join neighbouring literals in every variable of a rule. -/
def Rule.merge (rule : Rule) : Rule :=
  { rule with bindings := rule.bindings.map Binding.merge }

/-- The rule that a declaration adds. -/
def Declaration.rule? (declaration : Declaration) : Option Rule :=
  match declaration.statement with
  | .rule name => some ⟨name, declaration.block⟩
  | .assignment _ | .build _ | .default _ => none

/-- Rules are kept as they are declared, whatever the variables stand for. -/
theorem Declaration.rules_evaluateAll (env : Environment) (declarations : List Declaration) :
    (Manifest.ofEntries (evaluateAll env declarations)).rules =
      declarations.filterMap Declaration.rule? := by
  have one (declaration : Declaration) (env : Environment) :
      (declaration.evaluate env).rule? = declaration.rule? := by
    obtain ⟨statement, block⟩ := declaration
    cases statement <;> rfl
  simp only [Manifest.ofEntries]
  induction declarations generalizing env with
  | nil => rfl
  | cons declaration rest ih => simp only [evaluateAll, List.filterMap_cons, one, ih]

/-- Every variable of a block is an assignment that stands in the block. -/
theorem exists_assignment_of_mem_bindings {block : Block} (valid : block.WellFormed)
    {binding : Binding} (member : binding ∈ block.bindings) :
    ∃ defined : Assignment, defined.WellFormed ∧ defined.binding = binding ∧
      defined.text <:+: block.text := by
  obtain ⟨line, within, same⟩ := List.mem_filterMap.1 member
  cases line with
  | blank | comment => cases same
  | binding indent defined =>
      cases same
      have inLine : defined.text <:+: (BlockLine.binding indent defined).text :=
        (List.suffix_append _ _).isInfix
      have inBlock : (BlockLine.binding indent defined).text <:+: block.text :=
        List.infix_of_mem_flatten (List.mem_map_of_mem within)
      exact ⟨defined, valid _ within, rfl, inLine.trans inBlock⟩

/-- Every rule has a name, and its variables are assignments that stand in the file. -/
theorem written_of_mem_rules {text : Bytes} {manifest : Manifest}
    (accepted : Manifest.parse text = .ok manifest) {rule : Rule} (member : rule ∈ manifest.rules) :
    IsName rule.name ∧ ∀ binding ∈ rule.bindings, ∃ defined : Assignment,
      defined.WellFormed ∧ defined.binding = binding ∧ defined.text <:+: text := by
  obtain ⟨file, valid, rfl, rfl⟩ := Manifest.extend_eq_ok_iff.1 accepted
  rw [Manifest.nil_append, Declaration.rules_evaluateAll] at member
  obtain ⟨declaration, declared, isRule⟩ := List.mem_filterMap.1 member
  obtain ⟨element, inFile, same⟩ := List.mem_filterMap.1 declared
  cases element with
  | blank | comment => cases same
  | declaration statement block =>
      cases same
      obtain ⟨wellFormed, lines, -⟩ := valid _ inFile
      cases statement with
      | assignment | default | build => cases isRule
      | rule gap name after =>
          cases isRule
          have inElement : block.text <:+:
              (Element.declaration (.rule gap name after) block).text :=
            (List.suffix_append _ _).isInfix
          have inText : (Element.declaration (.rule gap name after) block).text <:+: file.text :=
            List.infix_of_mem_flatten (List.mem_map_of_mem inFile)
          refine ⟨wellFormed, fun binding inBlock => ?_⟩
          obtain ⟨defined, valid, same, within⟩ := exists_assignment_of_mem_bindings lines inBlock
          exact ⟨defined, valid, same, (within.trans inElement).trans inText⟩

/-- The names and templates of a rule are such as can be read. -/
structure Rule.IsReadable (rule : Rule) : Prop where
  name : IsName rule.name
  binding_name : ∀ binding ∈ rule.bindings, IsName binding.name
  template : ∀ binding ∈ rule.bindings, Written.IsReadable .value binding.template

theorem isReadable_of_mem_rules {text : Bytes} {manifest : Manifest}
    (accepted : Manifest.parse text = .ok manifest) {rule : Rule} (member : rule ∈ manifest.rules) :
    rule.IsReadable := by
  obtain ⟨name, bindings⟩ := written_of_mem_rules accepted member
  refine ⟨name, fun binding inRule => ?_, fun binding inRule => ?_⟩
  all_goals obtain ⟨defined, wellFormed, rfl, -⟩ := bindings binding inRule
  · exact wellFormed.1
  · exact Spelling.isReadable_template (wellFormed_trim wellFormed.2)

/-- No spaces are lost at the start of a value, because they are written behind a `$`. -/
theorem trim_ofTemplate (template : Template) :
    (Spelling.ofTemplate template).trim = Spelling.ofTemplate template := by
  have noSpace : ∀ token ∈ Spelling.ofTemplate template, token ≠ .raw Byte.space := by
    rintro token member rfl
    obtain ⟨part, -, inPart⟩ := List.mem_flatMap.1 member
    cases part with
    | reference name => simp [Spelling.ofPart] at inPart
    | literal text =>
        obtain ⟨b, -, same⟩ := List.mem_map.1 inPart
        unfold Spelling.tokenOf at same
        split at same
        · cases same
        · next other =>
          cases same
          exact other rfl
  generalize Spelling.ofTemplate template = spelling at noSpace
  fun_cases Spelling.trim spelling with
  | case1 b rest space =>
      have other := noSpace (.raw b) List.mem_cons_self
      simp only [Byte.isSpace, beq_iff_eq] at space
      exact absurd (congrArg Token.raw space) other
  | case2 | case3 => rfl

/-- A variable of a rule as it is written. -/
def Written.Assignment.ofBinding (binding : Binding) : Assignment where
  name := binding.name
  before := 1
  after := 1
  value := Spelling.ofTemplate binding.template

/-- A rule as it is written. -/
def Written.Element.ofRule (rule : Rule) : Element :=
  .declaration (.rule 0 rule.name 0)
    (rule.bindings.map fun binding => .binding 1 (.ofBinding binding))

theorem text_ofRule (rule : Rule) :
    (Element.ofRule rule).text = linesText (CommandLine.ruleLines rule) := by
  have indent : spaces 2 = ascii "  " := by decide
  have around : spaces 1 ++ Byte.equals :: spaces 1 = ascii " = " := by decide
  have head : Keyword.rule ++ spaces 1 = ascii "rule " := by decide
  have line (binding : Binding) : (BlockLine.binding 1 (.ofBinding binding)).text =
      ascii "  " ++ binding.name ++ ascii " = " ++ binding.template.write ++ [Byte.newline] := by
    simp [BlockLine.text, Assignment.text, Assignment.ofBinding, Spelling.text_ofTemplate,
      ← indent, ← around]
  simp [Element.ofRule, Element.text, Statement.text, CommandLine.ruleLines, linesText, ← head,
    Block.text, List.flatMap_map, line]

theorem wellFormed_ofRule {rule : Rule} (h : rule.IsReadable) :
    (Element.ofRule rule).WellFormed := by
  refine ⟨h.name, ?_, fun closed => by cases closed⟩
  intro line member
  obtain ⟨binding, inRule, rfl⟩ := List.mem_map.1 member
  exact ⟨h.binding_name binding inRule,
    Spelling.wellFormed_ofTemplate _ (h.template binding inRule)⟩

/-- A rule as it is read where it was written. -/
def Rule.reread (rule : Rule) : Rule :=
  { rule with bindings := rule.bindings.map fun binding => (Assignment.ofBinding binding).binding }

theorem declaration?_ofRule (rule : Rule) :
    (Element.ofRule rule).declaration? = some ⟨.rule rule.name, rule.reread.bindings⟩ := by
  simp [Element.ofRule, Element.declaration?, Statement.content, Block.bindings, Rule.reread,
    BlockLine.binding?, List.filterMap_map, Function.comp_def]

theorem merge_reread {rule : Rule} (h : rule.IsReadable) : rule.reread.merge = rule.merge := by
  simp only [Rule.merge, Rule.reread, List.map_map, Rule.mk.injEq, true_and]
  refine List.map_congr_left fun binding member => ?_
  simp only [Function.comp_apply, Binding.merge, Assignment.binding, Assignment.ofBinding,
    trim_ofTemplate, Spelling.merge_template_ofTemplate (h.template binding member)]

theorem ruleLines_merge (rule : Rule) :
    CommandLine.ruleLines rule.merge = CommandLine.ruleLines rule := by
  simp [CommandLine.ruleLines, Rule.merge, Binding.merge]

theorem ruleLines_reread {rule : Rule} (h : rule.IsReadable) :
    CommandLine.ruleLines rule.reread = CommandLine.ruleLines rule := by
  rw [← ruleLines_merge, merge_reread h, ruleLines_merge]

theorem parse_linesText {rules : List Rule} (h : ∀ rule ∈ rules, rule.IsReadable) :
    Manifest.parse (linesText (rules.flatMap CommandLine.ruleLines)) =
      .ok { rules := rules.map Rule.reread } := by
  have valid : File.WellFormed (rules.map Element.ofRule) := by
    intro element member
    obtain ⟨rule, inRules, rfl⟩ := List.mem_map.1 member
    exact wellFormed_ofRule (h rule inRules)
  have text : File.text (rules.map Element.ofRule) =
      linesText (rules.flatMap CommandLine.ruleLines) := by
    rw [File.text, List.flatMap_map, linesText, List.flatMap_assoc]
    exact List.flatMap_congr fun rule _ => text_ofRule rule
  have entries : Declaration.evaluateAll [] (File.declarations (rules.map Element.ofRule)) =
      rules.map fun rule => .rule rule.reread := by
    clear h valid text
    induction rules with
    | nil => rfl
    | cons rule rest ih =>
        rw [List.map_cons, List.map_cons, ← ih, File.declarations,
          List.filterMap_cons_some (declaration?_ofRule rule)]
        rfl
  refine Manifest.extend_eq_ok_iff.2 ⟨_, valid, text, ?_⟩
  rw [entries, Manifest.nil_append]
  simp [Manifest.ofEntries, List.filterMap_map, Entry.global?, Entry.rule?, Entry.build?,
    Entry.default?]

/-- The value of a variable is text if the file is. -/
theorem isText_write_binding {defined : Assignment} (valid : defined.WellFormed) {text : Bytes}
    (within : defined.text <:+: text) (h : IsText text) :
    IsText defined.binding.template.write := by
  obtain ⟨front, back, rfl⟩ := within
  obtain ⟨name, before, after, value⟩ := defined
  have start : IsText ((front ++ name ++ spaces before) ++
      ([Byte.equals] ++ (spaces after ++ (value.text ++ Byte.newline :: back)))) := by
    simpa [Assignment.text] using h
  have equals : ∀ b ∈ [Byte.equals], b < 0x80 := List.forall_mem_singleton.2 (by decide)
  have behind := isText_dropWhile_isSpace (IsText.around (by simp) equals start).2
  rw [dropWhile_spaces_append, dropWhile_text] at behind
  have trimmed := ((isText_append_cons_iff (by decide)).1 behind).1
  exact isText_write_collect (wellFormed_trim valid.2) trimmed

theorem isText_of_mem_ruleLines {text : Bytes} (h : IsText text) {manifest : Manifest}
    (accepted : Manifest.parse text = .ok manifest) {rule : Rule} (member : rule ∈ manifest.rules) :
    ∀ line ∈ CommandLine.ruleLines rule, IsText line := by
  obtain ⟨name, bindings⟩ := written_of_mem_rules accepted member
  have head : IsText (ascii "rule ") := isText_of_all (by decide)
  have indent : IsText (ascii "  ") := isText_of_all (by decide)
  have equals : IsText (ascii " = ") := isText_of_all (by decide)
  refine List.forall_mem_cons.2 ⟨head.append (isText_of_ascii name.ascii), ?_⟩
  intro line inBlock
  obtain ⟨binding, inRule, rfl⟩ := List.mem_map.1 inBlock
  obtain ⟨defined, wellFormed, rfl, within⟩ := bindings binding inRule
  exact ((indent.append (isText_of_ascii wellFormed.1.ascii)).append equals).append
    (isText_write_binding wellFormed within h)

namespace CommandLine

theorem text_ofLines {lines : List Bytes} (h : ∀ line ∈ lines, IsText line) :
    (Report.ofLines lines).text = linesText lines :=
  List.flatMap_congr fun line member => by rw [(h line member).shown_eq]

theorem runTool_rules {options : Options} (tool : options.tool = Tool.rules.name) {text : Bytes}
    {manifest : Manifest} (accepted : Manifest.parse text = .ok manifest) :
    (options.runTool (.ok text)).status = 0 ∧
      (options.runTool (.ok text)).output =
        (Report.ofLines (manifest.rules.flatMap ruleLines)).text := by
  have named : Tool.ofName? options.tool = some .rules := by
    rw [tool]
    decide
  have source : Manifest.read options.file (.ok text) = .ok manifest := by
    change ((Manifest.parse text).mapError _).mapError _ = _
    rw [accepted]
    rfl
  rw [Options.runTool, named]
  dsimp only
  rw [source]
  exact ⟨rfl, rfl⟩

/-- The report on the rules of a file is a file of its own: it holds the same rules, up to
    where literals are cut, and nothing else, and the report on it is the same. -/
theorem rules_report_reads_back {options : Options} (tool : options.tool = Tool.rules.name)
    {text : Bytes} (valid : text.toByteArray.IsValidUTF8) {manifest : Manifest}
    (accepted : Manifest.parse text = .ok manifest) :
    ∃ (report : Bytes) (again : Manifest),
      (options.runTool (.ok text)).status = 0 ∧ (options.runTool (.ok text)).output = report ∧
        Manifest.parse report = .ok again ∧
        again.globals = [] ∧ again.builds = [] ∧ again.defaults = [] ∧
        again.rules.map Rule.merge = manifest.rules.map Rule.merge ∧
        ∀ other : Options, other.tool = Tool.rules.name →
          (other.runTool (.ok report)).output = report := by
  obtain ⟨status, output⟩ := runTool_rules tool accepted
  have readable : ∀ rule ∈ manifest.rules, rule.IsReadable :=
    fun rule => isReadable_of_mem_rules accepted
  have isText : ∀ line ∈ manifest.rules.flatMap ruleLines, IsText line := by
    intro line member
    obtain ⟨rule, inRules, ofRule⟩ := List.mem_flatMap.1 member
    exact isText_of_mem_ruleLines (isText_iff_isValidUTF8.2 valid) accepted inRules line ofRule
  have reread := parse_linesText readable
  have sameLines : (manifest.rules.map Rule.reread).flatMap ruleLines =
      manifest.rules.flatMap ruleLines := by
    rw [List.flatMap_map]
    exact List.flatMap_congr fun rule member => ruleLines_reread (readable rule member)
  refine ⟨linesText (manifest.rules.flatMap ruleLines), _, status, ?_, reread, rfl, rfl, rfl,
    ?_, ?_⟩
  · rw [output, text_ofLines isText]
  · rw [List.map_map]
    exact List.map_congr_left fun rule member => merge_reread (readable rule member)
  · intro other tool
    rw [(runTool_rules tool reread).2, sameLines, text_ofLines isText]

/-- A file with an accent, escapes, a continued line, a rule named like a keyword and an empty
    value. -/
def accentedFile : Bytes :=
  ascii "x = 1\nrule build\n  a =  caf" ++ [0xc3, 0xa9] ++
    ascii "$: $$$\x7bx\x7d$\n    c | d$ \nrule r\n  e =\nbuild o: r\n"

def accentedManifest : Manifest where
  globals := [(ascii "x", ascii "1")]
  rules :=
    [⟨ascii "build", [⟨ascii "a", [.literal (ascii "caf" ++ [0xc3, 0xa9]), .literal (ascii ":"),
        .literal (ascii " "), .literal (ascii "$"), .reference (ascii "x"),
        .literal (ascii "c | d"), .literal (ascii " ")]⟩]⟩,
      ⟨ascii "r", [⟨ascii "e", []⟩]⟩]
  builds := [⟨ascii "r", [ascii "o"], [], [], [], []⟩]

theorem rules_report_reads_back_accented :
    accentedFile.toByteArray.IsValidUTF8 ∧ Manifest.parse accentedFile = .ok accentedManifest ∧
      ∃ (report : Bytes) (again : Manifest),
        (({ tool := Tool.rules.name } : Options).runTool (.ok accentedFile)).output = report ∧
          Manifest.parse report = .ok again ∧
          again.rules.map Rule.merge =
            [⟨ascii "build", [⟨ascii "a", [.literal (ascii "caf" ++ [0xc3, 0xa9] ++ ascii ": $"),
                .reference (ascii "x"), .literal (ascii "c | d ")]⟩]⟩,
              ⟨ascii "r", [⟨ascii "e", []⟩]⟩] ∧
          (({ tool := Tool.rules.name } : Options).runTool (.ok report)).output = report := by
  have valid : accentedFile.toByteArray.IsValidUTF8 :=
    isText_iff_isValidUTF8.1 ⟨"x = 1\nrule build\n  a =  café".toList ++
      "$: $$$\x7bx\x7d$\n    c | d$ \nrule r\n  e =\nbuild o: r\n".toList, by decide +kernel⟩
  have accepted : Manifest.parse accentedFile = .ok accentedManifest := by decide +kernel
  obtain ⟨report, again, -, output, reread, -, -, -, rules, reproduced⟩ :=
    @rules_report_reads_back { tool := Tool.rules.name } rfl _ valid _ accepted
  exact ⟨valid, accepted, report, again, output, reread, rules, reproduced _ rfl⟩

end CommandLine

end BuildFile
