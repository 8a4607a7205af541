import BuildFile.Proofs.Grammar
import BuildFile.Proofs.Written.Canonical

/-! # What a manifest consists of

Whatever is read from a file is well formed: names are names, templates have no empty parts, and
no line break gets into a literal. Values and paths are evaluated in variables of which all this
holds, so it holds of them as well.
-/

namespace BuildFile

open Written (IsName IsReadable PartIsReadable)

/-- A part says something, and its text stays on one line. -/
def Part.WellFormed : Part → Prop
  | .literal text => text ≠ [] ∧ Byte.newline ∉ text
  | .reference name => IsName name

def Template.WellFormed (template : Template) : Prop :=
  ∀ part ∈ template, part.WellFormed

structure Binding.WellFormed (binding : Binding) : Prop where
  name : IsName binding.name
  template : binding.template.WellFormed

/-- The variables have names, and each value stays on one line. -/
def Environment.WellFormed (env : Environment) : Prop :=
  ∀ entry ∈ env, IsName entry.1 ∧ Byte.newline ∉ entry.2

structure Rule.WellFormed (rule : Rule) : Prop where
  name : IsName rule.name
  bindings : ∀ binding ∈ rule.bindings, binding.WellFormed

structure Build.WellFormed (build : Build) : Prop where
  rule : IsName build.rule
  paths : ∀ path ∈ build.outputs ++ build.allInputs, Byte.newline ∉ path
  bindings : ∀ binding ∈ build.bindings, binding.WellFormed

namespace Keyword

/-- The words that start a statement of their own. -/
def all : List Name := [build, rule, default]

end Keyword

structure Manifest.WellFormed (manifest : Manifest) : Prop where
  globals : manifest.globals.WellFormed
  /-- A variable named like a keyword could not be defined. -/
  not_keyword : ∀ entry ∈ manifest.globals, entry.1 ∉ Keyword.all
  rules : ∀ rule ∈ manifest.rules, rule.WellFormed
  builds : ∀ build ∈ manifest.builds, build.WellFormed
  defaults : ∀ path ∈ manifest.defaults, Byte.newline ∉ path

theorem Environment.WellFormed.notMem_value {env : Environment} (h : env.WellFormed) (name : Name) :
    Byte.newline ∉ env.value name := by
  rw [value, value?]
  cases found : env.find? (·.1 == name) with
  | none => simp
  | some entry => exact (h entry (List.mem_of_find?_eq_some found)).2

theorem Environment.WellFormed.append {first second : Environment} (h : first.WellFormed)
    (k : second.WellFormed) : WellFormed (first ++ second) :=
  List.forall_mem_append.2 ⟨h, k⟩

theorem Environment.WellFormed.define {env : Environment} (h : env.WellFormed) {name : Name}
    (isName : IsName name) {value : Bytes} (free : Byte.newline ∉ value) :
    (env.define name value).WellFormed :=
  h.append (List.forall_mem_singleton.2 ⟨isName, free⟩)

/-- Evaluation brings no line break in, neither from a literal nor from a value. -/
theorem Template.WellFormed.notMem_evaluate {template : Template} (h : template.WellFormed)
    {env : Environment} (values : env.WellFormed) : Byte.newline ∉ template.evaluate env := by
  intro member
  obtain ⟨part, within, found⟩ := List.mem_flatMap.1 member
  cases part with
  | literal text => exact (h _ within).2 found
  | reference name => exact values.notMem_value name found

def BuildLine.paths (line : BuildLine) : List Template :=
  line.outputs ++ (line.explicitInputs ++ line.implicitInputs ++ line.orderOnlyInputs)

def Statement.WellFormed : Statement → Prop
  | .assignment binding => binding.WellFormed ∧ binding.name ∉ Keyword.all
  | .rule name => IsName name
  | .build line => IsName line.rule ∧ ∀ path ∈ line.paths, path.WellFormed
  | .default path => path.WellFormed

structure Declaration.WellFormed (declaration : Declaration) : Prop where
  statement : declaration.statement.WellFormed
  block : ∀ binding ∈ declaration.block, binding.WellFormed

def Entry.WellFormed : Entry → Prop
  | .global name value => IsName name ∧ name ∉ Keyword.all ∧ Byte.newline ∉ value
  | .rule added => added.WellFormed
  | .build added => added.WellFormed
  | .default path => Byte.newline ∉ path

theorem BuildLine.allPaths_evaluate (line : BuildLine) (block : List Binding) (env : Environment) :
    (line.evaluate block env).outputs ++ (line.evaluate block env).allInputs =
      line.paths.map (·.evaluate env) := by
  simp only [evaluate, Build.allInputs, Template.evaluateAll, paths, List.map_append]

/-- One declaration, in well formed variables, gives a well formed entry. -/
theorem Declaration.WellFormed.evaluate {declaration : Declaration} (h : declaration.WellFormed)
    {env : Environment} (values : env.WellFormed) : (declaration.evaluate env).WellFormed := by
  obtain ⟨statement, block⟩ := declaration
  obtain ⟨valid, bindings⟩ := h
  cases statement with
  | assignment binding => exact ⟨valid.1.name, valid.2, valid.1.template.notMem_evaluate values⟩
  | rule name => exact ⟨valid, bindings⟩
  | build line =>
      refine ⟨valid.1, ?_, bindings⟩
      rw [BuildLine.allPaths_evaluate]
      intro path member
      obtain ⟨template, within, rfl⟩ := List.mem_map.1 member
      exact (valid.2 template within).notMem_evaluate values
  | default path => exact Template.WellFormed.notMem_evaluate valid values

theorem Entry.WellFormed.extend {entry : Entry} (h : entry.WellFormed) {env : Environment}
    (values : env.WellFormed) : (entry.extend env).WellFormed := by
  cases entry with
  | global name value => exact values.define h.1 h.2.2
  | rule | build | default => exact values

theorem Declaration.wellFormed_evaluateAll {declarations : List Declaration}
    (h : ∀ declaration ∈ declarations, declaration.WellFormed) {env : Environment}
    (values : env.WellFormed) : ∀ entry ∈ evaluateAll env declarations, entry.WellFormed := by
  induction declarations generalizing env with
  | nil => simp [evaluateAll]
  | cons declaration rest ih =>
      obtain ⟨first, others⟩ := List.forall_mem_cons.1 h
      have entry := first.evaluate values
      exact List.forall_mem_cons.2 ⟨entry, ih others (entry.extend values)⟩

theorem Manifest.wellFormed_ofEntries {entries : List Entry}
    (h : ∀ entry ∈ entries, entry.WellFormed) : (ofEntries entries).WellFormed := by
  refine ⟨?_, ?_, ?_, ?_, ?_⟩
  all_goals
    intro item member
    obtain ⟨entry, within, same⟩ := List.mem_filterMap.1 member
    have valid := h entry within
    cases entry <;> cases same
  · exact ⟨valid.1, valid.2.2⟩
  · exact valid.2.1
  · exact valid
  · exact valid
  · exact valid

section Written

theorem Part.wellFormed_of_isReadable {context : Template.Context} {part : Part}
    (h : PartIsReadable context part) : part.WellFormed := by
  cases part with
  | literal text =>
      refine ⟨h.1, fun member => ?_⟩
      have broken := h.2 Byte.newline member
      cases context <;> exact absurd broken (by decide)
  | reference name => exact h

theorem Template.wellFormed_of_spelling {context : Context} {spelling : Written.Spelling}
    {next : Option UInt8} (valid : spelling.WellFormed context next) :
    Template.WellFormed spelling.template :=
  fun part member =>
    Part.wellFormed_of_isReadable (Written.Spelling.isReadable_template valid part member)

theorem Binding.wellFormed_of_assignment {defined : Written.Assignment}
    (valid : defined.WellFormed) : defined.binding.WellFormed :=
  ⟨valid.1, Template.wellFormed_of_spelling (Written.wellFormed_trim valid.2)⟩

theorem Template.wellFormed_of_pathList {list : Written.PathList} {next : Option UInt8}
    (valid : list.WellFormed next) : ∀ path ∈ list.templates, Template.WellFormed path := by
  induction list with
  | tail gap folds => simp [Written.PathList.templates]
  | path gap spelling more ih =>
      obtain ⟨-, spelled, -, others⟩ := valid
      exact List.forall_mem_cons.2 ⟨Template.wellFormed_of_spelling spelled, ih others⟩

theorem Template.wellFormed_of_marked {list : Option Written.PathList} {next : Option UInt8}
    (valid : ∀ paths ∈ list, paths.WellFormed next) :
    ∀ path ∈ Written.markedTemplates list, Template.WellFormed path := by
  cases list with
  | none => simp [Written.markedTemplates]
  | some paths => exact Template.wellFormed_of_pathList (valid paths rfl)

theorem Statement.wellFormed_content {statement : Written.Statement}
    (valid : statement.WellFormed) : statement.content.WellFormed := by
  cases statement with
  | assignment defined => exact ⟨Binding.wellFormed_of_assignment valid.1, valid.2⟩
  | rule gap name after => exact valid
  | default gap path after => exact Template.wellFormed_of_spelling valid.2.2
  | build line =>
      obtain ⟨-, line⟩ := valid
      refine ⟨line.rule, ?_⟩
      simp only [BuildLine.paths, Written.BuildLine.content, List.forall_mem_append]
      exact ⟨Template.wellFormed_of_pathList line.outputs,
        ⟨Template.wellFormed_of_pathList line.inputs,
          Template.wellFormed_of_marked fun paths here => (line.implicit paths here).2⟩,
        Template.wellFormed_of_marked line.orderOnly⟩

theorem Declaration.wellFormed_of_element {element : Written.Element} (valid : element.WellFormed)
    {declaration : Declaration} (declared : element.declaration? = some declaration) :
    declaration.WellFormed := by
  cases element with
  | blank | comment => cases declared
  | declaration statement block =>
      cases declared
      refine ⟨Statement.wellFormed_content valid.1, fun binding member => ?_⟩
      obtain ⟨line, within, same⟩ := List.mem_filterMap.1 member
      have here := valid.2.1 line within
      cases line with
      | blank | comment => cases same
      | binding indent defined =>
          cases same
          exact Binding.wellFormed_of_assignment here

end Written

namespace Manifest

/-- Everything that an accepted text gives is well formed. -/
theorem wellFormed_of_parse {text : Bytes} {manifest : Manifest}
    (accepted : parse text = .ok manifest) : manifest.WellFormed := by
  obtain ⟨file, valid, -, rfl⟩ := extend_eq_ok_iff.1 accepted
  rw [nil_append]
  refine wellFormed_ofEntries (Declaration.wellFormed_evaluateAll (fun declaration member => ?_) ?_)
  · obtain ⟨element, within, declared⟩ := List.mem_filterMap.1 member
    exact Declaration.wellFormed_of_element (valid element within) declared
  · exact fun entry member => nomatch member

end Manifest

end BuildFile
