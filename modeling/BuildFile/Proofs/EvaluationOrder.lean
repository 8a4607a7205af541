import BuildFile.Parser
import BuildFile.Proofs.Concatenation
import BuildFile.Proofs.CursorMoves
import BuildFile.Proofs.ParsedContent
import Mathlib.Data.List.Induction

/-! # In which order a file is evaluated

The statements that a parser returns one by one are all that counts of a file: a manifest is built
by adding what they say, each on its own, to what those before it have said. Values and paths are
evaluated in the variables defined above them, and blocks not at all. As definitions are only ever
put behind others, and the first of a name is the one in effect, nothing that has been evaluated
would come out differently further down.
-/

namespace BuildFile

/-- Asked for statements until there are no more, and for the block behind each rule and build,
    the parser returns these declarations without an error. -/
inductive Parser.Declares : Parser → List Declaration → Prop where
  | ended {parser after : Parser} (finished : parser.nextStatement = (.ok none, after)) :
      Declares parser []
  | single {parser after : Parser} {statement : Statement} {more : List Declaration}
      (next : parser.nextStatement = (.ok (some statement), after))
      (closed : statement.opensBlock = false) (further : Declares after more) :
      Declares parser (⟨statement, []⟩ :: more)
  | withBlock {parser inside after : Parser} {statement : Statement} {block : List Binding}
      {more : List Declaration} (next : parser.nextStatement = (.ok (some statement), inside))
      (opens : statement.opensBlock = true) (bindings : inside.bindings = (.ok block, after))
      (further : Declares after more) :
      Declares parser (⟨statement, block⟩ :: more)

namespace Parser

variable {α : Type} {scan : Scan α} {parser after : Parser} {value : α} {rest : Bytes}

theorem step_of_done (h : scan parser.cursor.rest = .done value rest) :
    parser.step scan = (.ok value, ⟨parser.cursor.moveTo rest⟩) := by
  rw [step, h]

/-- A step leaves the parser in front of what the scan has left. -/
theorem rest_step (forward : scan.Forward) (parser : Parser) :
    (parser.step scan).2.cursor.rest = (scan parser.cursor.rest).rest := by
  have passed := forward parser.cursor.rest
  unfold step
  cases found : scan parser.cursor.rest with
  | done value rest | failed expected rest =>
      rw [found] at passed
      exact Cursor.rest_moveTo_of_suffix passed

theorem done_of_step (forward : scan.Forward) (h : parser.step scan = (.ok value, after)) :
    scan parser.cursor.rest = .done value after.cursor.rest := by
  have left := rest_step forward parser
  rw [h] at left
  unfold step at h
  split at h
  · next found =>
    cases h
    rw [left, found]
    rfl
  · cases h

end Parser

theorem Declaration.readNext_none {input rest : Bytes}
    (h : Statement.readNext input = .done none rest) : readNext input = .done none rest :=
  Scan.bind_of_done h _

theorem Declaration.readNext_some {input middle rest : Bytes} {statement : Statement}
    {block : List Binding} (next : Statement.readNext input = .done (some statement) middle)
    (bindings : statement.readBlock middle = .done block rest) :
    readNext input = .done (some ⟨statement, block⟩) rest := by
  refine (Scan.bind_of_done next _).trans ?_
  apply Written.map_eq_done_iff.2
  exact ⟨_, Scan.bind_of_done bindings _, rfl⟩

theorem Parser.Declares.read_eq {parser : Parser} {declarations : List Declaration}
    (h : parser.Declares declarations) : Document.read parser.cursor.rest = { declarations } := by
  induction h with
  | ended finished =>
      have none := done_of_step Statement.forward_readNext finished
      exact Written.readDocument_none (Declaration.readNext_none none)
  | single next closed further ih =>
      have read := done_of_step Statement.forward_readNext next
      have empty := Written.readBlock_of_not_opensBlock closed
      rw [Written.readDocument_some (Declaration.readNext_some read (congrFun empty _)), ih]
  | withBlock next opens bindings further ih =>
      have read := done_of_step Statement.forward_readNext next
      have inner := done_of_step Binding.forward_readBlock bindings
      rw [← Written.readBlock_of_opensBlock opens] at inner
      rw [Written.readDocument_some (Declaration.readNext_some read inner), ih]

theorem Parser.declares_cons {parser : Parser} {declaration : Declaration}
    {more : List Declaration} {rest : Bytes}
    (h : Declaration.readNext parser.cursor.rest = .done (some declaration) rest)
    (further : Declares ⟨parser.cursor.moveTo rest⟩ more) :
    parser.Declares (declaration :: more) := by
  obtain ⟨found, middle, next, h⟩ := Scan.bind_eq_done_iff.1 h
  cases found with
  | none => cases h
  | some statement =>
      obtain ⟨_, hof, same⟩ := Written.map_eq_done_iff.1 h
      obtain ⟨block, left, bindings, done⟩ := Scan.bind_eq_done_iff.1 hof
      cases done
      cases same
      cases opens : statement.opensBlock with
      | false =>
          rw [Written.readBlock_of_not_opensBlock opens] at bindings
          cases bindings
          exact .single (step_of_done next) opens further
      | true =>
          have passed := Statement.forward_readNext parser.cursor.rest
          rw [next, Scan.Result.rest_done] at passed
          rw [Written.readBlock_of_opensBlock opens, ← Cursor.rest_moveTo_of_suffix passed]
            at bindings
          exact .withBlock (step_of_done next) opens (step_of_done bindings) further

theorem Parser.declares_of_read {parser : Parser} {declarations : List Declaration}
    (h : Document.read parser.cursor.rest = { declarations }) : parser.Declares declarations := by
  generalize left : parser.cursor.rest = input at h
  induction input using Document.read.induct generalizing parser declarations with
  | case1 input expected rest hread =>
      rw [Written.readDocument_failed hread] at h
      cases h
  | case2 input rest hread =>
      rw [Written.readDocument_none hread] at h
      cases h
      subst left
      obtain ⟨found, middle, next, hread⟩ := Scan.bind_eq_done_iff.1 hread
      cases found with
      | none => exact .ended (step_of_done next)
      | some statement =>
          obtain ⟨_, -, same⟩ := Written.map_eq_done_iff.1 hread
          cases same
  | case3 input declaration rest hread ih =>
      rw [Written.readDocument_some hread] at h
      subst left
      have passed := Declaration.forward_readNext parser.cursor.rest
      rw [hread, Scan.Result.rest_done] at passed
      obtain ⟨rfl, finished⟩ := Document.mk.inj h
      apply declares_cons hread
      apply ih (Cursor.rest_moveTo_of_suffix passed)
      rw [← finished]

/-- A parser returns declarations up to the end exactly if they are what the rest consists of. -/
theorem Parser.declares_iff {parser : Parser} {declarations : List Declaration} :
    parser.Declares declarations ↔ Document.read parser.cursor.rest = { declarations } :=
  ⟨Declares.read_eq, declares_of_read⟩

/-- The kinds of statements, and of what they add to a manifest. -/
inductive Statement.Kind where
  | assignment
  | rule
  | build
  | default
  deriving Repr, DecidableEq

namespace Statement

def kind : Statement → Kind
  | .assignment _ => .assignment
  | .rule _ => .rule
  | .build _ => .build
  | .default _ => .default

/-- The templates that are evaluated where the statement stands. -/
def eagerTemplates : Statement → List Template
  | .assignment binding => [binding.template]
  | .rule _ => []
  | .build line => line.paths
  | .default path => [path]

end Statement

namespace Declaration

/-- How many of the declarations are of a kind. -/
def numberOf (kind : Statement.Kind) (declarations : List Declaration) : Nat :=
  declarations.countP (·.statement.kind = kind)

/-- The definition of a global variable, if the declaration is one. -/
def definition? (declaration : Declaration) : Option Binding :=
  match declaration.statement with
  | .assignment binding => some binding
  | .rule _ | .build _ | .default _ => none

/-- The definitions of global variables, without the blocks. -/
def definitions (declarations : List Declaration) : List Binding :=
  declarations.filterMap (·.definition?)

end Declaration

namespace Environment

/-- Add a variable with the value that its template has in the variables so far. -/
def assign (env : Environment) (binding : Binding) : Environment :=
  env.define binding.name (binding.template.evaluate env)

/-- Each definition is evaluated in those before it. -/
def ofDefinitions (definitions : List Binding) : Environment :=
  definitions.foldl assign []

end Environment

namespace Manifest

def numberOf (manifest : Manifest) : Statement.Kind → Nat
  | .assignment => manifest.globals.length
  | .rule => manifest.rules.length
  | .build => manifest.builds.length
  | .default => manifest.defaults.length

/-- The manifest holds what a declaration says, behind what the declarations of the same kind before
    it say. Values and paths are evaluated in the variables before it; a block is kept as read. -/
def Records (manifest : Manifest) (before : List Declaration) (declaration : Declaration) : Prop :=
  let index := Declaration.numberOf declaration.statement.kind before
  let env := Environment.ofDefinitions (Declaration.definitions before)
  match declaration.statement with
  | .assignment binding =>
      manifest.globals[index]? = some (binding.name, binding.template.evaluate env)
  | .rule name => manifest.rules[index]? = some { name, bindings := declaration.block }
  | .build line =>
      manifest.builds[index]? = some {
        rule := line.rule
        outputs := line.outputs.map (·.evaluate env)
        explicitInputs := line.explicitInputs.map (·.evaluate env)
        implicitInputs := line.implicitInputs.map (·.evaluate env)
        orderOnlyInputs := line.orderOnlyInputs.map (·.evaluate env)
        bindings := declaration.block }
  | .default path => manifest.defaults[index]? = some (path.evaluate env)

variable {manifest : Manifest} {before after : List Declaration} {declaration : Declaration}

/-- One step of the fold is the evaluation of one declaration. -/
theorem declare_eq (manifest : Manifest) (declaration : Declaration) :
    manifest.declare declaration =
      manifest.append (ofEntries [declaration.evaluate manifest.globals]) := by
  obtain ⟨statement, block⟩ := declaration
  cases statement <;> simp [declare, Declaration.evaluate, ofEntries, append, Entry.global?,
    Entry.rule?, Entry.build?, Entry.default?, Environment.define]

theorem globals_declare_eq (manifest : Manifest) (declaration : Declaration) :
    (manifest.declare declaration).globals =
      (declaration.evaluate manifest.globals).extend manifest.globals := by
  obtain ⟨statement, block⟩ := declaration
  cases statement <;> rfl

theorem foldl_declare (manifest : Manifest) (declarations : List Declaration) :
    declarations.foldl declare manifest =
      manifest.append (ofEntries (Declaration.evaluateAll manifest.globals declarations)) := by
  induction declarations generalizing manifest with
  | nil => simp [Declaration.evaluateAll, ofEntries, append]
  | cons declaration rest ih =>
      rw [List.foldl_cons, ih, globals_declare_eq, declare_eq, append_assoc, ← ofEntries_append]
      rfl

/-- A text is accepted exactly if a parser returns declarations up to its end, and the manifest is
    what they say one after another. -/
theorem parse_eq_ok_iff {text : Bytes} : parse text = .ok manifest ↔
    ∃ declarations, (Parser.start text).Declares declarations ∧
      declarations.foldl declare {} = manifest := by
  have whole : (Parser.start text).cursor.rest = text := rfl
  simp only [Parser.declares_iff, whole, foldl_declare, nil_append]
  constructor
  · intro accepted
    obtain ⟨file, valid, rfl, rfl⟩ := extend_eq_ok_iff.1 accepted
    exact ⟨file.declarations, readDocument_file valid, rfl⟩
  · rintro ⟨declarations, read, rfl⟩
    have finished : (Document.read text).failure = none := by rw [read]
    rw [parse, extend_of_read finished, read, nil_append]

theorem numberOf_declare (kind : Statement.Kind) :
    (manifest.declare declaration).numberOf kind =
      manifest.numberOf kind + Declaration.numberOf kind [declaration] := by
  obtain ⟨statement, block⟩ := declaration
  cases statement <;> cases kind <;>
    simp [declare, numberOf, Declaration.numberOf, Statement.kind, Environment.define]

/-- Each declaration adds one entry of its kind. -/
theorem numberOf_foldl (kind : Statement.Kind) (declarations : List Declaration) :
    (declarations.foldl declare manifest).numberOf kind =
      manifest.numberOf kind + Declaration.numberOf kind declarations := by
  induction declarations generalizing manifest with
  | nil => rfl
  | cons declaration rest ih =>
      rw [List.foldl_cons, ih, numberOf_declare]
      simp only [Declaration.numberOf, List.countP_cons, List.countP_nil]
      omega

/-- The variables of a manifest are those of the declarations; no block has a part in them. -/
theorem globals_foldl (declarations : List Declaration) :
    (declarations.foldl declare manifest).globals =
      (Declaration.definitions declarations).foldl Environment.assign manifest.globals := by
  induction declarations generalizing manifest with
  | nil => rfl
  | cons declaration rest ih =>
      rw [List.foldl_cons, ih]
      obtain ⟨statement, block⟩ := declaration
      cases statement <;> rfl

/-- An entry stays where it was put, as all later ones are put behind it. -/
theorem records_foldl (before : List Declaration) (declaration : Declaration)
    (after : List Declaration) :
    ((before ++ declaration :: after).foldl declare {}).Records before declaration := by
  have globals : (before.foldl declare {}).globals =
      .ofDefinitions (Declaration.definitions before) := globals_foldl before
  have numbers (kind : Statement.Kind) : (before.foldl declare {}).numberOf kind =
      Declaration.numberOf kind before := by
    rw [numberOf_foldl]
    cases kind <;> exact Nat.zero_add _
  rw [List.foldl_append, List.foldl_cons, foldl_declare]
  generalize ofEntries _ = more
  generalize before.foldl declare {} = manifest at globals numbers
  obtain ⟨statement, block⟩ := declaration
  unfold Records
  cases statement with
  | assignment binding =>
      rw [← globals, Statement.kind, ← numbers]
      simp [declare, append, numberOf, Environment.define]
  | rule name =>
      rw [Statement.kind, ← numbers]
      simp [declare, append, numberOf]
  | build line =>
      rw [← globals, Statement.kind, ← numbers]
      simp [declare, append, numberOf, BuildLine.evaluate, Template.evaluateAll]
  | default path =>
      rw [← globals, Statement.kind, ← numbers]
      simp [declare, append, numberOf]

end Manifest

namespace Environment

theorem map_name_ofDefinitions (definitions : List Binding) :
    (ofDefinitions definitions).map (·.1) = definitions.map (·.name) := by
  induction definitions using List.reverseRecOn with
  | nil => rfl
  | append_singleton definitions binding ih =>
      rw [ofDefinitions, List.foldl_concat, ← ofDefinitions, assign, define, List.map_append, ih,
        List.map_append]
      rfl

/-- Definitions behind others do not change the value of a name that these define. -/
theorem value_append_of_mem {env : Environment} {name : Name} (defined : name ∈ env.map (·.1))
    (more : Environment) : value (env ++ more) name = env.value name := by
  have known : (env.value? name).isSome := by
    obtain ⟨entry, within, rfl⟩ := List.mem_map.1 defined
    rw [value?, Option.isSome_map, List.find?_isSome]
    exact ⟨entry, within, beq_self_eq_true _⟩
  obtain ⟨bound, found⟩ := Option.isSome_iff_exists.1 known
  rw [value, value, value?_append, found, Option.some_or]

end Environment

/-- A template has the same value wherever the variables it refers to have the same values. -/
theorem Template.evaluate_congr {template : Template} {first second : Environment}
    (same : ∀ name ∈ template.references, first.value name = second.value name) :
    template.evaluate first = template.evaluate second := by
  apply List.flatMap_congr
  intro part member
  cases part with
  | literal text => rfl
  | reference name => exact same name (List.mem_filterMap.2 ⟨_, member, rfl⟩)

namespace Manifest

/-- The variables of a file begin with those of the front of it. -/
theorem exists_globals_foldl_append (front back : List Declaration) :
    ∃ more, ((front ++ back).foldl declare {}).globals =
      Environment.ofDefinitions (Declaration.definitions front) ++ more := by
  rw [List.foldl_append, foldl_declare]
  refine ⟨_, congrArg (· ++ _) ?_⟩
  exact globals_foldl front

/-- The manifest of an accepted text is the fold of the declarations that a parser returns, with
    one entry for each of them. What is evaluated is evaluated in the variables above, and if these
    define all that it refers to, the variables of the whole file give it the same value. -/
theorem parse_evaluates_in_order {text : Bytes} {manifest : Manifest}
    (accepted : parse text = .ok manifest) :
    ∃ declarations, (Parser.start text).Declares declarations ∧
      (∀ others, (Parser.start text).Declares others → others = declarations) ∧
      manifest = declarations.foldl declare {} ∧
      (∀ kind, manifest.numberOf kind = Declaration.numberOf kind declarations) ∧
      ∀ before declaration after, declarations = before ++ declaration :: after →
        manifest.Records before declaration ∧
        ∀ template ∈ declaration.statement.eagerTemplates,
          (∀ name ∈ template.references,
            ∃ binding ∈ Declaration.definitions before, binding.name = name) →
          template.evaluate manifest.globals =
            template.evaluate (.ofDefinitions (Declaration.definitions before)) := by
  obtain ⟨declarations, declares, rfl⟩ := parse_eq_ok_iff.1 accepted
  refine ⟨declarations, declares, ?_, rfl, ?_, ?_⟩
  · intro others same
    rw [Parser.declares_iff] at declares same
    rw [declares] at same
    exact (Document.mk.inj same).1.symm
  · intro kind
    rw [numberOf_foldl]
    cases kind <;> exact Nat.zero_add _
  · rintro before declaration after rfl
    refine ⟨records_foldl before declaration after, fun template _ defined => ?_⟩
    obtain ⟨more, globals⟩ := exists_globals_foldl_append before (declaration :: after)
    rw [globals]
    apply Template.evaluate_congr
    intro name member
    apply Environment.value_append_of_mem
    rw [Environment.map_name_ofDefinitions]
    exact List.mem_map.2 (defined name member)

/-- A variable is redefined by itself and by one that is defined below it. -/
def redefining : Bytes :=
  ascii "a = 1\na = $a$b\nrule r\n  a = $a\nb = 2\nbuild ${a}o: r $b\n  b = 3\ndefault $a$b\n"

def redefined : Manifest where
  globals := [(ascii "a", ascii "1"), (ascii "a", ascii "1"), (ascii "b", ascii "2")]
  rules := [⟨ascii "r", [⟨ascii "a", [.reference (ascii "a")]⟩]⟩]
  builds := [⟨ascii "r", [ascii "1o"], [ascii "2"], [], [],
    [⟨ascii "b", [.literal (ascii "3")]⟩]⟩]
  defaults := [ascii "12"]

theorem parse_evaluates_in_order_redefined : parse redefining = .ok redefined ∧
    ∃ declarations, (Parser.start redefining).Declares declarations ∧
      redefined = declarations.foldl declare {} ∧
      Declaration.numberOf .assignment declarations = 3 ∧
      Declaration.numberOf .build declarations = 1 := by
  have accepted : parse redefining = .ok redefined := by decide +kernel
  obtain ⟨declarations, declares, -, fold, numbers, -⟩ := parse_evaluates_in_order accepted
  exact ⟨accepted, declarations, declares, fold, (numbers .assignment).symm, (numbers .build).symm⟩

end Manifest

end BuildFile
