import BuildFile.Proofs.Written.Paths
import BuildFile.Statement.Reader

/-! # How a statement is written

One line each for the four kinds of statements, without the block that may follow. A
keyword, like every name, goes on for as long as there are bytes of names, so the byte
behind it is none.
-/

namespace BuildFile.Written

open Scan

/-- A spelling without the spaces it starts with. -/
def Spelling.trim : Spelling → Spelling
  | .raw b :: rest => if Byte.isSpace b then trim rest else .raw b :: rest
  | spelling => spelling

/-- The definition of a variable. Spaces behind the `=` do not belong to the value. -/
structure Assignment where
  name : Name
  before : Nat
  after : Nat
  value : Spelling
  deriving Repr, DecidableEq

namespace Assignment

def text (assignment : Assignment) : Bytes :=
  assignment.name ++ (spaces assignment.before ++ Byte.equals ::
    (spaces assignment.after ++ (assignment.value.text ++ [Byte.newline])))

def WellFormed (assignment : Assignment) : Prop :=
  IsName assignment.name ∧ assignment.value.WellFormed .value (some Byte.newline)

def binding (assignment : Assignment) : Binding :=
  ⟨assignment.name, assignment.value.trim.template⟩

end Assignment

theorem wellFormed_trim {spelling : Spelling} {next : Option UInt8}
    (valid : spelling.WellFormed .value next) : spelling.trim.WellFormed .value next := by
  fun_induction Spelling.trim spelling with
  | case1 b rest space ih => exact ih valid.2.2
  | case2 | case3 => exact valid

theorem dropWhile_text (spelling : Spelling) (rest : Bytes) :
    (spelling.text ++ Byte.newline :: rest).dropWhile Byte.isSpace =
      spelling.trim.text ++ Byte.newline :: rest := by
  have newline : Byte.isSpace Byte.newline = false := rfl
  have dollar : Byte.isSpace Byte.dollar = false := rfl
  fun_induction Spelling.trim spelling with
  | case1 b more space ih => simpa [Token.text, space] using ih
  | case2 b more space => simp [Token.text, space]
  | case3 spelling other =>
      cases spelling with
      | nil => simp [newline]
      | cons token more =>
          cases token with
          | raw b => exact absurd rfl (other b more)
          | escape | braced | bare | fold => simp [Token.text, dollar]

theorem trim_of_stops {spelling : Spelling} {after : Bytes}
    (stops : Stops Byte.isSpace (spelling.text ++ after).head?) : spelling.trim = spelling := by
  fun_cases Spelling.trim spelling with
  | case1 b rest space => simp [Token.text, space] at stops
  | case2 | case3 => rfl

theorem readValue_eq_done_iff {name : Name} {input rest : Bytes} {binding : Binding} :
    Binding.readValue name input = .done binding rest ↔
      ∃ (after : Nat) (value : Spelling),
        input = Byte.equals :: (spaces after ++ (value.text ++ Byte.newline :: rest)) ∧
          value.WellFormed .value (some Byte.newline) ∧ binding = ⟨name, value.trim.template⟩ := by
  simp only [Binding.readValue, bind_eq_done_iff, bind_reader_eq_done_iff, byte_eq_done_iff,
    spaces_eq_done_iff, read_eq_done_iff, endOfLine_eq_done_iff, pure_apply, Result.done.injEq]
  constructor
  · intro h
    obtain ⟨_, _, rfl, _, _, ⟨after, rfl, stops⟩, _, _, ⟨value, rfl, valid, -, rfl⟩, _, _, rfl,
      rfl, rfl⟩ := h
    exact ⟨after, value, rfl, valid, by rw [trim_of_stops stops]⟩
  · intro h
    obtain ⟨after, value, rfl, valid, rfl⟩ := h
    obtain ⟨extra, same⟩ := exists_spaces (value.text ++ Byte.newline :: rest)
    have stops := stops_dropWhile Byte.isSpace (value.text ++ Byte.newline :: rest)
    rw [dropWhile_text] at same stops
    refine ⟨(), _, rfl, (), _, ⟨after + extra, ?_, stops⟩, _, _,
      ⟨value.trim, rfl, wellFormed_trim valid, rfl, rfl⟩, (), _, rfl, rfl, rfl⟩
    rw [same, ← List.append_assoc, spaces, spaces, spaces, List.replicate_append_replicate]

theorem stops_isIdentifier_spaces (n : Nat) {b : UInt8} (rest : Bytes)
    (other : Byte.isIdentifier b = false) :
    Stops Byte.isIdentifier (spaces n ++ b :: rest).head? := by
  cases n with
  | zero => simpa using other
  | succ n => simp [spaces_succ]; decide

theorem readBinding_eq_done_iff {input rest : Bytes} {binding : Binding} :
    Binding.read input = .done binding rest ↔
      ∃ assignment : Assignment, input = assignment.text ++ rest ∧ assignment.WellFormed ∧
        assignment.binding = binding := by
  simp only [Binding.read, bind_eq_done_iff, identifier_eq_done_iff, spaces_eq_done_iff,
    readValue_eq_done_iff]
  constructor
  · intro h
    obtain ⟨name, _, ⟨rfl, valid, -⟩, _, _, ⟨before, rfl, -⟩, after, value, rfl, wellFormed,
      rfl⟩ := h
    exact ⟨⟨name, before, after, value⟩, by simp [Assignment.text], ⟨valid, wellFormed⟩, rfl⟩
  · intro h
    obtain ⟨⟨name, before, after, value⟩, rfl, ⟨valid, wellFormed⟩, rfl⟩ := h
    have stops := stops_isIdentifier_spaces before (b := Byte.equals)
      (spaces after ++ (value.text ++ Byte.newline :: rest)) rfl
    exact ⟨name, _, ⟨by simp [Assignment.text], valid, stops⟩, (), _,
      ⟨before, rfl, by simp; decide⟩, after, value, rfl, wellFormed, rfl⟩

/-- A list of paths that may be missing, behind the mark that starts it. -/
def marked (mark : Bytes) : Option PathList → Bytes
  | none => []
  | some list => mark ++ list.text

/-- The paths behind a mark, which are none if it is missing. -/
def markedTemplates (list : Option PathList) : List Template :=
  (list.map PathList.templates).getD []

def singlePipe : Bytes := [Byte.pipe]

def doublePipe : Bytes := [Byte.pipe, Byte.pipe]

/-- What follows the keyword of a build line. -/
structure BuildLine where
  outputs : PathList
  gap : Nat
  rule : Name
  inputs : PathList
  implicit : Option PathList
  orderOnly : Option PathList
  deriving Repr, DecidableEq

namespace BuildLine

def orderOnlyText (line : BuildLine) : Bytes := marked doublePipe line.orderOnly ++ [Byte.newline]

def implicitText (line : BuildLine) : Bytes := marked singlePipe line.implicit ++ line.orderOnlyText

def text (line : BuildLine) : Bytes :=
  line.outputs.text ++ Byte.colon ::
    (spaces line.gap ++ (line.rule ++ (line.inputs.text ++ line.implicitText)))

/-- Each list is well formed in front of what follows it, and a single `|` is not the first
    half of another mark. -/
structure WellFormed (line : BuildLine) : Prop where
  outputs : line.outputs.WellFormed (some Byte.colon)
  rule : IsName line.rule
  rule_stops : Stops Byte.isIdentifier (line.inputs.text ++ line.implicitText).head?
  inputs : line.inputs.WellFormed line.implicitText.head?
  implicit : ∀ list ∈ line.implicit,
    Stops (· == Byte.pipe) (list.text ++ line.orderOnlyText).head? ∧
      list.WellFormed line.orderOnlyText.head?
  orderOnly : ∀ list ∈ line.orderOnly, list.WellFormed (some Byte.newline)

/-- What the line says. -/
def content (line : BuildLine) : BuildFile.BuildLine where
  rule := line.rule
  outputs := line.outputs.templates
  explicitInputs := line.inputs.templates
  implicitInputs := markedTemplates line.implicit
  orderOnlyInputs := markedTemplates line.orderOnly

end BuildLine

theorem orderOnlyText_ne_nil (line : BuildLine) : line.orderOnlyText ≠ [] := by
  simp [BuildLine.orderOnlyText]

theorem implicitText_ne_nil (line : BuildLine) : line.implicitText ≠ [] := by
  simp [BuildLine.implicitText, orderOnlyText_ne_nil]

theorem delimits_orderOnlyText (line : BuildLine) : Delimits line.orderOnlyText.head? := by
  rw [delimits_iff]
  cases h : line.orderOnly <;> simp [BuildLine.orderOnlyText, h, marked, doublePipe]

theorem delimits_implicitText (line : BuildLine) : Delimits line.implicitText.head? := by
  cases h : line.implicit with
  | none => simpa [BuildLine.implicitText, h, marked] using delimits_orderOnlyText line
  | some list => simp [BuildLine.implicitText, h, marked, singlePipe, delimits_iff]

theorem stops_pipe_iff {next : Option UInt8} :
    Stops (· == Byte.pipe) next ↔ next ≠ some Byte.pipe := by
  cases next <;> simp

theorem readImplicitInputs_single {after : Bytes} (single : Stops (· == Byte.pipe) after.head?) :
    BuildFile.BuildLine.readImplicitInputs (Byte.pipe :: after) = Template.readPaths after := by
  rw [BuildFile.BuildLine.readImplicitInputs, if_pos ⟨rfl, stops_pipe_iff.1 single⟩]

theorem readImplicitInputs_none {input : Bytes}
    (h : ∀ after, input = Byte.pipe :: after → after.head? = some Byte.pipe) :
    BuildFile.BuildLine.readImplicitInputs input = .done [] input := by
  cases input with
  | nil => rfl
  | cons b tail =>
      rw [BuildFile.BuildLine.readImplicitInputs, if_neg]
      rintro ⟨rfl, single⟩
      exact single (h tail rfl)

theorem readOrderOnlyInputs_double (after : Bytes) :
    BuildFile.BuildLine.readOrderOnlyInputs (Byte.pipe :: Byte.pipe :: after) =
      Template.readPaths after := by
  have pipe : byte Byte.pipe .buildInputs (Byte.pipe :: after) = .done () after :=
    byte_eq_done_iff.2 rfl
  rw [BuildFile.BuildLine.readOrderOnlyInputs, if_pos rfl]
  exact bind_of_done pipe _

theorem readOrderOnlyInputs_none {input : Bytes} (h : Stops (· == Byte.pipe) input.head?) :
    BuildFile.BuildLine.readOrderOnlyInputs input = .done [] input := by
  cases input with
  | nil => rfl
  | cons b tail =>
      rw [BuildFile.BuildLine.readOrderOnlyInputs, if_neg]
      simpa using h

theorem marked_of_readImplicitInputs {input rest : Bytes} {templates : List Template}
    (h : BuildFile.BuildLine.readImplicitInputs input = .done templates rest) :
    ∃ implicit : Option PathList, input = marked singlePipe implicit ++ rest ∧
      markedTemplates implicit = templates ∧
      ∀ list ∈ implicit, Stops (· == Byte.pipe) (list.text ++ rest).head? ∧
        list.WellFormed rest.head? := by
  by_cases single : ∃ after, input = Byte.pipe :: after ∧ Stops (· == Byte.pipe) after.head?
  · obtain ⟨after, rfl, stops⟩ := single
    rw [readImplicitInputs_single stops] at h
    obtain ⟨list, rfl, valid, -, rfl⟩ := readPaths_eq_done_iff.1 h
    exact ⟨some list, rfl, rfl, by simpa using ⟨by simpa using stops, valid⟩⟩
  · simp only [stops_pipe_iff, not_exists, not_and, not_not] at single
    rw [readImplicitInputs_none single] at h
    cases h
    exact ⟨none, rfl, rfl, by simp⟩

theorem marked_of_readOrderOnlyInputs {input rest : Bytes} {templates : List Template}
    (h : BuildFile.BuildLine.readOrderOnlyInputs input = .done templates rest) :
    ∃ orderOnly : Option PathList, input = marked doublePipe orderOnly ++ rest ∧
      markedTemplates orderOnly = templates ∧ ∀ list ∈ orderOnly, list.WellFormed rest.head? := by
  cases input with
  | nil =>
      cases h
      exact ⟨none, rfl, rfl, by simp⟩
  | cons b tail =>
      by_cases pipe : b = Byte.pipe
      · subst pipe
        rw [BuildFile.BuildLine.readOrderOnlyInputs, if_pos rfl] at h
        obtain ⟨_, after, hpipe, hpaths⟩ := bind_eq_done_iff.1 h
        obtain rfl := byte_eq_done_iff.1 hpipe
        obtain ⟨list, rfl, valid, -, rfl⟩ := readPaths_eq_done_iff.1 hpaths
        exact ⟨some list, rfl, rfl, by simpa using valid⟩
      · rw [readOrderOnlyInputs_none (by simpa using pipe)] at h
        cases h
        exact ⟨none, rfl, rfl, by simp⟩

/-- Behind a text that is not empty nothing can be seen from in front of it. -/
theorem head?_append_append {text : Bytes} (h : text ≠ []) (front rest : Bytes) :
    (front ++ (text ++ rest)).head? = (front ++ text).head? := by
  cases front with
  | nil =>
      cases text with
      | nil => exact absurd rfl h
      | cons b tail => rfl
  | cons b tail => rfl

theorem head?_append_of_ne_nil {text : Bytes} (h : text ≠ []) (rest : Bytes) :
    (text ++ rest).head? = text.head? :=
  head?_append_append h [] rest

theorem IsName.stops_isSpace {name : Name} (h : IsName name) (after : Bytes) :
    Stops Byte.isSpace (name ++ after).head? := by
  cases name with
  | nil => exact absurd rfl h.1
  | cons b tail =>
      have first := h.2 b (by simp)
      simp only [List.cons_append, List.head?_cons, stops_some, Byte.isSpace, beq_eq_false_iff_ne]
      rintro rfl
      exact absurd first (by decide)

theorem orderOnlyText_append (line : BuildLine) (rest : Bytes) :
    line.orderOnlyText ++ rest = marked doublePipe line.orderOnly ++ Byte.newline :: rest := by
  simp [BuildLine.orderOnlyText]

theorem implicitText_append (line : BuildLine) (rest : Bytes) :
    line.implicitText ++ rest =
      marked singlePipe line.implicit ++ (line.orderOnlyText ++ rest) := by
  simp [BuildLine.implicitText]

theorem text_append (line : BuildLine) (rest : Bytes) :
    line.text ++ rest = line.outputs.text ++ Byte.colon ::
      (spaces line.gap ++ (line.rule ++ (line.inputs.text ++ (line.implicitText ++ rest)))) := by
  simp [BuildLine.text]

theorem readImplicitInputs_implicitText {line : BuildLine} (valid : line.WellFormed)
    (rest : Bytes) :
    BuildFile.BuildLine.readImplicitInputs (line.implicitText ++ rest) =
      .done (markedTemplates line.implicit) (line.orderOnlyText ++ rest) := by
  have next := head?_append_append (orderOnlyText_ne_nil line)
  rw [implicitText_append]
  cases same : line.implicit with
  | none =>
      refine readImplicitInputs_none fun after h => ?_
      rw [marked, List.nil_append, orderOnlyText_append] at h
      cases other : line.orderOnly with
      | none =>
          rw [other] at h
          exact absurd (List.head_eq_of_cons_eq h) (by decide)
      | some list =>
          simp only [other, marked, doublePipe, List.cons_append, List.cons.injEq, true_and] at h
          simp [← h]
  | some list =>
      obtain ⟨single, listed⟩ := valid.implicit list same
      have delimits := delimits_orderOnlyText line
      rw [← next list.text rest] at single
      rw [← head?_append_of_ne_nil (orderOnlyText_ne_nil line) rest] at listed delimits
      rw [marked, singlePipe, List.append_assoc, List.singleton_append,
        readImplicitInputs_single single]
      exact readPaths_text listed delimits

theorem readOrderOnlyInputs_orderOnlyText {line : BuildLine} (valid : line.WellFormed)
    (rest : Bytes) :
    BuildFile.BuildLine.readOrderOnlyInputs (line.orderOnlyText ++ rest) =
      .done (markedTemplates line.orderOnly) (Byte.newline :: rest) := by
  rw [orderOnlyText_append]
  cases same : line.orderOnly with
  | none => exact readOrderOnlyInputs_none (by simp [marked]; decide)
  | some list =>
      rw [marked, doublePipe, List.append_assoc, List.cons_append, List.singleton_append,
        readOrderOnlyInputs_double]
      exact readPaths_text (valid.orderOnly list same) (by simp [delimits_iff])

/-- A build line is read up to its newline, and nothing depends on what follows. -/
theorem readBuildLine_eq_done_iff {input rest : Bytes} {content : BuildFile.BuildLine} :
    BuildFile.BuildLine.read input = .done content rest ↔
      ∃ line : BuildLine, input = line.text ++ rest ∧ line.WellFormed ∧ line.content = content := by
  simp only [BuildFile.BuildLine.read, bind_eq_done_iff, bind_reader_eq_done_iff, byte_eq_done_iff,
    spaces_eq_done_iff, identifier_eq_done_iff, readPaths_eq_done_iff, endOfLine_eq_done_iff,
    pure_apply, Result.done.injEq]
  constructor
  · intro h
    obtain ⟨_, _, ⟨outputs, rfl, validOutputs, -, rfl⟩, _, _, rfl, _, _, ⟨gap, rfl, -⟩, rule, _,
      ⟨rfl, name, stops⟩, _, _, ⟨inputs, rfl, validInputs, -, rfl⟩, _, _, himplicit, _, _,
      horderOnly, _, rest, rfl, rfl, rfl⟩ := h
    obtain ⟨orderOnly, rfl, rfl, validOrderOnly⟩ := marked_of_readOrderOnlyInputs horderOnly
    obtain ⟨implicit, rfl, rfl, validImplicit⟩ := marked_of_readImplicitInputs himplicit
    let line : BuildLine := ⟨outputs, gap, rule, inputs, implicit, orderOnly⟩
    have orderOnlySame := orderOnlyText_append line rest
    have implicitSame := implicitText_append line rest
    rw [orderOnlySame] at implicitSame
    have orderOnlyNext (front : Bytes) := head?_append_append (orderOnlyText_ne_nil line) front rest
    have implicitNext (front : Bytes) := head?_append_append (implicitText_ne_nil line) front rest
    refine ⟨line, ?_, ?_, rfl⟩
    · rw [text_append, implicitSame]
    · exact {
        outputs := validOutputs
        rule := name
        rule_stops := by rwa [← implicitSame, implicitNext] at stops
        inputs := by
          rwa [← implicitSame, head?_append_of_ne_nil (implicitText_ne_nil line)] at validInputs
        implicit := by
          intro list member
          have both := validImplicit list member
          rw [← orderOnlySame, orderOnlyNext] at both
          rwa [head?_append_of_ne_nil (orderOnlyText_ne_nil line)] at both
        orderOnly := validOrderOnly }
  · intro h
    obtain ⟨line, rfl, valid, rfl⟩ := h
    have next (front : Bytes) := head?_append_append (implicitText_ne_nil line) front rest
    have ruleStops := valid.rule_stops
    have inputs := valid.inputs
    have delimits := delimits_implicitText line
    rw [← next] at ruleStops
    rw [← head?_append_of_ne_nil (implicitText_ne_nil line) rest] at inputs delimits
    exact ⟨_, _, ⟨line.outputs, text_append line rest, valid.outputs, by simp [delimits_iff], rfl⟩,
      (), _, rfl, (), _, ⟨line.gap, rfl, valid.rule.stops_isSpace _⟩, line.rule, _,
      ⟨rfl, valid.rule, ruleStops⟩, _, _, ⟨line.inputs, rfl, inputs, delimits, rfl⟩,
      _, _, readImplicitInputs_implicitText valid rest, _, _,
      readOrderOnlyInputs_orderOnlyText valid rest, (), rest, rfl, rfl, rfl⟩

end BuildFile.Written
