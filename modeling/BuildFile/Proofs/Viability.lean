import BuildFile.Proofs.Written.File

/-! # What was read before an error can be completed

Where a reader gives up, the bytes in front of that place are how some well-formed text
starts. For each reader the text is put together from what was read completely and a
completion of what was not: an escape gets its last byte, a line its newline.
-/

namespace BuildFile.Written

open Scan
open Template (Context)

/-- What was taken of the input, in front of the rest, is how the text starts. -/
def Starts (input rest text : Bytes) : Prop :=
  ∃ front, input = front ++ rest ∧ front <+: text

namespace Starts

theorem nothing (rest text : Bytes) : Starts rest rest text :=
  ⟨[], rfl, List.nil_prefix⟩

theorem behind (lead : Bytes) {input rest text : Bytes} (h : Starts input rest text) :
    Starts (lead ++ input) rest (lead ++ text) := by
  obtain ⟨front, rfl, isPrefix⟩ := h
  exact ⟨lead ++ front, by rw [List.append_assoc], (List.prefix_append_right_inj lead).2 isPrefix⟩

theorem completed {input rest text : Bytes} (h : Starts input rest text) (more : Bytes) :
    Starts input rest (text ++ more) := by
  obtain ⟨front, same, isPrefix⟩ := h
  exact ⟨front, same, isPrefix.trans (List.prefix_append _ _)⟩

/-- The text starts with the first byte of the input, if that byte was taken. -/
theorem head? {input rest text : Bytes} (h : Starts input rest text)
    (taken : rest.length < input.length) : text.head? = input.head? := by
  obtain ⟨front, rfl, more, rfl⟩ := h
  cases front with
  | nil => simp at taken
  | cons b front => rfl

end Starts

/-- A run that stops before one text stops before another, if it cannot start the other. -/
theorem stops_append {p : UInt8 → Bool} {front first second : Bytes}
    (h : Stops p (front ++ first).head?) (keeps : Stops p first.head? → Stops p second.head?) :
    Stops p (front ++ second).head? := by
  cases front with
  | nil => exact keeps h
  | cons => exact h

/-- A name to complete a text with. -/
def placeholder : Name := ascii "x"

theorem isName_placeholder : IsName placeholder := by decide

theorem token_of_readEscape_failed {input rest : Bytes} {expected : Expected}
    (h : Template.readEscape input = .failed expected rest) :
    ∃ token : Token, token.isFold = false ∧ (∀ context, token.IsValid context) ∧
      (∀ next, token.EndsBefore next) ∧ Starts (Byte.dollar :: input) rest token.text := by
  have literal (rest : Bytes) : Starts (Byte.dollar :: rest) rest (Token.escape Byte.dollar).text :=
    (Starts.nothing rest _).behind [Byte.dollar]
  cases input with
  | nil =>
      cases h
      exact ⟨.escape Byte.dollar, rfl, fun _ => rfl, fun _ => trivial, literal []⟩
  | cons b tail =>
      simp only [Template.readEscape] at h
      split at h
      · cases h
      · split at h
        · cases h
        · split at h
          · next brace =>
            subst brace
            simp only [Template.readBraced, bind_eq_failed_iff, identifier_eq_failed_iff,
              identifier_eq_done_iff, byte_eq_failed_iff, pure_apply, reduceCtorEq, and_false,
              exists_false, or_false] at h
            obtain ⟨-, rfl, -⟩ | ⟨name, _, ⟨rfl, valid, -⟩, -, rfl, -⟩ := h
            · exact ⟨.braced placeholder, rfl, fun _ => isName_placeholder, fun _ => trivial,
                (Starts.nothing rest _).behind [Byte.dollar, Byte.openBrace]⟩
            · refine ⟨.braced name, rfl, fun _ => valid, fun _ => trivial, ?_⟩
              exact (Starts.nothing rest _).behind (Byte.dollar :: Byte.openBrace :: name)
          · simp only [Template.readBare, bind_eq_failed_iff, identifier_eq_failed_iff, pure_apply,
              reduceCtorEq, and_false, exists_false, or_false] at h
            obtain ⟨-, rfl, -⟩ := h
            exact ⟨.escape Byte.dollar, rfl, fun _ => rfl, fun _ => trivial, literal _⟩

/-- A well-formed spelling may as well stand in front of a byte that continues nothing. -/
theorem Spelling.WellFormed.of_stops {context : Context} {spelling : Spelling}
    {next other : Option UInt8} (identifier : Stops Byte.isIdentifier other)
    (space : Stops Byte.isSpace other) (valid : spelling.WellFormed context next) :
    spelling.WellFormed context other := by
  induction spelling with
  | nil => trivial
  | cons token rest ih =>
      obtain ⟨first, before, others⟩ := valid
      refine ⟨first, ?_, ih others⟩
      cases seen : (Spelling.text rest).head? with
      | some b =>
          rw [seen] at before
          exact before
      | none =>
          rw [Option.none_or]
          cases token with
          | bare => exact identifier
          | fold => exact space
          | raw | escape | braced => trivial

theorem Spelling.WellFormed.newline {context : Context} {spelling : Spelling} {next : Option UInt8}
    (valid : spelling.WellFormed context next) :
    spelling.WellFormed context (some Byte.newline) :=
  valid.of_stops (stops_some.2 rfl) (stops_some.2 rfl)

/-- A template that cannot be read is spelled up to an escape that cannot be read, or, if a
    value, up to the end of the file. -/
theorem spelling_of_read_failed {context : Context} (input : Bytes) :
    ∀ {expected rest}, Template.read context input = .failed expected rest →
      ∃ (spelling : Spelling) (left : Bytes), input = spelling.text ++ left ∧
        spelling.WellFormed context left.head? ∧
        ((context = .value ∧ left = [] ∧ rest = []) ∨
          ∃ behind, left = Byte.dollar :: behind ∧
            Template.readEscape behind = .failed expected rest) := by
  fun_induction Template.read context input with
  | case2 | case5 | case6 => simp
  | case1 input hrest =>
      rename_i value
      intro _ _ h
      cases h
      exact ⟨_, [], eq_run_append hrest, wellFormed_run input _, .inl ⟨value, rfl, rfl⟩⟩
  | case3 input behind expected left hescape hrest =>
      intro _ _ h
      cases h
      exact ⟨_, _, eq_run_append hrest, wellFormed_run input _,
        .inr ⟨behind, rfl, hescape⟩⟩
  | case4 input behind parts middle hescape expected rest hread hrest ih =>
      intro _ _ h
      cases h
      obtain ⟨spelling, left, rfl, valid, stuck⟩ := ih hread
      obtain ⟨token, -, same, first, before, -⟩ := token_of_readEscape context hescape
      refine ⟨(input.takeWhile context.isPlain).map .raw ++ token :: spelling, left, ?_, ?_, stuck⟩
      · rw [Spelling.text_append, List.append_assoc, Spelling.text_cons, List.append_assoc, ← same,
          ← eq_run_append hrest]
      · rw [List.head?_append] at before
        exact Spelling.WellFormed.append.2
          ⟨wellFormed_run input _, first, before, valid⟩

theorem completed_of_readEscape_failed {context : Context} {spelling : Spelling}
    {behind rest : Bytes} {expected : Expected}
    (valid : spelling.WellFormed context (some Byte.dollar))
    (h : Template.readEscape behind = .failed expected rest) :
    ∃ whole : Spelling, Starts (spelling.text ++ Byte.dollar :: behind) rest whole.text ∧
      ¬ whole.IsBlank ∧ ∀ next, whole.WellFormed context next := by
  obtain ⟨token, content, isValid, ends, starts⟩ := token_of_readEscape_failed h
  have shorter := Template.forward_readEscape.length_le behind
  rw [h, Result.rest_failed] at shorter
  have first : token.text.head? = some Byte.dollar := starts.head? (by simp; omega)
  refine ⟨spelling ++ [token], ?_, ?_, fun next => ?_⟩
  · simpa using starts.behind spelling.text
  · intro blank
    have := blank token (by simp)
    rw [content] at this
    cases this
  · refine Spelling.WellFormed.append.2 ⟨?_, isValid context, ends _, trivial⟩
    simpa [first] using valid

theorem viable_path {input rest : Bytes} {expected : Expected}
    (h : Template.read .path input = .failed expected rest) :
    ∃ path : Spelling, Starts input rest path.text ∧ ¬ path.IsBlank ∧
      ∀ next, path.WellFormed .path next := by
  obtain ⟨spelling, left, rfl, valid, ⟨path, -⟩ | ⟨behind, rfl, hescape⟩⟩ :=
    spelling_of_read_failed input h
  · cases path
  · exact completed_of_readEscape_failed valid hescape

theorem viable_value {input rest : Bytes} {expected : Expected}
    (h : Template.read .value input = .failed expected rest) :
    ∃ value : Spelling, Starts input rest value.text ∧
      value.WellFormed .value (some Byte.newline) := by
  obtain ⟨spelling, left, rfl, valid, ⟨-, rfl, rfl⟩ | ⟨behind, rfl, hescape⟩⟩ :=
    spelling_of_read_failed input h
  · exact ⟨spelling, by simpa using (Starts.nothing [] []).behind spelling.text, valid.newline⟩
  · obtain ⟨value, starts, -, wellFormed⟩ := completed_of_readEscape_failed valid hescape
    exact ⟨value, starts, wellFormed _⟩

/-- Reading a path does not give up before it has taken a byte. -/
theorem taken_of_read_failed {input rest : Bytes} {expected : Expected}
    (h : Template.read .path input = .failed expected rest) : rest.length < input.length := by
  obtain ⟨spelling, left, rfl, -, ⟨path, -⟩ | ⟨behind, rfl, hescape⟩⟩ :=
    spelling_of_read_failed input h
  · cases path
  · have shorter := Template.forward_readEscape.length_le behind
    rw [hescape, Result.rest_failed] at shorter
    simp only [List.length_append, List.length_cons]
    omega

theorem viable_paths (input : Bytes) :
    ∀ {expected rest}, Template.readPaths input = .failed expected rest →
      ∃ list : PathList, Starts input rest list.text ∧ rest.length < input.length ∧
        ∀ next, Delimits next → list.WellFormed next := by
  fun_induction Template.readPaths input with
  | case2 | case4 => simp
  | case1 input expected rest hread =>
      intro _ _ h
      cases h
      obtain ⟨path, starts, content, wellFormed⟩ := viable_path hread
      have taken := taken_of_read_failed hread
      obtain ⟨n, same⟩ := exists_spaces input
      refine ⟨.path n path (.tail 0 []), ?_, ?_, fun next delimits => ?_⟩
      · rw [same]
        simpa [PathList.text] using starts.behind (spaces n)
      · rw [same, List.length_append]
        omega
      · exact ⟨content, wellFormed _, delimits.1, trivial⟩
  | case3 input path middle hread content expected rest hpaths ih =>
      intro _ _ h
      cases h
      obtain ⟨more, starts, taken, others⟩ := ih hpaths
      obtain ⟨spelling, split, first, ends, rfl⟩ := read_eq_done_iff.1 hread
      obtain ⟨n, same⟩ := exists_spaces input
      rw [split] at same
      have seen (next : Option UInt8) : more.text.head?.or next = middle.head? := by
        rw [starts.head? taken]
        cases middle with
        | nil => simp at taken
        | cons => rfl
      refine ⟨.path n spelling more, ?_, ?_, fun next delimits => ?_⟩
      · rw [same]
        exact (starts.behind spelling.text).behind (spaces n)
      · rw [same]
        simp only [List.length_append]
        omega
      · have nonblank := Spelling.template_eq_nil_iff.not.1 content
        exact ⟨nonblank, by rwa [seen], by rwa [seen], others next delimits⟩

theorem Delimits.stops_isIdentifier {next : Option UInt8} (h : Delimits next) :
    Stops Byte.isIdentifier next := by
  obtain rfl | rfl | rfl | rfl := delimits_iff.1 h
  · exact stops_none _
  all_goals exact stops_some.2 rfl

/-- One byte that no path starts with is as good as another behind a list of paths. -/
theorem PathList.WellFormed.of_delimits {list : PathList} {next other : Option UInt8}
    (delimits : Delimits other) (valid : list.WellFormed next) : list.WellFormed other := by
  induction list with
  | tail => trivial
  | path gap spelling more ih =>
      obtain ⟨content, first, ends, others⟩ := valid
      cases seen : more.text.head? with
      | some b =>
          rw [seen] at first ends
          exact ⟨content, by rwa [seen], by rwa [seen], ih others⟩
      | none =>
          have moved := first.of_stops delimits.stops_isIdentifier delimits.2
          exact ⟨content, by rwa [seen], by rw [seen]; exact delimits.1, ih others⟩

theorem ends_value_iff {next : Option UInt8} : Ends .value next ↔ next = some Byte.newline := by
  cases next <;> simp [Ends, Context.ends]

theorem viable_definition {name : Name} {input rest : Bytes} {expected : Expected}
    (h : Binding.readValue name input = .failed expected rest) :
    ∃ (after : Nat) (value : Spelling),
      Starts input rest (Byte.equals :: (spaces after ++ (value.text ++ [Byte.newline]))) ∧
        value.WellFormed .value (some Byte.newline) := by
  simp only [Binding.readValue, bind_eq_failed_iff, bind_reader_eq_failed_iff, byte_eq_failed_iff,
    byte_eq_done_iff, spaces_ne_failed, spaces_eq_done_iff, read_eq_done_iff,
    endOfLine_eq_failed_iff, pure_apply, reduceCtorEq, and_false, exists_false, or_false,
    false_or] at h
  obtain ⟨-, rfl, -⟩ | ⟨_, _, rfl, _, start, ⟨n, rfl, -⟩,
    hread | ⟨_, middle, ⟨value, rfl, -, ends, -⟩, -, rfl, other⟩⟩ := h
  · exact ⟨0, [], Starts.nothing _ _, trivial⟩
  · obtain ⟨value, starts, valid⟩ := viable_value hread
    exact ⟨n, value, ((starts.completed _).behind (spaces n)).behind [Byte.equals], valid⟩
  · exact absurd (ends_value_iff.1 ends) other

theorem viable_assignment {input rest : Bytes} {expected : Expected}
    (h : Binding.read input = .failed expected rest) :
    ∃ defined : Assignment, Starts input rest defined.text ∧ defined.WellFormed := by
  simp only [Binding.read, bind_eq_failed_iff, identifier_eq_failed_iff, identifier_eq_done_iff,
    spaces_ne_failed, spaces_eq_done_iff, false_or] at h
  obtain ⟨-, rfl, -⟩ | ⟨name, _, ⟨rfl, valid, -⟩, _, start, ⟨n, rfl, -⟩, hvalue⟩ := h
  · exact ⟨⟨placeholder, 0, 0, []⟩, Starts.nothing _ _, isName_placeholder, trivial⟩
  · obtain ⟨after, value, starts, wellFormed⟩ := viable_definition hvalue
    exact ⟨⟨name, n, after, value⟩, (starts.behind (spaces n)).behind name, valid, wellFormed⟩

/-- What comes behind the implicit inputs of a build line. -/
theorem viable_orderOnly {α : Type} {finish : List Template → α} {input rest : Bytes}
    {expected : Expected}
    (h : (do
      let orderOnly ← BuildFile.BuildLine.readOrderOnlyInputs
      endOfLine
      return finish orderOnly : Scan α) input = .failed expected rest) :
    ∃ orderOnly : Option PathList,
      Starts input rest (marked doublePipe orderOnly ++ [Byte.newline]) ∧
        (∀ list ∈ orderOnly, list.WellFormed (some Byte.newline)) ∧
        (Stops (· == Byte.pipe) input.head? →
          Stops (· == Byte.pipe) (marked doublePipe orderOnly ++ [Byte.newline]).head?) := by
  simp only [bind_eq_failed_iff, endOfLine_eq_failed_iff, pure_apply, reduceCtorEq, and_false,
    exists_false, or_false] at h
  obtain h | ⟨_, middle, hdone, -, rfl, -⟩ := h
  · cases input with
    | nil => cases h
    | cons b after =>
        rw [BuildFile.BuildLine.readOrderOnlyInputs] at h
        split at h
        · next pipe =>
          subst pipe
          have twice : Stops (· == Byte.pipe) (Byte.pipe :: after).head? →
              Stops (· == Byte.pipe) [Byte.pipe].head? := id
          have parts := bind_eq_failed_iff.1 h
          simp only [byte_eq_failed_iff, byte_eq_done_iff] at parts
          obtain ⟨-, rfl, -⟩ | ⟨_, behind, rfl, hpaths⟩ := parts
          · refine ⟨some (.tail 0 []), ?_, fun list member => ?_, twice⟩
            · exact (Starts.nothing rest _).behind [Byte.pipe]
            · cases member
              trivial
          · obtain ⟨list, starts, -, valid⟩ := viable_paths behind hpaths
            refine ⟨some list, ?_, fun other member => ?_, twice⟩
            · simpa [marked, doublePipe] using
                (starts.completed [Byte.newline]).behind [Byte.pipe, Byte.pipe]
            · cases member
              exact valid _ (by simp [delimits_iff])
        · cases h
  · obtain ⟨orderOnly, rfl, -, valid⟩ := marked_of_readOrderOnlyInputs hdone
    refine ⟨orderOnly, ((Starts.nothing _ _).behind _), fun list member => ?_, fun stops => ?_⟩
    · exact (valid list member).of_delimits (by simp [delimits_iff])
    · cases orderOnly with
      | none => exact stops_some.2 rfl
      | some list => exact stops

/-- What comes behind the explicit inputs of a build line. -/
theorem viable_marked {α : Type} {finish : List Template → List Template → α}
    {input rest : Bytes} {expected : Expected}
    (h : (do
      let implicit ← BuildFile.BuildLine.readImplicitInputs
      let orderOnly ← BuildFile.BuildLine.readOrderOnlyInputs
      endOfLine
      return finish implicit orderOnly : Scan α) input = .failed expected rest) :
    ∃ implicit orderOnly : Option PathList,
      Starts input rest
        (marked singlePipe implicit ++ (marked doublePipe orderOnly ++ [Byte.newline])) ∧
      (∀ list ∈ implicit,
        Stops (· == Byte.pipe)
            (list.text ++ (marked doublePipe orderOnly ++ [Byte.newline])).head? ∧
          ∀ next, Delimits next → list.WellFormed next) ∧
      ∀ list ∈ orderOnly, list.WellFormed (some Byte.newline) := by
  rw [bind_eq_failed_iff] at h
  obtain h | ⟨_, middle, hdone, h⟩ := h
  · by_cases single : ∃ after, input = Byte.pipe :: after ∧ Stops (· == Byte.pipe) after.head?
    · obtain ⟨after, rfl, stops⟩ := single
      rw [readImplicitInputs_single stops] at h
      obtain ⟨list, starts, taken, valid⟩ := viable_paths after h
      refine ⟨some list, none, ?_, fun other member => ?_, by simp⟩
      · simpa [marked, singlePipe] using (starts.completed [Byte.newline]).behind [Byte.pipe]
      · cases member
        refine ⟨?_, valid⟩
        have first := (starts.completed [Byte.newline]).head? taken
        simpa [marked, first] using stops
    · simp only [stops_pipe_iff, not_exists, not_and, not_not] at single
      rw [readImplicitInputs_none single] at h
      cases h
  · obtain ⟨implicit, rfl, -, valid⟩ := marked_of_readImplicitInputs hdone
    -- Behind a single pipe without paths, the completion must not bring a second pipe.
    obtain ⟨orderOnly, starts, others, keeps⟩ := viable_orderOnly h
    refine ⟨implicit, orderOnly, starts.behind _, fun list member => ?_, others⟩
    obtain ⟨stops, wellFormed⟩ := valid list member
    exact ⟨stops_append stops keeps, fun next delimits => wellFormed.of_delimits delimits⟩

theorem delimits_newline : Delimits (some Byte.newline) := by simp [delimits_iff]

theorem delimits_colon : Delimits (some Byte.colon) := by simp [delimits_iff]

/-- A build line without further inputs than the explicit ones. -/
def BuildLine.short (outputs : PathList) (gap : Nat) (rule : Name) (inputs : PathList) :
    BuildLine :=
  ⟨outputs, gap, rule, inputs, none, none⟩

theorem BuildLine.wellFormed_short {outputs inputs : PathList} {rule : Name} (gap : Nat)
    (validOutputs : outputs.WellFormed (some Byte.colon)) (name : IsName rule)
    (stops : Stops Byte.isIdentifier (inputs.text ++ [Byte.newline]).head?)
    (validInputs : inputs.WellFormed (some Byte.newline)) :
    (BuildLine.short outputs gap rule inputs).WellFormed :=
  ⟨validOutputs, name, stops, validInputs, by simp [short], by simp [short]⟩

theorem viable_buildLine {input rest : Bytes} {expected : Expected}
    (h : BuildFile.BuildLine.read input = .failed expected rest) :
    ∃ line : BuildLine, Starts input rest line.text ∧ line.WellFormed ∧
      (Stops Byte.isIdentifier input.head? → Stops Byte.isIdentifier line.text.head?) := by
  -- One case for each part of the line that can fail. The parts in front of it are kept as they
  -- were read, and of those behind it only what a line cannot do without is added.
  have nameOnly {outputs : PathList} (gap : Nat) (valid : outputs.WellFormed (some Byte.colon)) :
      (BuildLine.short outputs gap placeholder (.tail 0 [])).WellFormed :=
    BuildLine.wellFormed_short gap valid isName_placeholder (stops_some.2 rfl) trivial
  rw [BuildFile.BuildLine.read, bind_reader_eq_failed_iff] at h
  obtain h | ⟨_, afterOutputs, houtputs, h⟩ := h
  · obtain ⟨outputs, starts, taken, valid⟩ := viable_paths input h
    have whole := starts.completed (Byte.colon :: (placeholder ++ [Byte.newline]))
    refine ⟨.short outputs 0 placeholder (.tail 0 []), whole,
      nameOnly 0 (valid _ delimits_colon), ?_⟩
    intro stops
    rwa [← whole.head? taken] at stops
  · obtain ⟨outputs, rfl, valid, -, -⟩ := readPaths_eq_done_iff.1 houtputs
    have validOutputs := valid.of_delimits delimits_colon
    have keeps (after : Bytes)
        (stops : Stops Byte.isIdentifier (outputs.text ++ afterOutputs).head?) :
        Stops Byte.isIdentifier (outputs.text ++ Byte.colon :: after).head? :=
      stops_append stops fun _ => stops_some.2 rfl
    rw [bind_eq_failed_iff] at h
    obtain h | ⟨_, afterColon, hcolon, h⟩ := h
    · obtain ⟨-, rfl, -⟩ := byte_eq_failed_iff.1 h
      exact ⟨.short outputs 0 placeholder (.tail 0 []),
        (Starts.nothing rest _).behind outputs.text, nameOnly 0 validOutputs, keeps _⟩
    · obtain rfl := byte_eq_done_iff.1 hcolon
      rw [bind_eq_failed_iff] at h
      obtain h | ⟨_, afterSpaces, hspaces, h⟩ := h
      · cases spaces_ne_failed h
      · obtain ⟨gap, rfl, -⟩ := spaces_eq_done_iff.1 hspaces
        have lead {rest text : Bytes} (starts : Starts afterSpaces rest text) :=
          ((starts.behind (spaces gap)).behind [Byte.colon]).behind outputs.text
        rw [bind_eq_failed_iff] at h
        obtain h | ⟨rule, afterRule, hrule, h⟩ := h
        · obtain ⟨-, rfl, -⟩ := identifier_eq_failed_iff.1 h
          exact ⟨.short outputs gap placeholder (.tail 0 []), lead (Starts.nothing rest _),
            nameOnly gap validOutputs, keeps _⟩
        · obtain ⟨rfl, name, ruleStops⟩ := identifier_eq_done_iff.1 hrule
          rw [bind_reader_eq_failed_iff] at h
          obtain h | ⟨_, afterInputs, hinputs, h⟩ := h
          · obtain ⟨inputs, starts, taken, validInputs⟩ := viable_paths afterRule h
            have whole := starts.completed [Byte.newline]
            rw [← whole.head? taken] at ruleStops
            exact ⟨.short outputs gap rule inputs, lead (whole.behind rule),
              BuildLine.wellFormed_short gap validOutputs name ruleStops
                (validInputs _ delimits_newline), keeps _⟩
          · obtain ⟨inputs, rfl, validInputs, -, -⟩ := readPaths_eq_done_iff.1 hinputs
            obtain ⟨implicit, orderOnly, starts, validImplicit, validOrderOnly⟩ := viable_marked h
            let line : BuildLine := ⟨outputs, gap, rule, inputs, implicit, orderOnly⟩
            have delimits := delimits_implicitText line
            refine ⟨line, lead ((starts.behind inputs.text).behind rule), ?_, keeps _⟩
            exact {
              outputs := validOutputs
              rule := name
              rule_stops := stops_append ruleStops fun _ => delimits.stops_isIdentifier
              inputs := validInputs.of_delimits delimits
              implicit := by
                intro list member
                obtain ⟨single, wellFormed⟩ := validImplicit list member
                exact ⟨single, wellFormed _ (delimits_orderOnlyText line)⟩
              orderOnly := validOrderOnly }

theorem viable_target {input rest : Bytes} {expected : Expected}
    (h : Template.readTarget input = .failed expected rest) :
    ∃ path : Spelling, Starts input rest path.text ∧ ¬ path.IsBlank ∧
      (∀ next, path.WellFormed .path next) ∧
      (Stops Byte.isIdentifier input.head? → Stops Byte.isIdentifier path.text.head?) := by
  rw [Template.readTarget, bind_reader_eq_failed_iff] at h
  obtain h | ⟨_, middle, hread, h⟩ := h
  · obtain ⟨path, starts, content, valid⟩ := viable_path h
    have first := starts.head? (taken_of_read_failed h)
    exact ⟨path, starts, content, valid, fun stops => by rwa [first]⟩
  · obtain ⟨path, rfl, valid, -, rfl⟩ := read_eq_done_iff.1 hread
    split at h
    · cases h
      have before : path.WellFormed .path (some Byte.dollar) :=
        valid.of_stops (stops_some.2 rfl) (stops_some.2 rfl)
      refine ⟨path ++ [.escape Byte.dollar], ?_, ?_, fun next => ?_, fun stops => ?_⟩
      · rw [Spelling.text_append]
        exact (Starts.nothing rest _).behind path.text
      · intro blank
        have := blank (.escape Byte.dollar) (by simp)
        cases this
      · exact Spelling.WellFormed.append.2 ⟨before, rfl, trivial, trivial⟩
      · rw [Spelling.text_append]
        exact stops_append stops fun _ => stops_some.2 rfl
    · cases h

theorem viable_default {gap : Nat} {input rest : Bytes} {expected : Expected}
    (stops : Stops Byte.isIdentifier (spaces gap ++ input).head?)
    (h : BuildFile.Statement.readDefaultLine input = .failed expected rest) :
    ∃ statement : Statement,
      Starts (Keyword.default ++ (spaces gap ++ input)) rest statement.text ∧
        statement.WellFormed := by
  have lead {rest text : Bytes} (starts : Starts input rest text) :=
    (starts.behind (spaces gap)).behind Keyword.default
  simp only [BuildFile.Statement.readDefaultLine, bind_eq_failed_iff, readTarget_eq_done_iff,
    spaces_ne_failed, spaces_eq_done_iff, endOfLine_eq_failed_iff, pure_apply, reduceCtorEq,
    and_false, exists_false, or_false, false_or] at h
  obtain h | ⟨_, _, ⟨path, rfl, content, valid, -⟩, _, _, ⟨after, rfl, -⟩, -, rfl, -⟩ := h
  · obtain ⟨path, starts, content, valid, keeps⟩ := viable_target h
    have whole := starts.completed [Byte.newline]
    exact ⟨.default gap path 0, lead whole, stops_append stops keeps, content, valid _⟩
  · have nonempty := Spelling.text_ne_nil (Spelling.ne_nil_of_not_isBlank content)
    rw [head?_append_append nonempty] at stops
    have starts := ((Starts.nothing rest [Byte.newline]).behind (spaces after)).behind path.text
    refine ⟨.default gap path after, lead starts, stops, content, ?_⟩
    cases after with
    | zero => exact valid.newline
    | succ n => exact valid

theorem viable_after {word : Name} {gap : Nat} {input rest : Bytes} {expected : Expected}
    (valid : IsName word) (stops : Stops Byte.isIdentifier (spaces gap ++ input).head?)
    (h : BuildFile.Statement.readAfter word input = .failed expected rest) :
    ∃ statement : Statement, Starts (word ++ (spaces gap ++ input)) rest statement.text ∧
      statement.WellFormed := by
  by_cases keyword : word ∈ [Keyword.build, Keyword.rule, Keyword.default]
  · simp only [List.mem_cons, List.not_mem_nil, or_false] at keyword
    obtain rfl | rfl | rfl := keyword
    · rw [readAfter_build, map_eq_failed_iff, ← readBuildLine_spaces gap] at h
      obtain ⟨line, starts, wellFormed, keeps⟩ := viable_buildLine h
      exact ⟨.build line, starts.behind Keyword.build, keeps stops, wellFormed⟩
    · rw [readAfter_rule, map_eq_failed_iff] at h
      simp only [BuildFile.Statement.readRuleLine, bind_eq_failed_iff, identifier_eq_failed_iff,
        identifier_eq_done_iff, spaces_ne_failed, spaces_eq_done_iff, endOfLine_eq_failed_iff,
        pure_apply, reduceCtorEq, and_false, exists_false, or_false, false_or] at h
      obtain ⟨-, rfl, -⟩ | ⟨name, _, ⟨rfl, isName, -⟩, _, _, ⟨after, rfl, -⟩, -, rfl, -⟩ := h
      · have longer : spaces (gap + 1) = spaces gap ++ [Byte.space] := List.replicate_succ'
        refine ⟨.rule gap placeholder 0, ?_, isName_placeholder⟩
        rw [Statement.text, longer, List.append_assoc]
        exact ((Starts.nothing rest _).behind (spaces gap)).behind Keyword.rule
      · obtain ⟨gap, rfl⟩ := isName.exists_gap stops
        have starts := ((Starts.nothing rest [Byte.newline]).behind (spaces after)).behind name
        exact ⟨.rule gap name after, (starts.behind (spaces (gap + 1))).behind Keyword.rule, isName⟩
    · rw [readAfter_default, map_eq_failed_iff] at h
      exact viable_default stops h
  · rw [readAfter_of_notMem keyword, map_eq_failed_iff] at h
    obtain ⟨after, value, starts, wellFormed⟩ := viable_definition h
    exact ⟨.assignment ⟨word, gap, after, value⟩, (starts.behind (spaces gap)).behind word,
      ⟨valid, wellFormed⟩, keyword⟩

theorem viable_statement {input rest : Bytes} {expected : Expected}
    (h : BuildFile.Statement.read input = .failed expected rest) :
    ∃ statement : Statement, Starts input rest statement.text ∧ statement.WellFormed := by
  simp only [BuildFile.Statement.read, bind_eq_failed_iff, identifier_eq_failed_iff,
    identifier_eq_done_iff, spaces_ne_failed, spaces_eq_done_iff, false_or] at h
  obtain ⟨-, rfl, -⟩ | ⟨word, _, ⟨rfl, valid, stops⟩, _, start, ⟨gap, rfl, -⟩, hafter⟩ := h
  · exact ⟨.rule 0 placeholder 0, Starts.nothing _ _, isName_placeholder⟩
  · exact viable_after valid stops hafter

theorem viable_nextBinding {input rest : Bytes} {expected : Expected}
    (h : Binding.readNext input = .failed expected rest) :
    ∃ block : Block, Starts input rest block.text ∧ block.WellFormed := by
  obtain ⟨left, skips, halt⟩ := exists_halt input
  rw [skips.readNext_eq] at h
  obtain ⟨block, rfl, valid, -⟩ := skips
  have extended (line : BlockLine) (wellFormed : line.WellFormed)
      (starts : Starts left rest line.text) :
      ∃ longer : Block, Starts (block.text ++ left) rest longer.text ∧ longer.WellFormed := by
    refine ⟨block ++ [line], ?_, valid.append (List.forall_mem_singleton.2 wellFormed)⟩
    simpa using starts.behind block.text
  cases halt with
  | unindented stops =>
      rw [readNext_of_skipLines_false (blockSkip_stops stops)] at h
      cases h
  | definition n start =>
      rw [readNext_of_skipLines (blockSkip_indented n start), map_eq_failed_iff] at h
      obtain ⟨defined, starts, wellFormed⟩ := viable_assignment h
      exact extended (.binding n defined) wellFormed (starts.behind (spaces (n + 1)))
  | @openComment n remark within =>
      rw [readNext_of_skipLines_failed (blockSkip_openComment n within)] at h
      cases h
      apply extended (.comment n remark) within
      have starts := (Starts.nothing [] [Byte.newline]).behind (Byte.hash :: remark)
      simpa [BlockLine.text] using starts.behind (spaces (n + 1))

theorem viable_block (input : Bytes) :
    ∀ {expected rest}, Binding.readBlock input = .failed expected rest →
      ∃ block : Block, Starts input rest block.text ∧ block.WellFormed := by
  fun_induction Binding.readBlock input with
  | case2 | case4 => simp
  | case1 input expected rest hread =>
      intro _ _ h
      cases h
      exact viable_nextBinding hread
  | case3 input binding middle hread expected rest hblock ih =>
      intro _ _ h
      cases h
      obtain ⟨more, starts, others⟩ := ih hblock
      obtain ⟨n, defined, ⟨block, same, valid, -⟩, wellFormed, -⟩ := binding_of_readNext hread
      refine ⟨block ++ .binding n defined :: more, ?_, ?_⟩
      · rw [same, Block.text_append, Block.text_cons]
        exact (starts.behind _).behind block.text
      · exact valid.append (List.forall_mem_cons.2 ⟨wellFormed, others⟩)

theorem viable_nextStatement {input rest : Bytes} {expected : Expected}
    (h : BuildFile.Statement.readNext input = .failed expected rest) :
    ∃ file : File, Starts input rest file.text ∧ file.WellFormed := by
  obtain ⟨left, passes, pause⟩ := exists_pause input
  rw [passes.readNext_eq] at h
  obtain ⟨file, rfl, valid, -⟩ := passes
  have extended (element : Element) (wellFormed : element.WellFormed)
      (starts : Starts left rest element.text) :
      ∃ longer : File, Starts (file.text ++ left) rest longer.text ∧ longer.WellFormed := by
    refine ⟨file ++ [element], ?_, valid.append (List.forall_mem_singleton.2 wellFormed)⟩
    simpa using starts.behind file.text
  cases pause with
  | ended =>
      rw [readStatement_ended] at h
      cases h
  | statement start =>
      rw [readStatement_start start, map_eq_failed_iff] at h
      obtain ⟨statement, starts, wellFormed⟩ := viable_statement h
      refine extended (.declaration statement []) ⟨wellFormed, by simp [Block.WellFormed], ?_⟩ ?_
      · exact fun _ => rfl
      · exact starts.completed []
  | @openComment remark within =>
      rw [readStatement_openComment within] at h
      cases h
      apply extended (.comment remark) within
      simpa [Element.text] using (Starts.nothing [] [Byte.newline]).behind (Byte.hash :: remark)

theorem viable_nextDeclaration {input rest : Bytes} {expected : Expected}
    (h : Declaration.readNext input = .failed expected rest) :
    ∃ file : File, Starts input rest file.text ∧ file.WellFormed := by
  rw [Declaration.readNext, bind_eq_failed_iff] at h
  obtain h | ⟨found, behind, hstatement, h⟩ := h
  · exact viable_nextStatement h
  · cases found with
    | none => cases h
    | some content =>
        simp only [map_eq_failed_iff, Declaration.readOf, bind_eq_failed_iff, pure_apply,
          reduceCtorEq, and_false, exists_false, or_false] at h
        obtain ⟨statement, ⟨file, same, valid, -⟩, wellFormed, rfl⟩ :=
          statement_of_readNext hstatement
        cases opens : statement.content.opensBlock with
        | false =>
            rw [readBlock_of_not_opensBlock opens] at h
            cases h
        | true =>
            rw [readBlock_of_opensBlock opens] at h
            obtain ⟨block, starts, lines⟩ := viable_block behind h
            have element : (Element.declaration statement block).WellFormed :=
              ⟨wellFormed, lines, by simp [opens]⟩
            refine ⟨file ++ [.declaration statement block], ?_,
              valid.append (List.forall_mem_singleton.2 element)⟩
            rw [same]
            simpa [Element.text] using (starts.behind statement.text).behind file.text

/-- What was read of a file up to an error is how some file starts that is read to its end. -/
theorem viable_document (input : Bytes) :
    ∀ {failure}, (Document.read input).failure = some failure →
      ∃ file : File, Starts input failure.rest file.text ∧ file.WellFormed := by
  fun_induction Document.read input with
  | case1 input expected rest hread =>
      intro _ h
      cases h
      exact viable_nextDeclaration hread
  | case2 => simp
  | case3 input declaration middle hread document =>
      rename_i ih
      intro _ h
      obtain ⟨more, starts, others⟩ := ih h
      obtain ⟨file, same, valid, -⟩ := file_of_readDeclaration hread
      refine ⟨file ++ more, ?_, valid.append others⟩
      rw [same, File.text_append]
      exact starts.behind file.text

end BuildFile.Written
