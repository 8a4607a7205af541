import BuildFile.Proofs.Written.Line

/-! # How statements are told apart

A statement starts with a name. Three names are keywords; any other is the variable of an
assignment. The keyword is the longest name that stands there, so `builds = 1` is an
assignment.
-/

namespace BuildFile.Written

open Scan

inductive Statement where
  | assignment (defined : Assignment)
  | rule (gap : Nat) (name : Name) (after : Nat)
  | default (gap : Nat) (path : Spelling) (after : Nat)
  | build (line : BuildLine)
  deriving Repr, DecidableEq

namespace Statement

def text : Statement → Bytes
  | .assignment defined => defined.text
  | .rule gap name after =>
      Keyword.rule ++ (spaces (gap + 1) ++ (name ++ (spaces after ++ [Byte.newline])))
  | .default gap path after =>
      Keyword.default ++ (spaces gap ++ (path.text ++ (spaces after ++ [Byte.newline])))
  | .build line => Keyword.build ++ line.text

def WellFormed : Statement → Prop
  | .assignment defined =>
      defined.WellFormed ∧ defined.name ∉ [Keyword.build, Keyword.rule, Keyword.default]
  | .rule _ name _ => IsName name
  | .default gap path after =>
      Stops Byte.isIdentifier (spaces gap ++ path.text).head? ∧ ¬ path.IsBlank ∧
        path.WellFormed .path (spaces after ++ [Byte.newline]).head?
  | .build line => Stops Byte.isIdentifier line.text.head? ∧ line.WellFormed

/-- What the statement says. -/
def content : Statement → BuildFile.Statement
  | .assignment defined => .assignment defined.binding
  | .rule _ name _ => .rule name
  | .default _ path _ => .default path.template
  | .build line => .build line.content

end Statement

theorem isName_build : IsName Keyword.build := by decide

theorem isName_rule : IsName Keyword.rule := by decide

theorem isName_default : IsName Keyword.default := by decide

theorem stops_isSpace_newline (rest : Bytes) : Stops Byte.isSpace (Byte.newline :: rest).head? := by
  simp; decide

theorem readRuleLine_eq_done_iff {input rest : Bytes} {name : Name} :
    BuildFile.Statement.readRuleLine input = .done name rest ↔
      ∃ after, input = name ++ (spaces after ++ Byte.newline :: rest) ∧ IsName name := by
  simp only [BuildFile.Statement.readRuleLine, bind_eq_done_iff, identifier_eq_done_iff,
    spaces_eq_done_iff, endOfLine_eq_done_iff, pure_apply, Result.done.injEq]
  constructor
  · intro h
    obtain ⟨_, _, ⟨rfl, valid, -⟩, _, _, ⟨after, rfl, -⟩, _, _, rfl, rfl, rfl⟩ := h
    exact ⟨after, rfl, valid⟩
  · intro h
    obtain ⟨after, rfl, valid⟩ := h
    have stops := stops_isIdentifier_spaces after (b := Byte.newline) rest rfl
    exact ⟨name, _, ⟨rfl, valid, stops⟩, (), _, ⟨after, rfl, stops_isSpace_newline rest⟩, (), rest,
      rfl, rfl, rfl⟩

theorem readTarget_eq_done_iff {input rest : Bytes} {template : Template} :
    Template.readTarget input = .done template rest ↔
      ∃ path : Spelling, input = path.text ++ rest ∧ ¬ path.IsBlank ∧
        path.WellFormed .path rest.head? ∧ Ends .path rest.head? ∧ path.template = template := by
  simp only [Template.readTarget, bind_reader_eq_done_iff, read_eq_done_iff]
  constructor
  · intro h
    obtain ⟨_, middle, ⟨path, rfl, valid, ends, rfl⟩, h⟩ := h
    split at h
    · cases h
    · next content =>
      cases h
      exact ⟨path, rfl, Spelling.template_eq_nil_iff.not.1 content, valid, ends, rfl⟩
  · intro h
    obtain ⟨path, rfl, content, valid, ends, rfl⟩ := h
    refine ⟨_, rest, ⟨path, rfl, valid, ends, rfl⟩, ?_⟩
    rw [if_neg (Spelling.template_eq_nil_iff.not.2 content)]
    rfl

theorem head?_spaces_newline (n : Nat) (rest : Bytes) :
    (spaces n ++ Byte.newline :: rest).head? = (spaces n ++ [Byte.newline]).head? :=
  head?_append_append (List.cons_ne_nil Byte.newline []) (spaces n) rest

theorem ends_spaces_newline (n : Nat) : Ends .path (spaces n ++ [Byte.newline]).head? := by
  cases n <;> rfl

theorem readDefaultLine_eq_done_iff {input rest : Bytes} {template : Template} :
    BuildFile.Statement.readDefaultLine input = .done template rest ↔
      ∃ (path : Spelling) (after : Nat),
        input = path.text ++ (spaces after ++ Byte.newline :: rest) ∧
        ¬ path.IsBlank ∧ path.WellFormed .path (spaces after ++ [Byte.newline]).head? ∧
        path.template = template := by
  simp only [BuildFile.Statement.readDefaultLine, bind_eq_done_iff, readTarget_eq_done_iff,
    spaces_eq_done_iff, endOfLine_eq_done_iff, pure_apply, Result.done.injEq]
  constructor
  · intro h
    obtain ⟨_, _, ⟨path, rfl, content, valid, -, rfl⟩, _, _, ⟨after, rfl, -⟩, _, _, rfl, rfl,
      rfl⟩ := h
    rw [head?_spaces_newline] at valid
    exact ⟨path, after, rfl, content, valid, rfl⟩
  · intro h
    obtain ⟨path, after, rfl, content, valid, rfl⟩ := h
    have ends := ends_spaces_newline after
    rw [← head?_spaces_newline after rest] at valid ends
    exact ⟨_, _, ⟨path, rfl, content, valid, ends, rfl⟩, (), _,
      ⟨after, rfl, stops_isSpace_newline rest⟩, (), rest, rfl, rfl, rfl⟩

/-- Spaces between the keyword and the outputs do not count. -/
theorem readBuildLine_spaces (n : Nat) (input : Bytes) :
    BuildFile.BuildLine.read (spaces n ++ input) = BuildFile.BuildLine.read input := by
  have same : Template.readPaths (spaces n ++ input) = Template.readPaths input := by
    rw [← readPaths_dropWhile, dropWhile_spaces_append, readPaths_dropWhile]
  exact bind_reader_congr same

theorem readAfter_build :
    BuildFile.Statement.readAfter Keyword.build = .build <$> BuildFile.BuildLine.read :=
  rfl

theorem readAfter_rule :
    BuildFile.Statement.readAfter Keyword.rule = .rule <$> BuildFile.Statement.readRuleLine :=
  rfl

theorem readAfter_default :
    BuildFile.Statement.readAfter Keyword.default =
      .default <$> BuildFile.Statement.readDefaultLine :=
  rfl

theorem readAfter_of_notMem {word : Name}
    (other : word ∉ [Keyword.build, Keyword.rule, Keyword.default]) :
    BuildFile.Statement.readAfter word = .assignment <$> Binding.readValue word := by
  simp only [List.mem_cons, List.not_mem_nil, or_false, not_or] at other
  rw [BuildFile.Statement.readAfter, if_neg other.1, if_neg other.2.1, if_neg other.2.2]

/-- A word and a name behind it need a space between them. -/
theorem IsName.exists_gap {name : Name} (isName : IsName name) {n : Nat} {after : Bytes}
    (stops : Stops Byte.isIdentifier (spaces n ++ (name ++ after)).head?) :
    ∃ gap, n = gap + 1 := by
  cases n with
  | zero =>
      obtain ⟨b, first, isIdentifier⟩ := isName.head?
      rw [spaces_zero, List.nil_append, List.head?_append, first] at stops
      simp [isIdentifier] at stops
  | succ gap => exact ⟨gap, rfl⟩

theorem statement_of_readAfter {word : Name} {n : Nat} {start rest : Bytes}
    {content : BuildFile.Statement} (valid : IsName word)
    (stops : Stops Byte.isIdentifier (spaces n ++ start).head?)
    (h : BuildFile.Statement.readAfter word start = .done content rest) :
    ∃ statement : Statement, word ++ (spaces n ++ start) = statement.text ++ rest ∧
      statement.WellFormed ∧ statement.content = content := by
  by_cases keyword : word ∈ [Keyword.build, Keyword.rule, Keyword.default]
  · simp only [List.mem_cons, List.not_mem_nil, or_false] at keyword
    obtain rfl | rfl | rfl := keyword
    · rw [readAfter_build, map_eq_done_iff] at h
      obtain ⟨_, hline, rfl⟩ := h
      rw [← readBuildLine_spaces n, readBuildLine_eq_done_iff] at hline
      obtain ⟨line, same, wellFormed, rfl⟩ := hline
      have nonempty : line.text ≠ [] := by simp [BuildLine.text]
      rw [same, head?_append_of_ne_nil nonempty] at stops
      exact ⟨.build line, by rw [same, Statement.text, List.append_assoc], ⟨stops, wellFormed⟩, rfl⟩
    · rw [readAfter_rule, map_eq_done_iff] at h
      obtain ⟨name, hline, rfl⟩ := h
      obtain ⟨after, rfl, isName⟩ := readRuleLine_eq_done_iff.1 hline
      obtain ⟨gap, rfl⟩ := isName.exists_gap stops
      exact ⟨.rule gap name after, by simp [Statement.text], isName, rfl⟩
    · rw [readAfter_default, map_eq_done_iff] at h
      obtain ⟨_, hline, rfl⟩ := h
      obtain ⟨path, after, rfl, content, wellFormed, rfl⟩ := readDefaultLine_eq_done_iff.1 hline
      have nonempty := Spelling.text_ne_nil (Spelling.ne_nil_of_not_isBlank content)
      rw [head?_append_append nonempty] at stops
      exact ⟨.default n path after, by simp [Statement.text], ⟨stops, content, wellFormed⟩, rfl⟩
  · rw [readAfter_of_notMem keyword, map_eq_done_iff] at h
    obtain ⟨_, hvalue, rfl⟩ := h
    obtain ⟨after, value, rfl, wellFormed, rfl⟩ := readValue_eq_done_iff.1 hvalue
    exact ⟨.assignment ⟨word, n, after, value⟩, by simp [Statement.text, Assignment.text],
      ⟨⟨valid, wellFormed⟩, keyword⟩, rfl⟩

theorem readStatement_of_readAfter {word : Name} {n : Nat} {start rest : Bytes}
    {content : BuildFile.Statement} (valid : IsName word)
    (wordStops : Stops Byte.isIdentifier (spaces n ++ start).head?)
    (stops : Stops Byte.isSpace start.head?)
    (h : BuildFile.Statement.readAfter word start = .done content rest) :
    BuildFile.Statement.read (word ++ (spaces n ++ start)) = .done content rest := by
  simp only [BuildFile.Statement.read, bind_eq_done_iff, identifier_eq_done_iff, spaces_eq_done_iff]
  exact ⟨word, _, ⟨rfl, valid, wordStops⟩, (), start, ⟨n, rfl, stops⟩, h⟩

theorem readStatement_text {statement : Statement} (valid : statement.WellFormed) (rest : Bytes) :
    BuildFile.Statement.read (statement.text ++ rest) = .done statement.content rest := by
  cases statement with
  | assignment defined =>
      obtain ⟨name, before, after, value⟩ := defined
      obtain ⟨⟨isName, wellFormed⟩, other⟩ := valid
      simp only [Statement.text, Assignment.text, List.append_assoc, List.cons_append,
        List.nil_append]
      refine readStatement_of_readAfter isName (stops_isIdentifier_spaces before _ rfl) ?_ ?_
      · simp only [List.head?_cons, stops_some]
        rfl
      · rw [readAfter_of_notMem other, map_eq_done_iff]
        exact ⟨_, readValue_eq_done_iff.2 ⟨after, value, rfl, wellFormed, rfl⟩, rfl⟩
  | rule gap name after =>
      have isName : IsName name := valid
      simp only [Statement.text, List.append_assoc, List.singleton_append]
      refine readStatement_of_readAfter isName_rule ?_ (isName.stops_isSpace _) ?_
      · simp only [spaces_succ, List.cons_append, List.head?_cons, stops_some]
        rfl
      · rw [readAfter_rule, map_eq_done_iff]
        exact ⟨name, readRuleLine_eq_done_iff.2 ⟨after, rfl, isName⟩, rfl⟩
  | default gap path after =>
      obtain ⟨stops, content, wellFormed⟩ := valid
      have nonempty := Spelling.ne_nil_of_not_isBlank content
      rw [← head?_append_append (Spelling.text_ne_nil nonempty)] at stops
      simp only [Statement.text, List.append_assoc, List.singleton_append]
      have spaceStops := stops_isSpace_text wellFormed nonempty (spaces after ++ Byte.newline :: rest)
      apply readStatement_of_readAfter isName_default stops spaceStops
      rw [readAfter_default, map_eq_done_iff]
      exact ⟨_, readDefaultLine_eq_done_iff.2 ⟨path, after, rfl, content, wellFormed, rfl⟩, rfl⟩
  | build line =>
      obtain ⟨stops, wellFormed⟩ := valid
      -- The spaces behind the keyword are also the spaces in front of the first output.
      obtain ⟨n, same⟩ := exists_spaces (line.text ++ rest)
      have nonempty : line.text ≠ [] := by simp [BuildLine.text]
      have hline : BuildFile.BuildLine.read (line.text ++ rest) = .done line.content rest :=
        readBuildLine_eq_done_iff.2 ⟨line, rfl, wellFormed, rfl⟩
      rw [← head?_append_of_ne_nil nonempty rest] at stops
      rw [same] at stops hline
      rw [readBuildLine_spaces] at hline
      rw [Statement.text, List.append_assoc, same]
      apply readStatement_of_readAfter isName_build stops (stops_dropWhile _ _)
      rw [readAfter_build, map_eq_done_iff]
      exact ⟨_, hline, rfl⟩

/-- Statements are told apart by the names they start with, and each is read to its newline. -/
theorem readStatement_eq_done_iff {input rest : Bytes} {content : BuildFile.Statement} :
    BuildFile.Statement.read input = .done content rest ↔
      ∃ statement : Statement, input = statement.text ++ rest ∧ statement.WellFormed ∧
        statement.content = content := by
  constructor
  · intro h
    simp only [BuildFile.Statement.read, bind_eq_done_iff, identifier_eq_done_iff,
      spaces_eq_done_iff] at h
    obtain ⟨word, _, ⟨rfl, valid, stops⟩, _, start, ⟨n, rfl, -⟩, hafter⟩ := h
    exact statement_of_readAfter valid stops hafter
  · intro h
    obtain ⟨statement, rfl, valid, rfl⟩ := h
    exact readStatement_text valid rest

end BuildFile.Written
