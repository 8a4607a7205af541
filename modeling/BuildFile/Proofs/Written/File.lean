import BuildFile.Proofs.Written.Block

/-! # How a file is written

A file is a sequence of blank lines, comment lines and declarations. Each of them is read on
its own, and what is read of a file does not depend on what follows it, as long as the text
that follows is not indented.
-/

namespace BuildFile.Written

open Scan

inductive Element where
  | blank
  | comment (remark : Bytes)
  | declaration (statement : Statement) (block : Block)
  deriving Repr, DecidableEq

namespace Element

def text : Element → Bytes
  | .blank => [Byte.newline]
  | .comment remark => Byte.hash :: (remark ++ [Byte.newline])
  | .declaration statement block => statement.text ++ block.text

/-- Only rules and builds have lines in their block. -/
def WellFormed : Element → Prop
  | .blank => True
  | .comment remark => Byte.newline ∉ remark
  | .declaration statement block =>
      statement.WellFormed ∧ block.WellFormed ∧ (statement.content.opensBlock = false → block = [])

def declaration? : Element → Option Declaration
  | .blank | .comment _ => none
  | .declaration statement block => some ⟨statement.content, block.bindings⟩

end Element

abbrev File := List Element

namespace File

def text (file : File) : Bytes := file.flatMap Element.text

def declarations (file : File) : List Declaration := file.filterMap Element.declaration?

def WellFormed (file : File) : Prop := ∀ element ∈ file, element.WellFormed

@[simp]
theorem text_nil : text [] = [] := rfl

@[simp]
theorem text_cons (element : Element) (rest : File) :
    text (element :: rest) = element.text ++ text rest := rfl

@[simp]
theorem text_append (first second : File) : text (first ++ second) = text first ++ text second :=
  List.flatMap_append

@[simp]
theorem declarations_append (first second : File) :
    declarations (first ++ second) = declarations first ++ declarations second :=
  List.filterMap_append

theorem WellFormed.append {first second : File} (h : WellFormed first) (k : WellFormed second) :
    WellFormed (first ++ second) :=
  List.forall_mem_append.2 ⟨h, k⟩

end File

theorem Statement.exists_name {statement : Statement} (valid : statement.WellFormed) :
    ∃ name after, statement.text = name ++ after ∧ IsName name := by
  cases statement with
  | assignment defined => exact ⟨defined.name, _, rfl, valid.1.1⟩
  | rule => exact ⟨Keyword.rule, _, rfl, isName_rule⟩
  | default => exact ⟨Keyword.default, _, rfl, isName_default⟩
  | build => exact ⟨Keyword.build, _, rfl, isName_build⟩

/-- No element is indented, so a file that goes on does so with a line that is not. -/
theorem stops_isSpace_file {file : File} (valid : file.WellFormed) {rest : Bytes}
    (stops : Stops Byte.isSpace rest.head?) : Stops Byte.isSpace (file.text ++ rest).head? := by
  cases file with
  | nil => exact stops
  | cons element more =>
      have first := valid element (by simp)
      rw [File.text_cons, List.append_assoc]
      cases element with
      | blank => exact stops_isSpace_newline _
      | comment remark => exact stops_isSpace_hash _
      | declaration statement block =>
          obtain ⟨name, after, same, isName⟩ := Statement.exists_name first.1
          rw [Element.text, same, List.append_assoc, List.append_assoc]
          exact isName.stops_isSpace _

/-- A text at which a statement has to start. -/
def StartsStatement (start : Bytes) : Prop :=
  start ≠ [] ∧ start.head? ≠ some Byte.newline ∧ start.head? ≠ some Byte.hash

theorem fileSkip_blank (rest : Bytes) :
    BuildFile.Statement.skipLines (Byte.newline :: rest) = BuildFile.Statement.skipLines rest := by
  rw [BuildFile.Statement.skipLines, if_pos rfl]

theorem fileSkip_comment {remark : Bytes} (within : Byte.newline ∉ remark) (rest : Bytes) :
    BuildFile.Statement.skipLines (Byte.hash :: (remark ++ Byte.newline :: rest)) =
      BuildFile.Statement.skipLines rest := by
  have hcomment : comment (remark ++ Byte.newline :: rest) = .done () rest :=
    comment_eq_done_iff.2 ⟨remark, within, rfl⟩
  rw [BuildFile.Statement.skipLines, if_neg (by decide), if_pos rfl]
  split
  · next failed =>
    rw [hcomment] at failed
    cases failed
  · next done =>
    rw [hcomment] at done
    cases done
    rfl

theorem fileSkip_openComment {remark : Bytes} (within : Byte.newline ∉ remark) :
    BuildFile.Statement.skipLines (Byte.hash :: remark) = .failed .comment [] := by
  have hcomment := comment_eq_failed_iff.2 ⟨rfl, rfl, within⟩
  rw [BuildFile.Statement.skipLines, if_neg (by decide), if_pos rfl]
  split
  · next failed =>
    rw [hcomment] at failed
    cases failed
    rfl
  · next done =>
    rw [hcomment] at done
    cases done

theorem fileSkip_statement {start : Bytes} (h : StartsStatement start) :
    BuildFile.Statement.skipLines start = .done () start := by
  obtain ⟨nonempty, newline, hash⟩ := h
  cases start with
  | nil => exact absurd rfl nonempty
  | cons b rest =>
      simp only [List.head?_cons, ne_eq, Option.some.injEq] at newline hash
      rw [BuildFile.Statement.skipLines, if_neg newline, if_neg hash]

/-- Between the two texts stand blank lines and comments of a file. -/
def PassesTo (input rest : Bytes) : Prop :=
  ∃ file : File, input = file.text ++ rest ∧ file.WellFormed ∧ file.declarations = []

theorem PassesTo.refl (input : Bytes) : PassesTo input input :=
  ⟨[], rfl, by simp [File.WellFormed], rfl⟩

theorem PassesTo.element (element : Element) {input rest : Bytes} (valid : element.WellFormed)
    (empty : element.declaration? = none) (h : PassesTo input rest) :
    PassesTo (element.text ++ input) rest := by
  obtain ⟨file, rfl, wellFormed, nothing⟩ := h
  exact ⟨element :: file, by simp, List.forall_mem_cons.2 ⟨valid, wellFormed⟩,
    by simpa [File.declarations, empty] using nothing⟩

theorem PassesTo.skipLines_eq {input rest : Bytes} (h : PassesTo input rest) :
    BuildFile.Statement.skipLines input = BuildFile.Statement.skipLines rest := by
  obtain ⟨file, rfl, valid, empty⟩ := h
  induction file with
  | nil => rfl
  | cons element more ih =>
      obtain ⟨first, others⟩ := List.forall_mem_cons.1 valid
      rw [File.text_cons, List.append_assoc]
      cases element with
      | blank => exact (fileSkip_blank _).trans (ih others empty)
      | comment remark =>
          have passed := fileSkip_comment first (File.text more ++ rest)
          rw [← ih others empty, ← passed, Element.text, List.cons_append, List.append_assoc,
            List.singleton_append]
      | declaration statement block => cases empty

/-- Where the elements that do not count end: with the file, at a statement, or at a comment
    that is never closed. -/
inductive Pause : Bytes → Prop where
  | ended : Pause []
  | statement {start} (h : StartsStatement start) : Pause start
  | openComment {remark} (within : Byte.newline ∉ remark) : Pause (Byte.hash :: remark)

theorem exists_pause (input : Bytes) : ∃ rest, PassesTo input rest ∧ Pause rest := by
  induction size : input.length using Nat.strongRecOn generalizing input with
  | ind size ih =>
      subst size
      cases input with
      | nil => exact ⟨[], .refl _, .ended⟩
      | cons b behind =>
          by_cases newline : b = Byte.newline
          · obtain ⟨left, passes, pause⟩ := ih behind.length (by simp) behind rfl
            exact ⟨left, newline ▸ passes.element .blank trivial rfl, pause⟩
          · by_cases hash : b = Byte.hash
            · subst hash
              by_cases within : Byte.newline ∈ behind
              · obtain ⟨remark, rest, rfl, first⟩ := List.eq_append_cons_of_mem within
                obtain ⟨left, passes, pause⟩ := ih rest.length (by simp; omega) rest rfl
                refine ⟨left, ?_, pause⟩
                simpa [Element.text] using passes.element (.comment remark) first rfl
              · exact ⟨_, .refl _, .openComment within⟩
            · exact ⟨_, .refl _, .statement ⟨by simp, by simpa using newline, by simpa using hash⟩⟩

theorem PassesTo.readNext_eq {input rest : Bytes} (h : PassesTo input rest) :
    BuildFile.Statement.readNext input = BuildFile.Statement.readNext rest :=
  bind_reader_congr h.skipLines_eq

theorem readStatement_ended : BuildFile.Statement.readNext [] = .done none [] := by
  have passed : BuildFile.Statement.skipLines [] = .done () [] := by
    rw [BuildFile.Statement.skipLines]
  exact bind_of_done passed _

theorem readStatement_start {start : Bytes} (h : StartsStatement start) :
    BuildFile.Statement.readNext start = (some <$> BuildFile.Statement.read) start := by
  cases start with
  | nil => exact absurd rfl h.1
  | cons b rest => exact bind_of_done (fileSkip_statement h) _

theorem readStatement_openComment {remark : Bytes} (within : Byte.newline ∉ remark) :
    BuildFile.Statement.readNext (Byte.hash :: remark) = .failed .comment [] :=
  bind_of_failed (fileSkip_openComment within) _

theorem IsName.startsStatement {name : Name} (h : IsName name) (after : Bytes) :
    StartsStatement (name ++ after) := by
  obtain ⟨-, newline, hash⟩ := h.startsDefinition after
  exact ⟨by simp [h.1], newline, hash⟩

theorem passesTo_of_readStatement {input rest : Bytes}
    (h : BuildFile.Statement.readNext input = .done none rest) : PassesTo input [] ∧ rest = [] := by
  obtain ⟨left, passes, pause⟩ := exists_pause input
  rw [passes.readNext_eq] at h
  cases pause with
  | ended =>
      rw [readStatement_ended] at h
      cases h
      exact ⟨passes, rfl⟩
  | statement start =>
      rw [readStatement_start start, map_eq_done_iff] at h
      obtain ⟨_, -, same⟩ := h
      cases same
  | openComment within =>
      rw [readStatement_openComment within] at h
      cases h

theorem statement_of_readNext {input rest : Bytes} {content : BuildFile.Statement}
    (h : BuildFile.Statement.readNext input = .done (some content) rest) :
    ∃ statement : Statement, PassesTo input (statement.text ++ rest) ∧ statement.WellFormed ∧
      statement.content = content := by
  obtain ⟨left, passes, pause⟩ := exists_pause input
  rw [passes.readNext_eq] at h
  cases pause with
  | ended =>
      rw [readStatement_ended] at h
      cases h
  | statement start =>
      rw [readStatement_start start, map_eq_done_iff] at h
      obtain ⟨_, hread, same⟩ := h
      cases same
      obtain ⟨statement, rfl, valid, rfl⟩ := readStatement_eq_done_iff.1 hread
      exact ⟨statement, passes, valid, rfl⟩
  | openComment within =>
      rw [readStatement_openComment within] at h
      cases h

theorem readStatement_next {statement : Statement} (valid : statement.WellFormed) (rest : Bytes) :
    BuildFile.Statement.readNext (statement.text ++ rest) =
      .done (some statement.content) rest := by
  obtain ⟨name, after, same, isName⟩ := Statement.exists_name valid
  have starts : StartsStatement (statement.text ++ rest) := by
    rw [same, List.append_assoc]
    exact isName.startsStatement _
  rw [readStatement_start starts, map_eq_done_iff]
  exact ⟨_, readStatement_text valid rest, rfl⟩

theorem readBlock_of_opensBlock {content : BuildFile.Statement} (h : content.opensBlock = true) :
    content.readBlock = Binding.readBlock := by
  cases content with
  | rule | build => rfl
  | assignment | default => cases h

theorem readBlock_of_not_opensBlock {content : BuildFile.Statement}
    (h : content.opensBlock = false) : content.readBlock = pure [] := by
  rw [BuildFile.Statement.readBlock, h]
  rfl

theorem readDeclaration_text {statement : Statement} {block : Block} {rest : Bytes}
    (valid : (Element.declaration statement block).WellFormed)
    (stops : Stops Byte.isSpace rest.head?) :
    Declaration.readNext ((Element.declaration statement block).text ++ rest) =
      .done (some ⟨statement.content, block.bindings⟩) rest := by
  obtain ⟨wellFormed, lines, empty⟩ := valid
  have hblock : statement.content.readBlock (block.text ++ rest) = .done block.bindings rest := by
    cases opens : statement.content.opensBlock with
    | true =>
        rw [readBlock_of_opensBlock opens]
        exact readBlock_text lines stops
    | false =>
        rw [readBlock_of_not_opensBlock opens, empty opens]
        rfl
  rw [Element.text, List.append_assoc]
  refine bind_eq_done_iff.2 ⟨_, _, readStatement_next wellFormed _, ?_⟩
  refine map_eq_done_iff.2 ⟨_, ?_, rfl⟩
  exact bind_eq_done_iff.2 ⟨_, _, hblock, rfl⟩

theorem passesTo_of_readDeclaration {input rest : Bytes}
    (h : Declaration.readNext input = .done none rest) : PassesTo input [] ∧ rest = [] := by
  obtain ⟨found, behind, hstatement, h⟩ := bind_eq_done_iff.1 h
  cases found with
  | none =>
      cases h
      exact passesTo_of_readStatement hstatement
  | some content =>
      obtain ⟨_, -, same⟩ := map_eq_done_iff.1 h
      cases same

theorem file_of_readDeclaration {input rest : Bytes} {declaration : Declaration}
    (h : Declaration.readNext input = .done (some declaration) rest) :
    ∃ file : File, input = file.text ++ rest ∧ file.WellFormed ∧
      file.declarations = [declaration] := by
  obtain ⟨found, behind, hstatement, h⟩ := bind_eq_done_iff.1 h
  cases found with
  | none => cases h
  | some content =>
      obtain ⟨_, hof, same⟩ := map_eq_done_iff.1 h
      cases same
      obtain ⟨bindings, left, hblock, done⟩ := bind_eq_done_iff.1 hof
      cases done
      obtain ⟨statement, ⟨file, rfl, valid, nothing⟩, wellFormed, rfl⟩ :=
        statement_of_readNext hstatement
      have written : ∃ block : Block, behind = block.text ++ rest ∧ block.WellFormed ∧
          (statement.content.opensBlock = false → block = []) ∧ block.bindings = bindings := by
        cases opens : statement.content.opensBlock with
        | true =>
            rw [readBlock_of_opensBlock opens] at hblock
            obtain ⟨block, rfl, lines, -, rfl⟩ := readBlock_eq_done_iff.1 hblock
            exact ⟨block, rfl, lines, by simp, rfl⟩
        | false =>
            rw [readBlock_of_not_opensBlock opens] at hblock
            cases hblock
            exact ⟨[], rfl, by simp [Block.WellFormed], by simp, rfl⟩
      obtain ⟨block, rfl, lines, empty, rfl⟩ := written
      refine ⟨file ++ [.declaration statement block], ?_, ?_, ?_⟩
      · simp [Element.text]
      · exact valid.append (by simpa [File.WellFormed] using ⟨wellFormed, lines, empty⟩)
      · rw [File.declarations_append, nothing]
        rfl

theorem readDocument_none {input rest : Bytes} (h : Declaration.readNext input = .done none rest) :
    Document.read input = {} := by
  rw [Document.read]
  split <;> simp_all

theorem readDocument_failed {input rest : Bytes} {expected : Expected}
    (h : Declaration.readNext input = .failed expected rest) :
    Document.read input = { failure := some { expected, rest } } := by
  rw [Document.read]
  split <;> simp_all

theorem readDocument_some {input rest : Bytes} {declaration : Declaration}
    (h : Declaration.readNext input = .done (some declaration) rest) :
    Document.read input = { Document.read rest with
      declarations := declaration :: (Document.read rest).declarations } := by
  rw [Document.read]
  split <;> simp_all

theorem PassesTo.readDocument_eq {input rest : Bytes} (h : PassesTo input rest) :
    Document.read input = Document.read rest := by
  have same : Declaration.readNext input = Declaration.readNext rest :=
    bind_reader_congr h.readNext_eq
  cases next : Declaration.readNext rest with
  | failed expected left => rw [readDocument_failed next, readDocument_failed (same.trans next)]
  | done found left =>
      cases found with
      | none => rw [readDocument_none next, readDocument_none (same.trans next)]
      | some declaration => rw [readDocument_some next, readDocument_some (same.trans next)]

/-- What is written in a file is read from it, and reading goes on with what follows. -/
theorem readDocument_text {file : File} {rest : Bytes} (valid : file.WellFormed)
    (stops : Stops Byte.isSpace rest.head?) :
    Document.read (file.text ++ rest) = { Document.read rest with
      declarations := file.declarations ++ (Document.read rest).declarations } := by
  induction file with
  | nil => rfl
  | cons element more ih =>
      obtain ⟨first, others⟩ := List.forall_mem_cons.1 valid
      have hmore := ih others
      rw [File.text_cons, List.append_assoc]
      cases element with
      | blank =>
          rw [((PassesTo.refl _).element .blank first rfl).readDocument_eq, hmore]
          rfl
      | comment remark =>
          rw [((PassesTo.refl _).element (.comment remark) first rfl).readDocument_eq, hmore]
          rfl
      | declaration statement block =>
          have hfirst := readDeclaration_text first (stops_isSpace_file others stops)
          rw [readDocument_some hfirst, hmore]
          rfl

/-- Every file that is read to its end is written as a sequence of elements. -/
theorem file_of_readDocument (input : Bytes) (h : (Document.read input).failure = none) :
    ∃ file : File, input = file.text ∧ file.WellFormed ∧
      file.declarations = (Document.read input).declarations := by
  fun_induction Document.read input with
  | case1 => cases h
  | case2 input rest hread =>
      obtain ⟨⟨file, same, valid, nothing⟩, -⟩ := passesTo_of_readDeclaration hread
      exact ⟨file, by simpa using same, valid, nothing⟩
  | case3 input declaration rest hread document ih =>
      obtain ⟨file, rfl, valid, same⟩ := ih h
      obtain ⟨front, rfl, wellFormed, one⟩ := file_of_readDeclaration hread
      exact ⟨front ++ file, by simp, wellFormed.append valid, by simp [one, same, document]⟩

end BuildFile.Written
