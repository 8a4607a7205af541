import BuildFile.Document
import BuildFile.Proofs.Written.Statement

/-! # How a block is written

A block goes on for as long as lines are indented. Its lines are blank, hold a comment or
define a variable; only the last kind counts. Nothing but the indentation tells where a block
ends, so what follows must not start with a space.
-/

namespace BuildFile.Written

open Scan

/-- A line of a block, with the number of its spaces after the first. -/
inductive BlockLine where
  | blank (indent : Nat)
  | comment (indent : Nat) (remark : Bytes)
  | binding (indent : Nat) (defined : Assignment)
  deriving Repr, DecidableEq

namespace BlockLine

def text : BlockLine → Bytes
  | .blank indent => spaces (indent + 1) ++ [Byte.newline]
  | .comment indent remark => spaces (indent + 1) ++ Byte.hash :: (remark ++ [Byte.newline])
  | .binding indent defined => spaces (indent + 1) ++ defined.text

def WellFormed : BlockLine → Prop
  | .blank _ => True
  | .comment _ remark => Byte.newline ∉ remark
  | .binding _ defined => defined.WellFormed

def binding? : BlockLine → Option Binding
  | .blank _ | .comment _ _ => none
  | .binding _ defined => some defined.binding

end BlockLine

abbrev Block := List BlockLine

namespace Block

def text (block : Block) : Bytes := block.flatMap BlockLine.text

def bindings (block : Block) : List Binding := block.filterMap BlockLine.binding?

def WellFormed (block : Block) : Prop := ∀ line ∈ block, line.WellFormed

@[simp]
theorem text_nil : text [] = [] := rfl

@[simp]
theorem text_cons (line : BlockLine) (rest : Block) :
    text (line :: rest) = line.text ++ text rest := rfl

@[simp]
theorem text_append (first second : Block) : text (first ++ second) = text first ++ text second :=
  List.flatMap_append

@[simp]
theorem bindings_append (first second : Block) :
    bindings (first ++ second) = bindings first ++ bindings second :=
  List.filterMap_append

theorem WellFormed.append {first second : Block} (h : WellFormed first) (k : WellFormed second) :
    WellFormed (first ++ second) :=
  List.forall_mem_append.2 ⟨h, k⟩

end Block

theorem blockSkip_stops {input : Bytes} (stops : Stops Byte.isSpace input.head?) :
    Binding.skipLines input = .done false input := by
  cases input with
  | nil => rw [Binding.skipLines]
  | cons b rest =>
      have other : b ≠ Byte.space := by simpa [Byte.isSpace] using stops
      rw [Binding.skipLines, if_neg other]

theorem blockSkip_blank (n : Nat) (rest : Bytes) :
    Binding.skipLines ((BlockLine.blank n).text ++ rest) = Binding.skipLines rest := by
  have indented := dropWhile_spaces n (stops_isSpace_newline rest)
  simp only [BlockLine.text, spaces_succ, List.cons_append, List.append_assoc, List.nil_append]
  rw [Binding.skipLines, if_pos rfl]
  split
  · next h =>
    rw [indented] at h
    cases h
  · next h =>
    rw [indented] at h
    cases h
    rw [if_pos rfl]

theorem stops_isSpace_hash (rest : Bytes) : Stops Byte.isSpace (Byte.hash :: rest).head? := by
  simp only [List.head?_cons, stops_some]
  rfl

theorem blockSkip_comment (n : Nat) {remark : Bytes} (within : Byte.newline ∉ remark)
    (rest : Bytes) :
    Binding.skipLines ((BlockLine.comment n remark).text ++ rest) = Binding.skipLines rest := by
  have indented := dropWhile_spaces n (stops_isSpace_hash (remark ++ Byte.newline :: rest))
  have hcomment : comment (remark ++ Byte.newline :: rest) = .done () rest :=
    comment_eq_done_iff.2 ⟨remark, within, rfl⟩
  simp only [BlockLine.text, spaces_succ, List.cons_append, List.append_assoc, List.nil_append]
  rw [Binding.skipLines, if_pos rfl]
  split
  · next h =>
    rw [indented] at h
    cases h
  · next h =>
    rw [indented] at h
    cases h
    rw [if_neg (by decide), if_pos rfl]
    split
    · next failed =>
      rw [hcomment] at failed
      cases failed
    · next done =>
      rw [hcomment] at done
      cases done
      rfl

/-- The first byte of a definition in a block, or what should be one. -/
def StartsDefinition (start : Bytes) : Prop :=
  Stops Byte.isSpace start.head? ∧ start.head? ≠ some Byte.newline ∧ start.head? ≠ some Byte.hash

theorem IsName.startsDefinition {name : Name} (h : IsName name) (after : Bytes) :
    StartsDefinition (name ++ after) := by
  obtain ⟨b, head, isIdentifier⟩ := h.head?
  refine ⟨h.stops_isSpace after, ?_, ?_⟩
  all_goals
    rw [List.head?_append, head, Option.some_or, Ne, Option.some_inj]
    rintro rfl
    exact absurd isIdentifier (by decide)

theorem blockSkip_indented (n : Nat) {start : Bytes} (h : StartsDefinition start) :
    Binding.skipLines (spaces (n + 1) ++ start) = .done true start := by
  obtain ⟨stops, newline, hash⟩ := h
  have indented := dropWhile_spaces n stops
  rw [spaces_succ, List.cons_append, Binding.skipLines, if_pos rfl]
  split
  · next h =>
    rw [indented] at h
    rw [h]
  · next c line h =>
    rw [indented] at h
    subst h
    simp only [List.head?_cons, ne_eq, Option.some.injEq] at newline hash
    rw [if_neg newline, if_neg hash]

theorem blockSkip_openComment (n : Nat) {remark : Bytes} (within : Byte.newline ∉ remark) :
    Binding.skipLines (spaces (n + 1) ++ Byte.hash :: remark) = .failed .comment [] := by
  have indented := dropWhile_spaces n (stops_isSpace_hash remark)
  have hcomment := comment_eq_failed_iff.2 ⟨rfl, rfl, within⟩
  rw [spaces_succ, List.cons_append, Binding.skipLines, if_pos rfl]
  split
  · next h =>
    rw [indented] at h
    cases h
  · next h =>
    rw [indented] at h
    cases h
    rw [if_neg (by decide), if_pos rfl]
    split
    · next failed =>
      rw [hcomment] at failed
      cases failed
      rfl
    · next done =>
      rw [hcomment] at done
      cases done

/-- Between the two texts stand lines of a block that do not count. -/
def SkipsTo (input rest : Bytes) : Prop :=
  ∃ block : Block, input = block.text ++ rest ∧ block.WellFormed ∧ block.bindings = []

theorem SkipsTo.refl (input : Bytes) : SkipsTo input input :=
  ⟨[], rfl, by simp [Block.WellFormed], rfl⟩

theorem SkipsTo.line (line : BlockLine) {input rest : Bytes} (valid : line.WellFormed)
    (empty : line.binding? = none) (h : SkipsTo input rest) :
    SkipsTo (line.text ++ input) rest := by
  obtain ⟨block, rfl, wellFormed, nothing⟩ := h
  exact ⟨line :: block, by simp, List.forall_mem_cons.2 ⟨valid, wellFormed⟩,
    by simpa [Block.bindings, empty] using nothing⟩

theorem SkipsTo.skipLines_eq {input rest : Bytes} (h : SkipsTo input rest) :
    Binding.skipLines input = Binding.skipLines rest := by
  obtain ⟨block, rfl, valid, empty⟩ := h
  induction block with
  | nil => rfl
  | cons line more ih =>
      obtain ⟨first, others⟩ := List.forall_mem_cons.1 valid
      rw [Block.text_cons, List.append_assoc]
      cases line with
      | blank n => rw [blockSkip_blank, ih others empty]
      | comment n remark => rw [blockSkip_comment n first, ih others empty]
      | binding n defined => cases empty

/-- Where the lines that do not count end: at a line that is not indented, at an indented
    definition, or at a comment that is never closed. -/
inductive Halt : Bytes → Prop where
  | unindented {rest} (stops : Stops Byte.isSpace rest.head?) : Halt rest
  | definition (n : Nat) {start} (h : StartsDefinition start) : Halt (spaces (n + 1) ++ start)
  | openComment (n : Nat) {remark} (within : Byte.newline ∉ remark) :
      Halt (spaces (n + 1) ++ Byte.hash :: remark)

theorem exists_halt (input : Bytes) : ∃ rest, SkipsTo input rest ∧ Halt rest := by
  -- On the length: a blank line or a comment leaves a shorter text behind it.
  induction size : input.length using Nat.strongRecOn generalizing input with
  | ind size ih =>
      subst size
      obtain ⟨n, same⟩ := exists_spaces input
      have stops := stops_dropWhile Byte.isSpace input
      generalize input.dropWhile Byte.isSpace = start at same stops
      subst same
      cases n with
      | zero => exact ⟨start, .refl _, .unindented stops⟩
      | succ n =>
          by_cases newline : ∃ rest, start = Byte.newline :: rest
          · obtain ⟨rest, rfl⟩ := newline
            obtain ⟨left, skips, halt⟩ := ih rest.length (by simp; omega) rest rfl
            refine ⟨left, ?_, halt⟩
            simpa [BlockLine.text] using skips.line (.blank n) trivial rfl
          · by_cases hash : ∃ rest, start = Byte.hash :: rest
            · obtain ⟨behind, rfl⟩ := hash
              by_cases within : Byte.newline ∈ behind
              · obtain ⟨remark, rest, rfl, first⟩ := List.eq_append_cons_of_mem within
                obtain ⟨left, skips, halt⟩ := ih rest.length (by simp; omega) rest rfl
                refine ⟨left, ?_, halt⟩
                simpa [BlockLine.text] using skips.line (.comment n remark) first rfl
              · exact ⟨_, .refl _, .openComment n within⟩
            · refine ⟨_, .refl _, .definition n ⟨stops, ?_, ?_⟩⟩
              · cases start <;> simp_all
              · cases start <;> simp_all

theorem readNext_of_skipLines {input rest : Bytes} (h : Binding.skipLines input = .done true rest) :
    Binding.readNext input = (some <$> Binding.read) rest :=
  bind_of_done h _

theorem readNext_of_skipLines_false {input rest : Bytes}
    (h : Binding.skipLines input = .done false rest) : Binding.readNext input = .done none rest :=
  bind_of_done h _

theorem readNext_of_skipLines_failed {input rest : Bytes} {expected : Expected}
    (h : Binding.skipLines input = .failed expected rest) :
    Binding.readNext input = .failed expected rest :=
  bind_of_failed h _

theorem SkipsTo.readNext_eq {input rest : Bytes} (h : SkipsTo input rest) :
    Binding.readNext input = Binding.readNext rest :=
  bind_reader_congr h.skipLines_eq

theorem readBlock_none {input rest : Bytes} (h : Binding.readNext input = .done none rest) :
    Binding.readBlock input = .done [] rest := by
  rw [Binding.readBlock]
  split <;> simp_all

theorem readBlock_failed {input rest : Bytes} {expected : Expected}
    (h : Binding.readNext input = .failed expected rest) :
    Binding.readBlock input = .failed expected rest := by
  rw [Binding.readBlock]
  split <;> simp_all

theorem readBlock_some {input rest : Bytes} {binding : Binding}
    (h : Binding.readNext input = .done (some binding) rest) :
    Binding.readBlock input =
      match Binding.readBlock rest with
      | .failed expected rest => .failed expected rest
      | .done bindings rest => .done (binding :: bindings) rest := by
  rw [Binding.readBlock]
  split
  · simp_all
  · simp_all
  · next same =>
    rw [h] at same
    cases same
    cases Binding.readBlock rest <;> rfl

/-- One step of reading a block. -/
theorem readBlock_eq :
    Binding.readBlock = (do
      match ← Binding.readNext with
      | none => return []
      | some binding =>
          let bindings ← (Binding.readBlock : Scan (List Binding))
          return binding :: bindings : Scan (List Binding)) := by
  funext input
  cases next : Binding.readNext input with
  | failed expected rest => rw [readBlock_failed next, bind_of_failed next]
  | done found rest =>
      rw [bind_of_done next]
      cases found with
      | none => exact readBlock_none next
      | some binding =>
          rw [readBlock_some next]
          let join (bindings : List Binding) : Scan (List Binding) := return binding :: bindings
          cases hblock : Binding.readBlock rest with
          | done bindings left => exact (bind_of_done hblock join).symm
          | failed expected left => exact (bind_of_failed hblock join).symm

theorem SkipsTo.readBlock_eq {input rest : Bytes} (h : SkipsTo input rest) :
    Binding.readBlock input = Binding.readBlock rest := by
  have same := h.readNext_eq
  cases next : Binding.readNext rest with
  | failed expected left => rw [readBlock_failed next, readBlock_failed (same.trans next)]
  | done found left =>
      cases found with
      | none => rw [readBlock_none next, readBlock_none (same.trans next)]
      | some binding => rw [readBlock_some next, readBlock_some (same.trans next)]

theorem readNext_binding (n : Nat) {defined : Assignment} (valid : defined.WellFormed)
    (rest : Bytes) :
    Binding.readNext ((BlockLine.binding n defined).text ++ rest) =
      .done (some defined.binding) rest := by
  have start : StartsDefinition (defined.text ++ rest) := by
    rw [Assignment.text, List.append_assoc]
    exact valid.1.startsDefinition _
  rw [BlockLine.text, List.append_assoc, readNext_of_skipLines (blockSkip_indented n start),
    map_eq_done_iff]
  exact ⟨_, readBinding_eq_done_iff.2 ⟨defined, rfl, valid, rfl⟩, rfl⟩

theorem readBlock_text {block : Block} {rest : Bytes} (valid : block.WellFormed)
    (stops : Stops Byte.isSpace rest.head?) :
    Binding.readBlock (block.text ++ rest) = .done block.bindings rest := by
  induction block with
  | nil => exact readBlock_none (readNext_of_skipLines_false (blockSkip_stops stops))
  | cons line more ih =>
      obtain ⟨first, others⟩ := List.forall_mem_cons.1 valid
      have hmore := ih others
      rw [Block.text_cons, List.append_assoc]
      cases line with
      | blank n => rw [((SkipsTo.refl _).line (.blank n) first rfl).readBlock_eq, hmore]; rfl
      | comment n remark =>
          rw [((SkipsTo.refl _).line (.comment n remark) first rfl).readBlock_eq, hmore]; rfl
      | binding n defined => rw [readBlock_some (readNext_binding n first _), hmore]; rfl

theorem skipsTo_of_readNext {input rest : Bytes} (h : Binding.readNext input = .done none rest) :
    SkipsTo input rest ∧ Stops Byte.isSpace rest.head? := by
  obtain ⟨left, skips, halt⟩ := exists_halt input
  rw [skips.readNext_eq] at h
  cases halt with
  | unindented stops =>
      rw [readNext_of_skipLines_false (blockSkip_stops stops)] at h
      cases h
      exact ⟨skips, stops⟩
  | definition n start =>
      rw [readNext_of_skipLines (blockSkip_indented n start), map_eq_done_iff] at h
      obtain ⟨_, -, same⟩ := h
      cases same
  | openComment n within =>
      rw [readNext_of_skipLines_failed (blockSkip_openComment n within)] at h
      cases h

theorem binding_of_readNext {input rest : Bytes} {binding : Binding}
    (h : Binding.readNext input = .done (some binding) rest) :
    ∃ (n : Nat) (defined : Assignment),
      SkipsTo input ((BlockLine.binding n defined).text ++ rest) ∧ defined.WellFormed ∧
        defined.binding = binding := by
  obtain ⟨left, skips, halt⟩ := exists_halt input
  rw [skips.readNext_eq] at h
  cases halt with
  | unindented stops =>
      rw [readNext_of_skipLines_false (blockSkip_stops stops)] at h
      cases h
  | definition n start =>
      rw [readNext_of_skipLines (blockSkip_indented n start), map_eq_done_iff] at h
      obtain ⟨_, hread, same⟩ := h
      cases same
      obtain ⟨defined, rfl, valid, rfl⟩ := readBinding_eq_done_iff.1 hread
      exact ⟨n, defined, by rwa [BlockLine.text, List.append_assoc], valid, rfl⟩
  | openComment n within =>
      rw [readNext_of_skipLines_failed (blockSkip_openComment n within)] at h
      cases h

theorem block_of_readBlock (input : Bytes) :
    ∀ {bindings rest}, Binding.readBlock input = .done bindings rest →
      ∃ block : Block, input = block.text ++ rest ∧ block.WellFormed ∧
        Stops Byte.isSpace rest.head? ∧ block.bindings = bindings := by
  fun_induction Binding.readBlock input with
  | case1 | case3 => simp
  | case2 input rest hread =>
      intro _ _ h
      cases h
      obtain ⟨⟨block, same, valid, empty⟩, stops⟩ := skipsTo_of_readNext hread
      exact ⟨block, same, valid, stops, empty⟩
  | case4 input binding rest hread bindings left hblock ih =>
      intro _ _ h
      cases h
      obtain ⟨n, defined, ⟨block, same, valid, empty⟩, wellFormed, rfl⟩ := binding_of_readNext hread
      obtain ⟨more, rfl, others, stops, rfl⟩ := ih hblock
      refine ⟨block ++ .binding n defined :: more, ?_, ?_, stops, ?_⟩
      · rw [same, Block.text_append, Block.text_cons, List.append_assoc, List.append_assoc]
      · exact valid.append (List.forall_mem_cons.2 ⟨wellFormed, others⟩)
      · rw [Block.bindings_append, empty]
        rfl

/-- A block is read up to the first line that is not indented. -/
theorem readBlock_eq_done_iff {input rest : Bytes} {bindings : List Binding} :
    Binding.readBlock input = .done bindings rest ↔
      ∃ block : Block, input = block.text ++ rest ∧ block.WellFormed ∧
        Stops Byte.isSpace rest.head? ∧ block.bindings = bindings := by
  constructor
  · exact block_of_readBlock input
  · intro h
    obtain ⟨block, rfl, valid, stops, rfl⟩ := h
    exact readBlock_text valid stops

end BuildFile.Written
