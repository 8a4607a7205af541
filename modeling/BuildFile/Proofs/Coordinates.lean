import BuildFile.Proofs.Lines
import Mathlib.Algebra.Order.BigOperators.Group.List
import Mathlib.Algebra.Order.Group.Nat
import Mathlib.Algebra.Ring.Nat
import Mathlib.Data.Set.Function

/-! # Locations as coordinates

Lines and columns are coordinates of offsets: an offset is the start of its line and the bytes in
front of it in this line, and it can be computed from its location. Every line, and in it every
column up to the one behind its last byte, is the location of one offset, and locations are in the
order of their offsets.
-/

namespace BuildFile

theorem length_linesText (lines : List Bytes) :
    (linesText lines).length = (lines.map (·.length + 1)).sum := by
  simp [linesText, List.length_flatMap]

/-- With a newline at its end, a text is the lines that it is split into. -/
theorem linesText_splitOn (text : Bytes) :
    linesText (text.splitOn Byte.newline) = text ++ [Byte.newline] := by
  obtain ⟨above, free, -, same⟩ := Location.exists_above text
  have last : Byte.newline ∉ (text.reverse.takeWhile Location.isWithinLine).reverse := by
    rw [List.mem_reverse]
    exact Location.notMem_of_isWithinLine fun _ => List.mem_takeWhile_imp
  conv => lhs; rw [same]
  rw [splitOn_linesText_append free, List.splitOn_eq_singleton last, linesText_concat, ← same]

namespace Location

/-- One location stands in front of another: in a line above, or in the same line further left. -/
def Before (first second : Location) : Prop :=
  first.line < second.line ∨ first.line = second.line ∧ first.column < second.column

/-- The location is one of a text of given lines: there is such a line, and the column is that of
    one of its bytes, or the one behind them. -/
structure IsIn (location : Location) (lines : List Bytes) : Prop where
  line_pos : 1 ≤ location.line
  line_le : location.line ≤ lines.length
  column_pos : 1 ≤ location.column
  column_le : ∀ line, lines[location.line - 1]? = some line → location.column ≤ line.length + 1

/-- The offset at which the line of an index starts, where lines are counted from zero. -/
def lineStart (lines : List Bytes) (index : Nat) : Nat :=
  ((lines.take index).map (·.length + 1)).sum

/-- The offset of a location in a text of given lines. -/
def offsetIn (location : Location) (lines : List Bytes) : Nat :=
  lineStart lines (location.line - 1) + (location.column - 1)

variable {lines : List Bytes} {first second : Location}

theorem lineStart_succ {index : Nat} {line : Bytes} (found : lines[index]? = some line) :
    lineStart lines (index + 1) = lineStart lines index + (line.length + 1) := by
  simp [lineStart, List.take_add_one, found]

theorem lineStart_le {index later : Nat} (h : index ≤ later) :
    lineStart lines index ≤ lineStart lines later :=
  ((List.take_sublist_take_left h).map _).sum_le_sum fun _ _ => Nat.zero_le _

/-- A location is one of the part of the text that ends with its line. -/
theorem IsIn.offsetIn_lt (h : first.IsIn lines) :
    first.offsetIn lines < lineStart lines first.line := by
  obtain ⟨line, found⟩ : ∃ line, lines[first.line - 1]? = some line :=
    ⟨_, List.getElem?_eq_getElem (by have := h.line_pos; have := h.line_le; omega)⟩
  have next := lineStart_succ found
  rw [Nat.sub_add_cancel h.line_pos] at next
  have := h.column_pos
  have := h.column_le line found
  rw [offsetIn]
  omega

theorem Before.offsetIn_lt (before : first.Before second) (h : first.IsIn lines) :
    first.offsetIn lines < second.offsetIn lines := by
  rcases before with above | ⟨same, left⟩
  · calc first.offsetIn lines
        < lineStart lines first.line := h.offsetIn_lt
      _ ≤ lineStart lines (second.line - 1) := lineStart_le (by omega)
      _ ≤ second.offsetIn lines := Nat.le_add_right _ _
  · have := h.column_pos
    simp only [offsetIn, same]
    omega

theorem before_or_eq_or_before (first second : Location) :
    first.Before second ∨ first = second ∨ second.Before first := by
  rcases first with ⟨line, column⟩
  rcases second with ⟨otherLine, otherColumn⟩
  simp only [Before, mk.injEq]
  omega

theorem before_iff_offsetIn_lt (inFirst : first.IsIn lines) (inSecond : second.IsIn lines) :
    first.Before second ↔ first.offsetIn lines < second.offsetIn lines := by
  refine ⟨fun before => before.offsetIn_lt inFirst, fun less => ?_⟩
  rcases before_or_eq_or_before first second with before | rfl | after
  · exact before
  · exact absurd less (lt_irrefl _)
  · exact absurd (after.offsetIn_lt inSecond) less.not_gt

theorem eq_of_offsetIn_eq (inFirst : first.IsIn lines) (inSecond : second.IsIn lines)
    (same : first.offsetIn lines = second.offsetIn lines) : first = second := by
  rcases before_or_eq_or_before first second with before | same | after
  · exact absurd same (before.offsetIn_lt inFirst).ne
  · exact same
  · exact absurd same (after.offsetIn_lt inSecond).ne'

/-- The offset of a location is within the text, or at its end. -/
theorem IsIn.offsetIn_le {text : Bytes} (h : first.IsIn (text.splitOn Byte.newline)) :
    first.offsetIn (text.splitOn Byte.newline) ≤ text.length := by
  have whole : lineStart (text.splitOn Byte.newline) (text.splitOn Byte.newline).length =
      text.length + 1 := by
    rw [lineStart, List.take_length, ← length_linesText, linesText_splitOn, List.length_append]
    rfl
  have below : lineStart (text.splitOn Byte.newline) first.line ≤ text.length + 1 :=
    whole ▸ lineStart_le h.line_le
  have := h.offsetIn_lt
  omega

variable {text : Bytes}

theorem Around.getElem?_above {offset : Nat} {above below : List Bytes}
    (around : Around text offset above below) :
    (text.splitOn Byte.newline)[above.length]? = some (lineAt text offset) := by
  simp [around.splitOn_eq]

theorem Around.lineStart_above {offset : Nat} {above below : List Bytes}
    (around : Around text offset above below) :
    lineStart (text.splitOn Byte.newline) above.length + (lineBefore text offset).length =
      min offset text.length := by
  have taken := congrArg List.length around.take_eq
  rw [List.length_append, length_linesText, List.length_take] at taken
  rw [taken, lineStart, around.splitOn_eq, List.take_left]

theorem getElem?_line_of (small : text.length < limit) (offset : Nat) :
    (text.splitOn Byte.newline)[(of text offset).line - 1]? = some (lineAt text offset) := by
  obtain ⟨above, below, around⟩ := exists_around text offset
  rw [of_eq small, ← around.length_above]
  exact around.getElem?_above

theorem isIn_of (small : text.length < limit) (offset : Nat) :
    (of text offset).IsIn (text.splitOn Byte.newline) := by
  have found := getElem?_line_of small offset
  have line : (of text offset).line - 1 < (text.splitOn Byte.newline).length :=
    (List.getElem?_eq_some_iff.1 found).1
  have before := length_lineBefore_le text offset
  refine ⟨?_, by omega, ?_, fun other same => ?_⟩
  · simp [of_eq small]
  · simp [of_eq small]
  · obtain rfl := Option.some_inj.1 (same.symm.trans found)
    simpa [of_eq small] using before

theorem offsetIn_of (small : text.length < limit) (offset : Nat) :
    (of text offset).offsetIn (text.splitOn Byte.newline) = min offset text.length := by
  obtain ⟨above, below, around⟩ := exists_around text offset
  rw [of_eq small, ← around.length_above]
  exact around.lineStart_above

/-- Offsets behind the end of a text stand for its end. -/
theorem of_of_le {offset : Nat} (behind : text.length ≤ offset) :
    of text offset = of text text.length := by
  simp [of, lineBefore, List.take_of_length_le behind]

/-- The location of the offset that a location stands for. -/
theorem IsIn.of_offsetIn (small : text.length < limit)
    (h : first.IsIn (text.splitOn Byte.newline)) :
    of text (first.offsetIn (text.splitOn Byte.newline)) = first := by
  apply eq_of_offsetIn_eq (isIn_of small _) h
  rw [offsetIn_of small, min_eq_left h.offsetIn_le]

theorem injOn_of (small : text.length < limit) :
    Set.InjOn (of text) {offset | offset ≤ text.length} := by
  intro offset within other otherWithin same
  have offsets := congrArg (offsetIn · (text.splitOn Byte.newline)) same
  simpa only [offsetIn_of small, min_eq_left within.out, min_eq_left otherWithin.out] using offsets

theorem before_of_iff (small : text.length < limit) {offset other : Nat}
    (within : offset ≤ text.length) (otherWithin : other ≤ text.length) :
    (of text offset).Before (of text other) ↔ offset < other := by
  rw [before_iff_offsetIn_lt (isIn_of small offset) (isIn_of small other), offsetIn_of small,
    offsetIn_of small, min_eq_left within, min_eq_left otherWithin]

theorem of_eq_start_iff (small : text.length < limit) (offset : Nat) :
    of text offset = start ↔ offset = 0 ∨ text = [] := by
  have zero : of text 0 = start := by simp [of, lineBefore, start, limit]
  constructor
  · intro same
    have offsets := congrArg (offsetIn · (text.splitOn Byte.newline)) (same.trans zero.symm)
    simpa only [offsetIn_of small, Nat.zero_min, Nat.min_eq_zero_iff, List.length_eq_zero_iff]
      using offsets
  · rintro (rfl | rfl)
    · exact zero
    · rw [of_of_le (Nat.zero_le offset)]
      exact zero

/-- In a text that is not too large, locations are coordinates. Texts of less than 4 GB, which are
    4 · 10⁹ bytes, are well below the limit, and at the limit the last column or line is cut. -/
theorem locations_are_coordinates (small : text.length < limit) :
    (∀ offset, (of text offset).IsIn (text.splitOn Byte.newline) ∧
      (of text offset).offsetIn (text.splitOn Byte.newline) = min offset text.length ∧
      (text.splitOn Byte.newline)[(of text offset).line - 1]? = some (lineAt text offset)) ∧
    Set.InjOn (of text) {offset | offset ≤ text.length} ∧
    (∀ offset other, offset ≤ text.length → other ≤ text.length →
      ((of text offset).Before (of text other) ↔ offset < other)) ∧
    (∀ location : Location, location.IsIn (text.splitOn Byte.newline) →
      ∃! offset, offset ≤ text.length ∧ of text offset = location) ∧
    (∀ offset, text.length ≤ offset → of text offset = of text text.length) ∧
    ∀ offset, of text offset = start ↔ offset = 0 ∨ text = [] := by
  refine ⟨fun offset => ⟨isIn_of small offset, offsetIn_of small offset,
    getElem?_line_of small offset⟩, injOn_of small, fun offset other => before_of_iff small,
    fun location inText => ?_, fun offset => of_of_le, of_eq_start_iff small⟩
  refine ⟨location.offsetIn (text.splitOn Byte.newline),
    ⟨inText.offsetIn_le, inText.of_offsetIn small⟩, ?_⟩
  rintro other ⟨within, rfl⟩
  rw [offsetIn_of small, min_eq_left within]

/-- The place behind the only byte of the third line, in a text with an empty line and a newline at
    its end. -/
theorem locations_are_coordinates_blankLine :
    IsIn ⟨3, 2⟩ ((ascii "ab\n\nc\n").splitOn Byte.newline) ∧
      (∃! offset, offset ≤ (ascii "ab\n\nc\n").length ∧ of (ascii "ab\n\nc\n") offset = ⟨3, 2⟩) ∧
      ((of (ascii "ab\n\nc\n") 3).Before (of (ascii "ab\n\nc\n") 4) ↔ 3 < 4) ∧
      of (ascii "ab\n\nc\n") 100 = ⟨4, 1⟩ := by
  have here : of (ascii "ab\n\nc\n") 5 = ⟨3, 2⟩ := by decide
  have last : of (ascii "ab\n\nc\n") (ascii "ab\n\nc\n").length = ⟨4, 1⟩ := by decide
  obtain ⟨places, -, order, exact, behind, -⟩ :=
    locations_are_coordinates (show (ascii "ab\n\nc\n").length < limit by decide)
  have inText := here ▸ (places 5).1
  exact ⟨inText, exact _ inText, order 3 4 (by decide) (by decide),
    (behind 100 (by decide)).trans last⟩

end Location

end BuildFile
