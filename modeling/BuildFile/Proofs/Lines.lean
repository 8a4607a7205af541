import BuildFile.Location
import BuildFile.Text.Utf8
import Mathlib.Data.List.Induction
import Mathlib.Data.List.TakeWhile

/-! # Lines of a text

A text is cut at its newlines. Around an offset this gives the lines above, the line that the
offset is in, and the lines below, and the offset cuts that line in two.
-/

namespace BuildFile

/-- The text of lines, each with its newline. -/
def linesText (lines : List Bytes) : Bytes := lines.flatMap (· ++ [Byte.newline])

/-- Lines, each with the newline in front of it. -/
def linesBelow (lines : List Bytes) : Bytes := lines.flatMap (Byte.newline :: ·)

@[simp]
theorem linesText_nil : linesText [] = [] := rfl

theorem linesText_cons (line : Bytes) (lines : List Bytes) :
    linesText (line :: lines) = line ++ Byte.newline :: linesText lines := by
  simp [linesText]

theorem linesText_concat (lines : List Bytes) (line : Bytes) :
    linesText (lines ++ [line]) = linesText lines ++ line ++ [Byte.newline] := by
  simp [linesText]

@[simp]
theorem linesBelow_nil : linesBelow [] = [] := rfl

theorem linesBelow_cons (line : Bytes) (lines : List Bytes) :
    linesBelow (line :: lines) = Byte.newline :: (line ++ linesBelow lines) := by
  simp [linesBelow]

/-- None of the lines contains a newline. -/
def AreLines (lines : List Bytes) : Prop :=
  ∀ line ∈ lines, Byte.newline ∉ line

theorem splitOn_linesText_append {lines : List Bytes} (free : AreLines lines) (text : Bytes) :
    (linesText lines ++ text).splitOn Byte.newline = lines ++ text.splitOn Byte.newline := by
  induction lines with
  | nil => rfl
  | cons line lines ih =>
      obtain ⟨first, others⟩ := List.forall_mem_cons.1 free
      rw [linesText_cons, List.append_assoc, List.cons_append,
        List.splitOn_append_cons_self_of_not_mem first, ih others, List.cons_append]

/-- Closed lines are cut into themselves, and an empty piece behind the last newline. -/
theorem splitOn_linesText {lines : List Bytes} (free : AreLines lines) :
    (linesText lines).splitOn Byte.newline = lines ++ [[]] := by
  simpa using splitOn_linesText_append free []

theorem splitOn_append_linesBelow {line : Bytes} {lines : List Bytes} (free : Byte.newline ∉ line)
    (others : AreLines lines) :
    (line ++ linesBelow lines).splitOn Byte.newline = line :: lines := by
  induction lines generalizing line with
  | nil => simpa using List.splitOn_eq_singleton free
  | cons next lines ih =>
      obtain ⟨first, rest⟩ := List.forall_mem_cons.1 others
      rw [linesBelow_cons, List.splitOn_append_cons_self_of_not_mem free, ih first rest]

namespace Utf8

theorem notMem_shown_piece {piece : Piece} {b : UInt8} (absent : b ∉ piece.bytes)
    (ascii : b < 0x80) : b ∉ piece.shown := by
  cases piece with
  | character bytes => exact absent
  | illFormed bytes =>
      rintro member
      simp only [Piece.shown, replacement, List.mem_cons, List.not_mem_nil, or_false] at member
      obtain rfl | rfl | rfl := member <;> exact absurd ascii (by decide)

/-- An ASCII character is shown only where it stands. -/
theorem notMem_shown {text : Bytes} {b : UInt8} (absent : b ∉ text) (ascii : b < 0x80) :
    b ∉ shown text := by
  rw [← flatMap_bytes_pieces text] at absent
  intro member
  obtain ⟨piece, within, same⟩ := List.mem_flatMap.1 member
  refine notMem_shown_piece (fun inside => ?_) ascii same
  exact absent (List.mem_flatMap.2 ⟨piece, within, inside⟩)

end Utf8

/-- A line is shown as a line. -/
theorem AreLines.map_shown {lines : List Bytes} (free : AreLines lines) :
    AreLines (lines.map Utf8.shown) := by
  intro line member
  obtain ⟨given, within, rfl⟩ := List.mem_map.1 member
  exact Utf8.notMem_shown (free given within) (by decide)

namespace Location

theorem notMem_of_isWithinLine {text : Bytes} (h : ∀ b ∈ text, isWithinLine b = true) :
    Byte.newline ∉ text := by
  intro member
  have within := h Byte.newline member
  simp [isWithinLine] at within

theorem notMem_lineBefore (text : Bytes) (offset : Nat) :
    Byte.newline ∉ lineBefore text offset := by
  rw [lineBefore, List.mem_reverse]
  exact notMem_of_isWithinLine fun _ => List.mem_takeWhile_imp

theorem notMem_lineFrom (text : Bytes) (offset : Nat) : Byte.newline ∉ lineFrom text offset :=
  notMem_of_isWithinLine fun _ => List.mem_takeWhile_imp

theorem notMem_lineAt (text : Bytes) (offset : Nat) : Byte.newline ∉ lineAt text offset := by
  rw [lineAt, List.mem_append, not_or]
  exact ⟨notMem_lineBefore text offset, notMem_lineFrom text offset⟩

theorem length_lineBefore_le (text : Bytes) (offset : Nat) :
    (lineBefore text offset).length ≤ (lineAt text offset).length := by
  rw [lineAt, List.length_append]
  exact Nat.le_add_right _ _

/-- A text is its closed lines and what stands behind the last newline. -/
theorem exists_above (text : Bytes) :
    ∃ above, AreLines above ∧ above.length = text.count Byte.newline ∧
      text = linesText above ++ (text.reverse.takeWhile isWithinLine).reverse := by
  -- From the end, since the last line starts behind the last newline.
  induction text using List.reverseRecOn with
  | nil => exact ⟨[], by simp [AreLines], rfl, rfl⟩
  | append_singleton text b ih =>
      obtain ⟨above, free, length, same⟩ := ih
      rw [List.reverse_append, List.reverse_singleton, List.singleton_append]
      by_cases newline : b = Byte.newline
      · subst newline
        refine ⟨above ++ [(text.reverse.takeWhile isWithinLine).reverse], ?_, ?_, ?_⟩
        · refine List.forall_mem_append.2 ⟨free, List.forall_mem_singleton.2 ?_⟩
          rw [List.mem_reverse]
          exact notMem_of_isWithinLine fun _ => List.mem_takeWhile_imp
        · simp [length]
        · rw [linesText_concat, ← same]
          simp [isWithinLine]
      · have within : isWithinLine b = true := by simpa [isWithinLine] using newline
        refine ⟨above, free, ?_, ?_⟩
        · simp [length, newline]
        · rw [List.takeWhile_cons_of_pos within, List.reverse_cons, ← List.append_assoc, ← same]

/-- A text is what stands in front of the first newline, and further lines. -/
theorem exists_below (text : Bytes) :
    ∃ below, AreLines below ∧ text = text.takeWhile isWithinLine ++ linesBelow below := by
  induction text with
  | nil => exact ⟨[], by simp [AreLines], rfl⟩
  | cons b text ih =>
      obtain ⟨below, free, same⟩ := ih
      by_cases newline : b = Byte.newline
      · subst newline
        have ended : isWithinLine Byte.newline = false := by simp [isWithinLine]
        refine ⟨text.takeWhile isWithinLine :: below, List.forall_mem_cons.2 ⟨?_, free⟩, ?_⟩
        · exact notMem_of_isWithinLine fun _ => List.mem_takeWhile_imp
        · rw [List.takeWhile_cons_of_neg (by simp [ended]), linesBelow_cons, ← same,
            List.nil_append]
      · have within : isWithinLine b = true := by simpa [isWithinLine] using newline
        exact ⟨below, free, by
          rw [List.takeWhile_cons_of_pos within, List.cons_append, ← same]⟩

/-- The lines above and below an offset. -/
structure Around (text : Bytes) (offset : Nat) (above below : List Bytes) : Prop where
  length_above : above.length = (text.take offset).count Byte.newline
  take_eq : text.take offset = linesText above ++ lineBefore text offset
  drop_eq : text.drop offset = lineFrom text offset ++ linesBelow below
  splitOn_eq : text.splitOn Byte.newline = above ++ lineAt text offset :: below

theorem exists_around (text : Bytes) (offset : Nat) :
    ∃ above below, Around text offset above below := by
  obtain ⟨above, freeAbove, length, take⟩ := exists_above (text.take offset)
  obtain ⟨below, freeBelow, drop⟩ := exists_below (text.drop offset)
  change _ = _ ++ lineBefore text offset at take
  change _ = lineFrom text offset ++ _ at drop
  refine ⟨above, below, length, take, drop, ?_⟩
  have whole : text = linesText above ++ (lineAt text offset ++ linesBelow below) := by
    rw [lineAt, List.append_assoc, ← List.append_assoc, ← take, ← drop, List.take_append_drop]
  conv => lhs; rw [whole]
  rw [splitOn_linesText_append freeAbove,
    splitOn_append_linesBelow (notMem_lineAt text offset) freeBelow]

/-- In a text that is not too large, lines and columns are given as they are. -/
theorem of_eq {text : Bytes} (small : text.length < limit) (offset : Nat) :
    of text offset = ⟨(text.take offset).count Byte.newline + 1,
      (lineBefore text offset).length + 1⟩ := by
  have taken := (List.take_sublist offset text).length_le
  have counted : (text.take offset).count Byte.newline ≤ (text.take offset).length :=
    List.count_le_length
  have before : (lineBefore text offset).length ≤ (text.take offset).length := by
    rw [lineBefore, List.length_reverse]
    exact ((List.takeWhile_prefix _).length_le).trans (List.length_reverse ..).le
  rw [of, Nat.min_eq_left (by omega), Nat.min_eq_left (by omega)]

end Location

end BuildFile
