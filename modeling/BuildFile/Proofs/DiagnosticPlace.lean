import BuildFile.Manifest.Read
import BuildFile.Proofs.Grammar
import BuildFile.Proofs.Lines

/-! # Where diagnostics point

The byte that does not fit, its line and column, and the copy of the line are found in separate
ways. They belong together: in the copy, the byte stands at the column, or it is the newline
behind the line, or there is no byte because the text ends there. What is shown of all this are
three lines, whatever the bytes are, if the column is not too large for the mark in the last one.
-/

namespace BuildFile

theorem toUInt8_ne_newline {c : Char} (digit : c.isDigit = true) : c.toUInt8 ≠ Byte.newline := by
  simp only [Char.isDigit, Bool.and_eq_true, decide_eq_true_eq, UInt32.le_iff_toNat_le] at digit
  intro same
  have value := congrArg UInt8.toNat same
  simp only [Char.toUInt8, UInt32.toNat_toUInt8] at value
  change 48 ≤ c.val.toNat ∧ c.val.toNat ≤ 57 at digit
  change c.val.toNat % 256 = 10 at value
  omega

theorem notMem_decimal (n : Nat) : Byte.newline ∉ decimal n := by
  intro member
  obtain ⟨c, digit, same⟩ := List.mem_map.1 member
  exact toUInt8_ne_newline (Nat.isDigit_of_mem_toDigits (by decide) (by decide) digit) same

theorem Expected.notMem_label (expected : Expected) : Byte.newline ∉ expected.label := by
  cases expected <;> decide

namespace ParseError

theorem hexDigit_ne_newline (n : Nat) (h : n < 16) : hexDigit n ≠ Byte.newline := by
  revert n
  decide

theorem notMem_escapeByte (b : UInt8) : Byte.newline ∉ escapeByte b := by
  have low : b.toNat / 16 < 16 := by
    have := b.toNat_lt
    omega
  have high : b.toNat % 16 < 16 := Nat.mod_lt _ (by decide)
  have digits : Byte.newline ∉ ascii "\\x" ++ hexPair b := by
    simp only [List.mem_append, hexPair, List.mem_cons, List.not_mem_nil, or_false, not_or]
    exact ⟨by decide, (hexDigit_ne_newline _ low).symm, (hexDigit_ne_newline _ high).symm⟩
  unfold escapeByte
  split
  · decide
  · split
    · decide
    · split
      · decide
      · next other =>
        split
        · simp only [List.mem_cons, List.not_mem_nil, or_false, not_or]
          exact ⟨by decide, Ne.symm other⟩
        · split
          · simp [Ne.symm other]
          · exact digits

theorem notMem_unexpectedText (unexpected : Option UInt8) :
    Byte.newline ∉ unexpectedText unexpected := by
  cases unexpected with
  | none => decide
  | some b =>
      have inside := notMem_escapeByte b
      simp only [unexpectedText, List.mem_append, List.mem_singleton, not_or]
      exact ⟨⟨by decide, inside⟩, by decide⟩

theorem notMem_headline {label place : Bytes} (unexpected : Option UInt8)
    (inLabel : Byte.newline ∉ label) (inPlace : Byte.newline ∉ place) :
    Byte.newline ∉ headline label place unexpected := by
  simp only [headline, List.mem_append, not_or]
  exact ⟨⟨⟨⟨inLabel, by decide⟩, inPlace⟩, by decide⟩, notMem_unexpectedText unexpected⟩

end ParseError

theorem Location.notMem_write (location : Location) : Byte.newline ∉ location.write := by
  simp only [write, List.mem_append, not_or]
  exact ⟨⟨notMem_decimal _, by decide⟩, notMem_decimal _⟩

namespace Diagnostic

variable {diagnostic : Diagnostic}

theorem message_of_le (narrow : diagnostic.location.column ≤ 65536) :
    diagnostic.message = .whole (diagnostic.lines ++
      (List.replicate (diagnostic.location.column - 1) Byte.space ++ ascii "^")) := by
  have fits : diagnostic.location.column - 1 ≤ Formatted.widest := Nat.sub_le_sub_right narrow 1
  simp only [message, Formatted.indented, if_pos fits, Formatted.behind]

theorem message_of_lt (wide : 65536 < diagnostic.location.column) :
    diagnostic.message = .broken diagnostic.lines := by
  have tooWide : ¬ diagnostic.location.column - 1 ≤ Formatted.widest := by
    simp only [Formatted.widest]
    omega
  simp only [message, Formatted.indented, if_neg tooWide, Formatted.behind, List.append_nil]

theorem exists_message_iff :
    (∃ shown, diagnostic.message = .whole shown) ↔ diagnostic.location.column ≤ 65536 := by
  constructor
  · rintro ⟨shown, whole⟩
    by_contra wide
    rw [message_of_lt (Nat.lt_of_not_le wide)] at whole
    cases whole
  · exact fun narrow => ⟨_, message_of_le narrow⟩

/-- A diagnostic with a mark has three lines. -/
theorem splitOn_message (inLabel : Byte.newline ∉ diagnostic.label)
    (inLine : Byte.newline ∉ diagnostic.sourceLine) {shown : Bytes}
    (whole : diagnostic.message = .whole shown) :
    shown.splitOn Byte.newline =
      [ParseError.headline diagnostic.label diagnostic.location.write diagnostic.unexpected,
        Utf8.shown diagnostic.sourceLine,
        List.replicate (diagnostic.location.column - 1) Byte.space ++ ascii "^"] := by
  have narrow := exists_message_iff.1 ⟨shown, whole⟩
  obtain rfl := Formatted.whole.inj ((message_of_le narrow).symm.trans whole)
  have first := ParseError.notMem_headline diagnostic.unexpected inLabel
    diagnostic.location.notMem_write
  have second := Utf8.notMem_shown inLine (by decide)
  have third : Byte.newline ∉
      List.replicate (diagnostic.location.column - 1) Byte.space ++ ascii "^" := by
    simp only [List.mem_append, List.mem_replicate, not_or]
    exact ⟨fun h => absurd h.2 (by decide), by decide⟩
  have closed : AreLines
      [ParseError.headline diagnostic.label diagnostic.location.write diagnostic.unexpected,
        Utf8.shown diagnostic.sourceLine] :=
    List.forall_mem_cons.2 ⟨first, List.forall_mem_singleton.2 second⟩
  have split := splitOn_linesText_append closed
    (List.replicate (diagnostic.location.column - 1) Byte.space ++ ascii "^")
  rw [List.splitOn_eq_singleton third] at split
  simpa [linesText, lines] using split

/-- The three lines of a diagnostic are shown exactly if its mark can be padded. -/
theorem exists_splitOn_message_iff (inLabel : Byte.newline ∉ diagnostic.label)
    (inLine : Byte.newline ∉ diagnostic.sourceLine) :
    (∃ shown, diagnostic.message = .whole shown ∧ shown.splitOn Byte.newline =
      [ParseError.headline diagnostic.label diagnostic.location.write diagnostic.unexpected,
        Utf8.shown diagnostic.sourceLine,
        List.replicate (diagnostic.location.column - 1) Byte.space ++ ascii "^"]) ↔
      diagnostic.location.column ≤ 65536 := by
  rw [← exists_message_iff]
  constructor
  · rintro ⟨shown, whole, -⟩
    exact ⟨shown, whole⟩
  · rintro ⟨shown, whole⟩
    exact ⟨shown, whole, splitOn_message inLabel inLine whole⟩

end Diagnostic

namespace Location

variable {text : Bytes} {offset : Nat} {above below : List Bytes}

/-- The byte at an offset is the one at its column, or the newline behind its line, if there is
    another line. -/
theorem Around.getElem?_eq (around : Around text offset above below) :
    text[offset]? =
      ((lineAt text offset)[(lineBefore text offset).length]?).or
        (if below = [] then none else some Byte.newline) := by
  have here : (lineAt text offset)[(lineBefore text offset).length]? =
      (lineFrom text offset).head? := by
    rw [lineAt, List.getElem?_append_right (Nat.le_refl _), Nat.sub_self, List.head?_eq_getElem?]
  rw [here, ← List.head?_drop, around.drop_eq, List.head?_append]
  cases below with
  | nil => rfl
  | cons line below => rw [linesBelow_cons, List.head?_cons, if_neg (List.cons_ne_nil _ _)]

theorem Around.getElem?_inside (around : Around text offset above below)
    (inside : (lineBefore text offset).length < (lineAt text offset).length) :
    text[offset]? = some (lineAt text offset)[(lineBefore text offset).length] := by
  rw [around.getElem?_eq, List.getElem?_eq_getElem inside, Option.some_or]

theorem Around.getElem?_behind (around : Around text offset above below)
    (behind : (lineBefore text offset).length = (lineAt text offset).length) :
    text[offset]? = if below = [] then none else some Byte.newline := by
  rw [around.getElem?_eq, behind, List.getElem?_eq_none (Nat.le_refl _), Option.none_or]

/-- The lines of a text are those above and below an offset, and its own. -/
theorem Around.length_splitOn (around : Around text offset above below) :
    (text.splitOn Byte.newline).length = above.length + 1 + below.length := by
  rw [around.splitOn_eq, List.length_append, List.length_cons]
  omega

/-- The line up to its newline stands in front of the newline. -/
theorem lineBefore_append {line : Bytes} (free : Byte.newline ∉ line) (later : Bytes) :
    lineBefore (line ++ later) line.length = line := by
  have within : ∀ b ∈ line.reverse, isWithinLine b = true := by
    intro b member
    simp only [isWithinLine, bne_iff_ne]
    rintro rfl
    exact free (List.mem_reverse.1 member)
  rw [lineBefore, List.take_left, List.takeWhile_eq_self_iff.2 within, List.reverse_reverse]

theorem lineAt_append {line : Bytes} (free : Byte.newline ∉ line) (later : Bytes) :
    lineAt (line ++ Byte.newline :: later) line.length = line := by
  rw [lineAt, lineBefore_append free, lineFrom, List.drop_left]
  exact List.append_nil line

theorem of_append {line later : Bytes} (free : Byte.newline ∉ line)
    (small : (line ++ later).length < limit) :
    of (line ++ later) line.length = ⟨1, line.length + 1⟩ := by
  rw [of_eq small, lineBefore_append free, List.take_left, List.count_eq_zero.2 free]

end Location

namespace Manifest

open Scan
open Written (IsName identifier_eq_done_iff readAfter_of_notMem readDocument_failed
  readStatement_start stops_some)

/-- The diagnostic of a rejected text is about the byte that was not read. -/
theorem exists_failure_of_readText {text : Bytes} {diagnostic : Diagnostic}
    (rejected : readText text = .error diagnostic) :
    ∃ expected : Expected, ∃ error : ParseError, error.label = expected.label ∧
      error.unexpected = text[error.position]? ∧ diagnostic = error.diagnostic text := by
  cases parsed : parse text with
  | ok manifest =>
      rw [readText, parsed] at rejected
      cases rejected
  | error error =>
      rw [readText, parsed] at rejected
      cases rejected
      obtain ⟨failure, hread, rfl⟩ := extend_eq_error_iff.1 parsed
      have left := Document.rest_suffix_of_failure hread
      refine ⟨failure.expected, _, rfl, ?_, rfl⟩
      change failure.rest.head? = text[text.length - failure.rest.length]?
      rw [← List.head?_drop, ← List.suffix_iff_eq_drop.1 left]

/-- Behind a name that is alone in its line, there should be an assignment. -/
theorem parse_of_unassigned {name : Name} (isName : IsName name)
    (other : name ∉ [Keyword.build, Keyword.rule, Keyword.default]) (later : Bytes) :
    parse (name ++ Byte.newline :: later) =
      .error ⟨name.length, some Byte.newline, ascii "assignment"⟩ := by
  have named : identifier (name ++ Byte.newline :: later) = .done name (Byte.newline :: later) :=
    identifier_eq_done_iff.2 ⟨rfl, isName, stops_some.2 (by decide)⟩
  have statement : Statement.read (name ++ Byte.newline :: later) =
      .failed .assignment (Byte.newline :: later) := by
    rw [Statement.read, bind_of_done named]
    change Statement.readAfter name (Byte.newline :: later) = _
    rw [readAfter_of_notMem other]
    rfl
  have declaration : Declaration.readNext (name ++ Byte.newline :: later) =
      .failed .assignment (Byte.newline :: later) := by
    apply bind_of_failed
    rw [readStatement_start (isName.startsStatement _)]
    exact bind_of_failed statement _
  have failed := readDocument_failed declaration
  rw [parse, extend_of_failure (by rw [failed])]
  simp [ParseError.of, Expected.label]

theorem readText_of_unassigned {name later : Bytes} (isName : IsName name)
    (other : name ∉ [Keyword.build, Keyword.rule, Keyword.default])
    (small : (name ++ Byte.newline :: later).length < Location.limit) :
    readText (name ++ Byte.newline :: later) =
      .error ⟨ascii "assignment", ⟨1, name.length + 1⟩, some Byte.newline, name⟩ := by
  have free := isName.notMem_newline
  rw [readText, parse_of_unassigned isName other]
  simp only [Except.mapError, ParseError.diagnostic, Location.of_append free small,
    Location.lineAt_append free]

/-- A diagnostic points at the byte that does not fit. It is shown in three lines exactly up to a
    column of 65536; behind that, the last line is missing. -/
theorem diagnostic_points_at_byte {text : Bytes} {diagnostic : Diagnostic}
    (small : text.length < Location.limit) (rejected : readText text = .error diagnostic) :
    Byte.newline ∉ diagnostic.sourceLine ∧
      (1 ≤ diagnostic.location.line ∧
        (text.splitOn Byte.newline)[diagnostic.location.line - 1]? = some diagnostic.sourceLine) ∧
      (1 ≤ diagnostic.location.column ∧
        diagnostic.location.column ≤ diagnostic.sourceLine.length + 1) ∧
      (diagnostic.location.column ≤ diagnostic.sourceLine.length →
        ∃ b, diagnostic.unexpected = some b ∧
          diagnostic.sourceLine[diagnostic.location.column - 1]? = some b) ∧
      (diagnostic.location.column = diagnostic.sourceLine.length + 1 →
        (diagnostic.location.line < (text.splitOn Byte.newline).length →
          diagnostic.unexpected = some Byte.newline) ∧
        (diagnostic.location.line = (text.splitOn Byte.newline).length →
          diagnostic.unexpected = none)) ∧
      ((∃ shown, diagnostic.message = .whole shown ∧ shown.splitOn Byte.newline =
        [ParseError.headline diagnostic.label diagnostic.location.write diagnostic.unexpected,
          Utf8.shown diagnostic.sourceLine,
          List.replicate (diagnostic.location.column - 1) Byte.space ++ ascii "^"]) ↔
        diagnostic.location.column ≤ 65536) ∧
      (65536 < diagnostic.location.column → diagnostic.message = .broken diagnostic.lines) := by
  obtain ⟨expected, error, label, unexpected, rfl⟩ := exists_failure_of_readText rejected
  obtain ⟨above, below, around⟩ := Location.exists_around text error.position
  have free := Location.notMem_lineAt text error.position
  have place : (error.diagnostic text).location =
      ⟨above.length + 1, (Location.lineBefore text error.position).length + 1⟩ := by
    rw [around.length_above]
    exact Location.of_eq small error.position
  have label : Byte.newline ∉ (error.diagnostic text).label := by
    rw [ParseError.diagnostic, label]
    exact expected.notMem_label
  have pieces := around.length_splitOn
  refine ⟨free, ⟨?_, ?_⟩, ⟨?_, ?_⟩, ?_, ?_, Diagnostic.exists_splitOn_message_iff label free,
    Diagnostic.message_of_lt⟩
  all_goals rw [place]
  · exact Nat.le_add_left 1 _
  · rw [around.splitOn_eq, Nat.add_sub_cancel, List.getElem?_append_right (Nat.le_refl _),
      Nat.sub_self]
    rfl
  · exact Nat.le_add_left 1 _
  · exact Nat.succ_le_succ (Location.length_lineBefore_le text error.position)
  · intro (inside : _ < (Location.lineAt text error.position).length)
    exact ⟨_, unexpected.trans (around.getElem?_inside inside), List.getElem?_eq_getElem inside⟩
  · intro behind
    have byte := unexpected.trans (around.getElem?_behind (Nat.succ_inj.1 behind))
    refine ⟨fun further => ?_, fun last => ?_⟩
    · have more : below ≠ [] := by
        rintro rfl
        simp [pieces] at further
      exact byte.trans (if_neg more)
    · have ended : below = [] := List.length_eq_zero_iff.1 (by simp only at last; omega)
      exact byte.trans (if_pos ended)

/-- The second line ends where its colon should be. -/
theorem diagnostic_points_at_byte_colon :
    readText (ascii "x = 1\nbuild a b\n") = .error
      ⟨ascii "build colon", ⟨2, 10⟩, some Byte.newline, ascii "build a b"⟩ ∧
    ((ascii "x = 1\nbuild a b\n").splitOn Byte.newline)[1]? = some (ascii "build a b") ∧
    ∃ shown, Diagnostic.message
        ⟨ascii "build colon", ⟨2, 10⟩, some Byte.newline, ascii "build a b"⟩ = .whole shown ∧
      (shown.splitOn Byte.newline)[2]? = some (ascii "         ^") := by
  have rejected : readText (ascii "x = 1\nbuild a b\n") = .error
      ⟨ascii "build colon", ⟨2, 10⟩, some Byte.newline, ascii "build a b"⟩ := by decide +kernel
  obtain ⟨-, ⟨-, line⟩, -, -, -, marked, -⟩ := diagnostic_points_at_byte (by decide) rejected
  obtain ⟨shown, whole, lines⟩ := marked.2 (by decide)
  refine ⟨rejected, line, shown, whole, ?_⟩
  rw [lines]
  rfl

/-- A name that is too long for a mark behind it. -/
def overlong : Name := List.replicate 65536 0x61

theorem readText_overlong :
    readText (overlong ++ [Byte.newline]) =
      .error ⟨ascii "assignment", ⟨1, 65537⟩, some Byte.newline, overlong⟩ := by
  have length : overlong.length = 65536 := List.length_replicate
  have isName : IsName overlong := by
    refine ⟨List.ne_nil_of_length_pos (by omega), fun b member => ?_⟩
    obtain rfl := List.eq_of_mem_replicate member
    decide
  have other : overlong ∉ [Keyword.build, Keyword.rule, Keyword.default] := by
    intro member
    have short : ∀ word ∈ [Keyword.build, Keyword.rule, Keyword.default], word.length < 65536 := by
      decide
    exact absurd (short _ member) (by omega)
  have small : (overlong ++ [Byte.newline]).length < Location.limit := by
    rw [List.length_append, length]
    decide
  rw [readText_of_unassigned isName other small, length]

/-- No mark is put under the newline behind a name that is too long for it. -/
theorem diagnostic_points_at_byte_overlong :
    ∃ diagnostic, readText (overlong ++ [Byte.newline]) = .error diagnostic ∧
      ¬ ∃ shown, diagnostic.message = .whole shown ∧ shown.splitOn Byte.newline =
        [ParseError.headline diagnostic.label diagnostic.location.write diagnostic.unexpected,
          Utf8.shown diagnostic.sourceLine,
          List.replicate (diagnostic.location.column - 1) Byte.space ++ ascii "^"] := by
  refine ⟨_, readText_overlong, ?_⟩
  rintro ⟨shown, whole, -⟩
  rw [Diagnostic.message_of_lt (by decide)] at whole
  cases whole

end Manifest

end BuildFile
