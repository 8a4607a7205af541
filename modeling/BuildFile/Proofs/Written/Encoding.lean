import BuildFile.Proofs.Utf8Text
import BuildFile.Proofs.Written.Canonical

/-! # Templates in UTF-8

Everything in a spelling but its raw bytes is ASCII, and so is all that writing adds. What is
written of a template that is read from text is therefore text.
-/

namespace BuildFile.Written

open Utf8

theorem ascii_of_isIdentifier {b : UInt8} (h : Byte.isIdentifier b = true) : b < 0x80 := by
  simp only [Byte.isIdentifier, Byte.isAlphanumeric, Bool.or_eq_true, Bool.and_eq_true,
    decide_eq_true_eq, beq_iff_eq, UInt8.le_iff_toNat_le] at h
  rw [UInt8.lt_iff_toNat_lt]
  obtain (((⟨-, h⟩ | ⟨-, h⟩) | ⟨-, h⟩) | rfl) | rfl := h
  · exact Nat.lt_of_le_of_lt h (by decide)
  · exact Nat.lt_of_le_of_lt h (by decide)
  · exact Nat.lt_of_le_of_lt h (by decide)
  · decide
  · decide

theorem ascii_of_needsEscape {b : UInt8} (h : Template.needsEscape b = true) : b < 0x80 := by
  obtain rfl | rfl | rfl := needsEscape_iff.1 h <;> decide

theorem IsName.ascii {name : Name} (h : IsName name) : ∀ b ∈ name, b < 0x80 :=
  fun b member => ascii_of_isIdentifier (h.2 b member)

/-- Text with its special bytes escaped is text, since they are characters of their own. -/
theorem isText_escapeText {text : Bytes} (h : IsText text) :
    IsText (Template.escapeText text) := by
  obtain ⟨characters, rfl⟩ := h
  induction characters with
  | nil => exact .nil
  | cons c characters ih =>
      rw [List.flatMap_cons, Template.escapeText_append]
      refine IsText.append ?_ ih
      by_cases special : ∃ b ∈ String.utf8EncodeChar c, Template.needsEscape b = true
      · obtain ⟨b, member, escaped⟩ := special
        have single := utf8EncodeChar_eq_singleton (ascii_of_needsEscape escaped) member
        have text : Template.escapeText [b] = [Byte.dollar, b] := by
          simp [Template.escapeText, escaped]
        rw [single, text]
        exact isText_of_ascii (by simpa using ⟨by decide, ascii_of_needsEscape escaped⟩)
      · have same : Template.escapeText (String.utf8EncodeChar c) = String.utf8EncodeChar c := by
          conv_rhs => rw [← List.flatMap_singleton' (String.utf8EncodeChar c)]
          refine List.flatMap_congr fun b member => if_neg fun escaped => ?_
          exact special ⟨b, member, escaped⟩
        rw [same]
        exact isText_utf8EncodeChar c

/-- An escape is written in ASCII, and so is what it stands for. -/
theorem Token.ascii {context : Template.Context} {token : Token}
    (valid : token.IsValid context) (escapes : token.isRaw = false) :
    (∀ b ∈ token.text, b < 0x80) ∧ ∀ b ∈ Template.write token.parts, b < 0x80 := by
  have dollar : Byte.dollar < 0x80 := by decide
  cases token with
  | raw b => cases escapes
  | escape b =>
      have special : Template.needsEscape b = true := valid
      have one := ascii_of_needsEscape special
      simp [Token.text, Token.parts, Template.write, Template.writePart, Template.escapeText,
        special, one, dollar]
  | braced name | bare name =>
      have isName : IsName name := valid
      have brace : Byte.openBrace < 0x80 ∧ Byte.closeBrace < 0x80 := by decide
      simpa [Token.text, Token.parts, Template.write, Template.writePart, dollar, brace, or_imp,
        forall_and] using isName.ascii
  | fold indent =>
      have newline : Byte.newline < 0x80 ∧ Byte.space < 0x80 := by decide
      simp [Token.text, Token.parts, Template.write, dollar, newline, spaces]

/-- What is read from text is written as text. The run that is still open need not be text on its
    own, since a character of it can go on in the next raw byte. -/
theorem isText_write_collect {context : Template.Context} {spelling : Spelling}
    {next : Option UInt8} {run : Bytes} (valid : spelling.WellFormed context next)
    (h : IsText (run ++ spelling.text)) : IsText (spelling.collect run).write := by
  have write_ofText (text : Bytes) : (Template.ofText text).write = Template.escapeText text := by
    cases text <;> simp [Template.ofText, Template.write, Template.writePart, Template.escapeText]
  induction spelling generalizing run with
  | nil =>
      rw [Spelling.collect, write_ofText]
      exact isText_escapeText (by simpa using h)
  | cons token rest ih =>
      obtain ⟨first, -, others⟩ := valid
      cases escapes : token.isRaw with
      | true =>
          cases token with
          | raw b => exact ih others (by simpa [Token.text] using h)
          | escape | braced | bare | fold => cases escapes
      | false =>
          -- An escape is ASCII, so no character goes on across it.
          obtain ⟨spelled, written⟩ := Token.ascii first escapes
          have nonempty : token.text ≠ [] := by
            cases token <;> simp [Token.text]
          obtain ⟨before, behind⟩ := IsText.around nonempty spelled h
          rw [Spelling.collect_escape escapes, Template.write_append, Template.write_append,
            write_ofText]
          have front := (isText_escapeText before).append (isText_of_ascii written)
          exact front.append (ih others behind)

theorem isText_dropWhile_isSpace {text : Bytes} (h : IsText text) :
    IsText (text.dropWhile Byte.isSpace) := by
  induction text with
  | nil => exact h
  | cons b rest ih =>
      by_cases space : Byte.isSpace b = true
      · have blank : b < 0x80 := by
          rw [Byte.isSpace, beq_iff_eq] at space
          rw [space]
          decide
        have cut : IsText ([] ++ b :: rest) := h
        rw [List.dropWhile_cons_of_pos space]
        exact ih ((isText_append_cons_iff blank).1 cut).2
      · rw [List.dropWhile_cons_of_neg space]
        exact h

end BuildFile.Written
