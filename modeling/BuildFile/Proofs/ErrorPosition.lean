import BuildFile.Proofs.Grammar
import BuildFile.Proofs.Lookahead
import BuildFile.Proofs.Viability

/-! # Where errors are reported

The position of a syntax error is the first place where a file goes wrong: the bytes in front
of it are how an accepted text starts, and with the byte that stands there no text is.
-/

namespace BuildFile

theorem ParseError.of_split (front rest : Bytes) (expected : Expected) :
    ParseError.of (front ++ rest) expected rest =
      ⟨front.length, rest.head?, expected.label⟩ := by
  simp [ParseError.of]

namespace Manifest

/-- Nothing behind the byte that does not fit has a part in the error. -/
theorem extend_error_stable {front rest : Bytes} {failure : Failure} (manifest : Manifest)
    (h : (Document.read (front ++ failure.rest)).failure = some failure)
    (same : rest.head? = failure.rest.head?) :
    manifest.extend (front ++ rest) = manifest.extend (front ++ failure.rest) := by
  obtain ⟨taken, split, further⟩ := Document.exists_front_of_failure h
  obtain rfl := List.append_cancel_right split
  rw [extend_of_failure h, extend_of_failure (further rest same), ParseError.of_split,
    ParseError.of_split, same]

/-- A syntax error is where a text first differs from all accepted ones. -/
theorem parse_error_located {text : Bytes} {error : ParseError}
    (rejected : parse text = .error error) :
    (error.position ≤ text.length ∧ error.unexpected = text[error.position]? ∧
      (error.unexpected = none ↔ error.position = text.length)) ∧
    (error.unexpected ≠ none → ∀ other : Bytes,
      other.take (error.position + 1) = text.take (error.position + 1) →
        parse other = .error error) ∧
    ∃ more manifest, parse (text.take error.position ++ more) = .ok manifest := by
  obtain ⟨failure, hread, rfl⟩ := extend_eq_error_iff.1 rejected
  obtain ⟨file, ⟨front, rfl, more, whole⟩, valid⟩ := Written.viable_document text hread
  rw [ParseError.of_split] at rejected ⊢
  refine ⟨⟨?_, ?_, ?_⟩, ?_, ?_⟩
  · simp
  · simp [List.getElem?_append_right, List.head?_eq_getElem?]
  · simp
  · intro unexpected other agrees
    obtain ⟨c, tail, same⟩ : ∃ c tail, failure.rest = c :: tail := by
      cases rest : failure.rest with
      | nil => simp [rest] at unexpected
      | cons c tail => exact ⟨c, tail, rfl⟩
    have start : other = front ++ c :: other.drop (front.length + 1) := by
      have parts := List.take_append_drop (front.length + 1) other
      rw [agrees, same] at parts
      simpa [List.take_append, List.take_of_length_le] using parts.symm
    rw [start, parse, extend_error_stable {} hread (by rw [same, List.head?_cons, List.head?_cons])]
    exact rejected
  · refine ⟨more, _, extend_eq_ok_iff.2 ⟨file, valid, ?_, rfl⟩⟩
    simp [whole]

/-- The second single pipe is read as the first half of `||`, and the space behind it does
    not fit. -/
theorem parse_error_located_pipe :
    parse (ascii "build a: b | c | d\n") = .error ⟨16, some Byte.space, ascii "build inputs"⟩ ∧
      (∀ other : Bytes, other.take 17 = ascii "build a: b | c | " →
        parse other = .error ⟨16, some Byte.space, ascii "build inputs"⟩) ∧
      ∃ more manifest, parse (ascii "build a: b | c |" ++ more) = .ok manifest := by
  have rejected : parse (ascii "build a: b | c | d\n") =
      .error ⟨16, some Byte.space, ascii "build inputs"⟩ := by decide +kernel
  obtain ⟨-, stable, viable⟩ := parse_error_located rejected
  exact ⟨rejected, stable (by simp), viable⟩

end Manifest

end BuildFile
