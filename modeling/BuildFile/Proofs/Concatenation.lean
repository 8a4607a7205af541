import BuildFile.Proofs.Grammar

/-! # Files behind each other

A file that is accepted can be followed by any text that does not start with a space: the
text is then read as if it stood alone, with the variables of the file known to it.
-/

namespace BuildFile

/-- The same error, that many bytes further into a text. -/
def ParseError.shift (error : ParseError) (count : Nat) : ParseError :=
  { error with position := count + error.position }

theorem ParseError.of_append {rest second : Bytes} (within : rest <:+ second) (first : Bytes)
    (expected : Expected) :
    ParseError.of (first ++ second) expected rest =
      (ParseError.of second expected rest).shift first.length := by
  have := within.length_le
  simp only [ParseError.of, ParseError.shift, List.length_append]
  congr 1
  omega

/-- Later declarations see the variables of the earlier ones. -/
theorem Declaration.evaluateAll_append (env : Environment) (first second : List Declaration) :
    evaluateAll env (first ++ second) =
      evaluateAll env first ++
        evaluateAll (env ++ (Manifest.ofEntries (evaluateAll env first)).globals) second := by
  induction first generalizing env with
  | nil => simp [evaluateAll, Manifest.ofEntries]
  | cons declaration first ih =>
      simp only [List.cons_append, evaluateAll, ih]
      cases declaration.evaluate env <;>
        simp [Entry.extend, Entry.global?, Manifest.ofEntries, Environment.define]

namespace Manifest

theorem append_assoc (first second third : Manifest) :
    (first.append second).append third = first.append (second.append third) := by
  simp [append]

/-- What stands behind a file is read with the manifest that the file gives. -/
theorem extend_file_append {file : Written.File} {rest : Bytes} (manifest : Manifest)
    (valid : file.WellFormed) (stops : Written.Stops Byte.isSpace rest.head?) :
    manifest.extend (file.text ++ rest) =
      ((manifest.append (ofEntries (Declaration.evaluateAll manifest.globals
        file.declarations))).extend rest).mapError (·.shift file.text.length) := by
  have hread := Written.readDocument_text valid stops
  cases finished : (Document.read rest).failure with
  | some failure =>
      have whole : (Document.read (file.text ++ rest)).failure = some failure := by
        rw [hread, finished]
      have within := Document.rest_suffix_of_failure finished
      rw [extend_of_failure whole, extend_of_failure finished, ParseError.of_append within]
      rfl
  | none =>
      have whole : (Document.read (file.text ++ rest)).failure = none := by
        rw [hread, finished]
      rw [extend_of_read whole, extend_of_read finished, hread, Declaration.evaluateAll_append,
        ofEntries_append, append_assoc]
      rfl

/-- Reading an accepted text and a further one gives what reading the further one gives, with
    the manifest of the first to start from. -/
theorem parse_append {first second : Bytes} {manifest : Manifest}
    (accepted : parse first = .ok manifest) (unindented : second.head? ≠ some Byte.space) :
    parse (first ++ second) = (manifest.extend second).mapError (·.shift first.length) := by
  obtain ⟨file, valid, rfl, rfl⟩ := extend_eq_ok_iff.1 accepted
  apply extend_file_append {} valid
  intro b next
  rw [Option.mem_def] at next
  simpa [Byte.isSpace, next] using unindented

theorem parse_append_rule :
    parse (ascii "rule r\n  x = $y\n") =
        .ok { rules := [⟨ascii "r", [⟨ascii "x", [.reference (ascii "y")]⟩]⟩] } ∧
      (ascii "x = $").head? ≠ some Byte.space ∧
      parse (ascii "rule r\n  x = $y\n" ++ ascii "x = $") =
        (extend { rules := [⟨ascii "r", [⟨ascii "x", [.reference (ascii "y")]⟩]⟩] }
          (ascii "x = $")).mapError (·.shift 16) := by
  have accepted : parse (ascii "rule r\n  x = $y\n") =
      .ok { rules := [⟨ascii "r", [⟨ascii "x", [.reference (ascii "y")]⟩]⟩] } := by decide +kernel
  exact ⟨accepted, by decide, parse_append accepted (by decide)⟩

end Manifest

end BuildFile
