import BuildFile.Manifest.Parse
import BuildFile.Proofs.Written.File

/-! # Which texts are accepted

A text is accepted exactly if it is written as a sequence of elements, and the manifest is
what its declarations say. The first text that no element fits is where reading gives up.
-/

namespace BuildFile.Manifest

open Scan Written

theorem extend_of_failure {text : Bytes} {failure : Failure}
    (h : (Document.read text).failure = some failure) (manifest : Manifest) :
    manifest.extend text = .error (.of text failure.expected failure.rest) := by
  simp only [extend, h]

theorem extend_of_read {text : Bytes} (h : (Document.read text).failure = none)
    (manifest : Manifest) :
    manifest.extend text = .ok (manifest.append (ofEntries
      (Declaration.evaluateAll manifest.globals (Document.read text).declarations))) := by
  simp only [extend, h]

/-- The errors of a text are those of reading its declarations. Evaluating them never fails. -/
theorem extend_eq_error_iff {manifest : Manifest} {text : Bytes} {error : ParseError} :
    manifest.extend text = .error error ↔
      ∃ failure, (Document.read text).failure = some failure ∧
        error = .of text failure.expected failure.rest := by
  cases h : (Document.read text).failure with
  | none => simp [extend_of_read h]
  | some failure => simp [extend_of_failure h, eq_comm]

theorem readDocument_file {file : File} (valid : file.WellFormed) :
    Document.read file.text = { declarations := file.declarations } := by
  have ended : Document.read [] = {} := readDocument_none (bind_of_done readStatement_ended _)
  have whole : Document.read (file.text ++ []) = _ := readDocument_text valid (stops_none _)
  rwa [List.append_nil, ended, List.append_nil] at whole

/-- A text is read to its end exactly if it is the text of a file, and only the declarations
    of the file count. -/
theorem extend_eq_ok_iff {manifest result : Manifest} {text : Bytes} :
    manifest.extend text = .ok result ↔
      ∃ file : File, file.WellFormed ∧ file.text = text ∧
        manifest.append (ofEntries
          (Declaration.evaluateAll manifest.globals file.declarations)) = result := by
  constructor
  · intro h
    cases finished : (Document.read text).failure with
    | some failure =>
        rw [extend_of_failure finished] at h
        cases h
    | none =>
        rw [extend_of_read finished] at h
        cases h
        obtain ⟨file, same, valid, declared⟩ := file_of_readDocument text finished
        exact ⟨file, valid, same.symm, by rw [declared]⟩
  · intro h
    obtain ⟨file, valid, rfl, rfl⟩ := h
    have whole := readDocument_file valid
    rw [extend_of_read (by rw [whole]), whole]

/-- The accepted texts are the sequences of elements. -/
theorem parse_accepts_iff (text : Bytes) :
    (∃ manifest, parse text = .ok manifest) ↔
      ∃ file : File, file.WellFormed ∧ file.text = text := by
  constructor
  · intro h
    obtain ⟨manifest, h⟩ := h
    obtain ⟨file, valid, same, -⟩ := extend_eq_ok_iff.1 h
    exact ⟨file, valid, same⟩
  · intro h
    obtain ⟨file, valid, same⟩ := h
    exact ⟨_, extend_eq_ok_iff.2 ⟨file, valid, same, rfl⟩⟩

end BuildFile.Manifest
