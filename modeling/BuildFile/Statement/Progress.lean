import BuildFile.Statement.Reader

/-! # Progress of reading statements

None of the readers of statements goes back, and each statement or definition of a block
that is read takes at least one byte. Reading a whole file ends for this reason.
-/

namespace BuildFile

open Scan

namespace Binding

theorem forward_readValue (name : Name) : (readValue name).Forward :=
  (forward_byte _ _).bind fun _ => forward_spaces.bind fun _ =>
    (Template.forward_read _).bind fun _ => forward_endOfLine.bind fun _ => forward_pure _

theorem forward_read : read.Forward :=
  forward_identifier.bind fun _ => forward_spaces.bind fun _ => forward_readValue _

theorem consumes_read : read.Consumes :=
  consumes_identifier.bind fun _ => forward_spaces.bind fun _ => forward_readValue _

theorem forward_skipLines : Forward skipLines := by
  intro input
  have indented {rest line : Bytes} {c : UInt8} (h : rest.dropWhile Byte.isSpace = c :: line) :
      line <:+ Byte.space :: rest :=
    ((List.suffix_cons c line).trans (h ▸ List.dropWhile_suffix _)).trans (List.suffix_cons _ rest)
  fun_induction skipLines input with
  | case1 => exact List.suffix_rfl
  | case2 => exact List.nil_suffix
  | case3 rest line hindented ih => exact ih.trans (indented hindented)
  | case4 rest line expected after hcomment hindented =>
      have moved := forward_comment line
      rw [hcomment] at moved
      exact moved.trans (indented hindented)
  | case5 rest line _ after hcomment hindented _ ih =>
      have moved := forward_comment line
      rw [hcomment] at moved
      exact ih.trans (moved.trans (indented hindented))
  | case6 rest c line hindented =>
      exact (hindented ▸ List.dropWhile_suffix _).trans (List.suffix_cons _ rest)
  | case7 => exact List.suffix_rfl

theorem forward_readNext : readNext.Forward := by
  refine Forward.bind forward_skipLines fun more => ?_
  split
  · exact forward_read.map _
  · exact forward_pure _

/-- Reading a definition of a block takes at least one byte. -/
theorem length_lt_of_readNext {input rest : Bytes} {binding : Binding}
    (h : readNext input = .done (some binding) rest) : rest.length < input.length := by
  obtain ⟨more, start, hskip, hread⟩ := bind_eq_done_iff.1 h
  have skipped := Forward.length_le_of_done forward_skipLines hskip
  split at hread
  · have shorter := consumes_read.map some hread
    omega
  · cases hread

end Binding

namespace BuildLine

theorem forward_readImplicitInputs : readImplicitInputs.Forward := by
  intro input
  cases input with
  | nil => exact List.suffix_rfl
  | cons b rest =>
      rw [readImplicitInputs]
      split
      · exact (Template.forward_readPaths rest).trans (List.suffix_cons b rest)
      · exact List.suffix_rfl

theorem forward_readOrderOnlyInputs : readOrderOnlyInputs.Forward := by
  intro input
  cases input with
  | nil => exact List.suffix_rfl
  | cons b rest =>
      rw [readOrderOnlyInputs]
      split
      · have forward : Forward (do byte Byte.pipe .buildInputs; Template.readPaths) :=
          (forward_byte _ _).bind fun _ => Template.forward_readPaths
        exact (forward rest).trans (List.suffix_cons b rest)
      · exact List.suffix_rfl

theorem forward_read : read.Forward :=
  Forward.bind Template.forward_readPaths fun _ => (forward_byte _ _).bind fun _ =>
    forward_spaces.bind fun _ => forward_identifier.bind fun _ =>
      Forward.bind Template.forward_readPaths fun _ => forward_readImplicitInputs.bind fun _ =>
        forward_readOrderOnlyInputs.bind fun _ => forward_endOfLine.bind fun _ => forward_pure _

end BuildLine

namespace Statement

theorem forward_readRuleLine : readRuleLine.Forward :=
  forward_identifier.bind fun _ => forward_spaces.bind fun _ =>
    forward_endOfLine.bind fun _ => forward_pure _

theorem forward_readDefaultLine : readDefaultLine.Forward :=
  Template.forward_readTarget.bind fun _ => forward_spaces.bind fun _ =>
    forward_endOfLine.bind fun _ => forward_pure _

theorem forward_readAfter (word : Name) : (readAfter word).Forward := by
  unfold readAfter
  split
  · exact BuildLine.forward_read.map _
  · split
    · exact forward_readRuleLine.map _
    · split
      · exact forward_readDefaultLine.map _
      · exact (Binding.forward_readValue word).map _

theorem forward_read : read.Forward :=
  forward_identifier.bind fun _ => forward_spaces.bind fun _ => forward_readAfter _

theorem consumes_read : read.Consumes :=
  consumes_identifier.bind fun _ => forward_spaces.bind fun _ => forward_readAfter _

theorem forward_skipLines : Forward skipLines := by
  intro input
  fun_induction skipLines input with
  | case1 => exact List.suffix_rfl
  | case2 rest ih => exact ih.trans (List.suffix_cons _ rest)
  | case3 rest expected after hcomment =>
      have moved := forward_comment rest
      rw [hcomment] at moved
      exact moved.trans (List.suffix_cons _ rest)
  | case4 rest _ after hcomment _ ih =>
      have moved := forward_comment rest
      rw [hcomment] at moved
      exact ih.trans (moved.trans (List.suffix_cons _ rest))
  | case5 => exact List.suffix_rfl

theorem forward_readNext : readNext.Forward := by
  refine Forward.bind forward_skipLines fun _ => forward_atEnd.bind fun finished => ?_
  split
  · exact forward_pure _
  · exact forward_read.map _

/-- Reading a statement takes at least one byte. -/
theorem length_lt_of_readNext {input rest : Bytes} {statement : Statement}
    (h : readNext input = .done (some statement) rest) : rest.length < input.length := by
  obtain ⟨_, start, hskip, hread⟩ := bind_eq_done_iff.1 h
  have skipped := Forward.length_le_of_done forward_skipLines hskip
  obtain ⟨finished, same, hend, hread⟩ := bind_eq_done_iff.1 hread
  cases hend
  split at hread
  · cases hread
  · have shorter := consumes_read.map some hread
    omega

end Statement

end BuildFile
