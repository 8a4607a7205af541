import BuildFile.Statement.Progress

/-! # Documents

A document is a build file as it is written: its declarations, not evaluated, up to the
end of the file or to the first place that cannot be read.
-/

namespace BuildFile

open Scan

/-- Read the definitions of a block up to the first line that is not indented. -/
def Binding.readBlock (input : Bytes) : Result (List Binding) :=
  match _hread : readNext input with
  | .failed expected rest => .failed expected rest
  | .done none rest => .done [] rest
  | .done (some binding) rest =>
      match readBlock rest with
      | .failed expected rest => .failed expected rest
      | .done bindings rest => .done (binding :: bindings) rest
termination_by input.length
decreasing_by exact length_lt_of_readNext _hread

theorem Binding.forward_readBlock : Forward readBlock := by
  intro input
  fun_induction readBlock input with
  | case1 input expected rest hread | case2 input rest hread =>
      have moved := forward_readNext input
      rw [hread] at moved
      exact moved
  | case3 input binding rest hread expected left hblock ih
  | case4 input binding rest hread bindings left hblock ih =>
      have moved := forward_readNext input
      rw [hread] at moved
      rw [hblock] at ih
      exact ih.trans moved

/-- Read the block of a statement, which is empty if the statement opens none. -/
def Statement.readBlock (statement : Statement) : Scan (List Binding) :=
  if statement.opensBlock then Binding.readBlock else return []

theorem Statement.forward_readBlock (statement : Statement) : statement.readBlock.Forward := by
  cases statement with
  | rule | build => exact Binding.forward_readBlock
  | assignment | default => exact forward_pure _

namespace Declaration

/-- Read the block of a statement that has been read. -/
def readOf (statement : Statement) : Scan Declaration := do
  let block ← statement.readBlock
  return { statement, block }

/-- Read the next statement together with its block. -/
def readNext : Scan (Option Declaration) := do
  match ← Statement.readNext with
  | none => return none
  | some statement => some <$> readOf statement

theorem forward_readOf (statement : Statement) : (readOf statement).Forward :=
  statement.forward_readBlock.bind fun _ => forward_pure _

theorem forward_readNext : readNext.Forward := by
  refine Statement.forward_readNext.bind fun statement => ?_
  cases statement with
  | none => exact forward_pure _
  | some statement => exact (forward_readOf statement).map _

/-- Reading a declaration takes at least one byte. -/
theorem length_lt_of_readNext {input rest : Bytes} {declaration : Declaration}
    (h : readNext input = .done (some declaration) rest) : rest.length < input.length := by
  obtain ⟨statement, middle, hstatement, hblock⟩ := bind_eq_done_iff.1 h
  cases statement with
  | none => cases hblock
  | some statement =>
      have shorter := Statement.length_lt_of_readNext hstatement
      have := ((forward_readOf statement).map some).length_le_of_done hblock
      omega

end Declaration

/-- Where and why reading stopped before the end. -/
structure Failure where
  expected : Expected
  /-- What was left unread, from the first byte that did not fit. -/
  rest : Bytes
  deriving Repr, DecidableEq

/-- The declarations of a file, as far as they can be read. -/
structure Document where
  declarations : List Declaration := []
  failure : Option Failure := none
  deriving Repr, DecidableEq

namespace Document

/-- Read all declarations of a file. -/
def read (input : Bytes) : Document :=
  match _hread : Declaration.readNext input with
  | .failed expected rest => { failure := some { expected, rest } }
  | .done none _ => {}
  | .done (some declaration) rest =>
      let document := read rest
      { document with declarations := declaration :: document.declarations }
termination_by input.length
decreasing_by exact Declaration.length_lt_of_readNext _hread

/-- What is left after a failure is the end of the file. -/
theorem rest_suffix_of_failure {input : Bytes} {failure : Failure}
    (h : (read input).failure = some failure) : failure.rest <:+ input := by
  fun_induction read input with
  | case1 input expected rest hread =>
      cases h
      have moved := Declaration.forward_readNext input
      rw [hread] at moved
      exact moved
  | case2 => cases h
  | case3 input declaration rest hread document ih =>
      have moved := Declaration.forward_readNext input
      rw [hread] at moved
      exact (ih h).trans moved

end Document

end BuildFile
