import BuildFile.Proofs.EvaluationOrder
import BuildFile.Proofs.StatementMoves

/-! # Whole files by moves

A loop asks for round after round, and nothing in it counts them. That it ends is a fact about its
rounds: each one that asks for another has moved on. So the guard of a loop is never met, and the
loop comes to the same without it. That holds of the paths of a line, of the lines and definitions
of a block, and of the statements of a file, which are read into the manifest that scanning the file
gives.
-/

namespace BuildFile

namespace Reading

variable {α σ : Type}

/-- A loop without its guard: the rounds follow each other until one leaves or fails. There are no
    others, so a loop that goes on for ever has no outcome, and neither has one with a fault. -/
inductive Runs (round : σ → Reading (Turn σ α)) : σ → Cursor → Outcome α → Prop where
  | leave {state : σ} {cursor after : Cursor} {value : α}
      (left : round state cursor = .done (.leave value) after) :
      Runs round state cursor (.done value after)
  | failed {state : σ} {cursor after : Cursor} {error : ParseError}
      (failed : round state cursor = .failed error after) :
      Runs round state cursor (.failed error after)
  | again {state next : σ} {cursor after : Cursor} {outcome : Outcome α}
      (again : round state cursor = .done (.again next) after)
      (further : Runs round next after outcome) :
      Runs round state cursor outcome

/-- A loop without a fault ends, also if nobody looks whether its rounds move on. -/
theorem runs_loop {round : σ → Reading (Turn σ α)} {state : σ} {cursor : Cursor}
    (sound : ∀ fault, loop round state cursor ≠ .fault fault) :
    Runs round state cursor (loop round state cursor) := by
  induction size : cursor.rest.length using Nat.strongRecOn generalizing cursor state with
  | ind size ih =>
      subst size
      rw [loop] at sound ⊢
      cases turn : round state cursor with
      | failed error after => exact .failed turn
      | fault fault =>
          simp only [turn] at sound
          exact absurd rfl (sound fault)
      | done asked after =>
          cases asked with
          | leave value => exact .leave turn
          | again next =>
              simp only [turn] at sound ⊢
              split at sound
              · next moved =>
                rw [dif_pos moved]
                exact .again turn (ih _ moved sound rfl)
              · exact absurd rfl (sound .endless)

/-- What follows a scan meets no fault. -/
theorem Follows.ne_fault {reading : Reading α} {scan : Scan α} (h : Follows reading scan)
    (cursor : Cursor) (fault : Fault) : reading cursor ≠ .fault fault := by
  rw [h.eq, ofScan]
  split <;> simp

theorem Follows.runs_loop {round : σ → Reading (Turn σ α)} {state : σ} {scan : Scan α}
    (h : Follows (Reading.loop round state) scan) (cursor : Cursor) :
    Runs round state cursor (Reading.loop round state cursor) :=
  Reading.runs_loop (h.ne_fault cursor)

end Reading

namespace Manifest

/-- Scan all that is left of a file into a manifest. -/
def scanInto (manifest : Manifest) : Scan Manifest := fun input =>
  let document := Document.read input
  match document.failure with
  | none => .done (document.declarations.foldl declare manifest) []
  | some failure => .failed failure.expected failure.rest

/-- Scan one more declaration into a manifest. -/
def declareTurn (manifest : Manifest) : Scan (Reading.Turn Manifest Manifest) := do
  match ← Declaration.readNext with
  | none => return .leave manifest
  | some declaration => return .again (manifest.declare declaration)

theorem forward_scanInto (manifest : Manifest) : manifest.scanInto.Forward := by
  intro input
  unfold scanInto
  dsimp only
  split
  · exact List.nil_suffix
  · next failed => exact Document.rest_suffix_of_failure failed

theorem scanInto_unroll (manifest : Manifest) (input : Bytes) :
    manifest.scanInto input = Reading.goOn scanInto (manifest.declareTurn input) := by
  cases next : Declaration.readNext input with
  | failed expected rest =>
      rw [declareTurn, Scan.bind_of_failed next, scanInto, Written.readDocument_failed next]
      rfl
  | done found rest =>
      rw [declareTurn, Scan.bind_of_done next]
      cases found with
      | none =>
          obtain ⟨-, rfl⟩ := Written.passesTo_of_readDeclaration next
          rw [scanInto, Written.readDocument_none next]
          rfl
      | some declaration =>
          rw [scanInto, Written.readDocument_some next]
          rfl

end Manifest

namespace Reading

theorem follows_addStatement (manifest : Manifest) (statement : Statement) :
    Follows (addStatement manifest statement)
      (manifest.declare <$> Declaration.readOf statement) := by
  unfold addStatement
  cases opens : statement.opensBlock with
  | false =>
      apply (Follows.pure (manifest.declare ⟨statement, []⟩)).congr
      intro input
      have empty := congrFun (Written.readBlock_of_not_opensBlock opens) input
      exact (map_of_done (Declaration.readOf statement) (Scan.bind_of_done empty _)).symm
  | true =>
      apply (follows_bindings.bind fun block =>
        .pure (manifest.declare ⟨statement, block⟩)).congr
      intro input
      have same := congrFun (Written.readBlock_of_opensBlock opens) input
      cases found : Binding.readBlock input with
      | failed expected rest =>
          rw [found] at same
          rw [Scan.bind_of_failed found]
          exact (map_of_failed (Declaration.readOf statement) (Scan.bind_of_failed same _)).symm
      | done block rest =>
          rw [found] at same
          rw [Scan.bind_of_done found]
          exact (map_of_done (Declaration.readOf statement) (Scan.bind_of_done same _)).symm

/-- What comes of the next statement and its block, in a manifest. -/
def statementTurn (manifest : Manifest) : Scan (Turn Manifest Manifest) := do
  match ← Statement.readNext with
  | none => return .leave manifest
  | some statement => .again <$> (manifest.declare <$> Declaration.readOf statement)

theorem statementTurn_eq (manifest : Manifest) (input : Bytes) :
    statementTurn manifest input = manifest.declareTurn input := by
  cases next : Statement.readNext input with
  | failed expected rest =>
      have failed : Declaration.readNext input = .failed expected rest := Scan.bind_of_failed next _
      exact (Scan.bind_of_failed next _).trans (Scan.bind_of_failed failed _).symm
  | done found rest =>
      apply (Scan.bind_of_done next _).trans
      cases found with
      | none => rw [Manifest.declareTurn, Scan.bind_of_done (Declaration.readNext_none next)]
      | some statement =>
          have passed : Declaration.readNext input = (some <$> Declaration.readOf statement) rest :=
            Scan.bind_of_done next _
          cases whole : Declaration.readOf statement rest with
          | failed expected left =>
              rw [map_of_failed _ whole] at passed
              apply Eq.trans _ (Scan.bind_of_failed passed _).symm
              exact map_of_failed _ (map_of_failed _ whole)
          | done declaration left =>
              rw [map_of_done _ whole] at passed
              apply Eq.trans _ (Scan.bind_of_done passed _).symm
              exact map_of_done _ (map_of_done _ whole)

theorem follows_manifestRound (manifest : Manifest) :
    Follows (manifestRound manifest) manifest.declareTurn := by
  suffices h : Follows (manifestRound manifest) (statementTurn manifest) from
    h.congr (statementTurn_eq manifest)
  apply follows_nextStatement.bind
  intro found
  cases found with
  | none => exact .pure _
  | some statement => exact (follows_addStatement manifest statement).bind fun _ => .pure _

theorem follows_loop_manifestRound (manifest : Manifest) :
    Follows (loop manifestRound manifest) manifest.scanInto := by
  apply Follows.loop Manifest.declareTurn Manifest.scanInto follows_manifestRound
  · intro manifest input next rest again
    obtain ⟨found, middle, hread, same⟩ := Scan.bind_eq_done_iff.1 again
    cases found with
    | none => cases same
    | some declaration =>
        cases same
        exact Declaration.length_lt_of_readNext hread
  · exact Manifest.forward_scanInto
  · exact Manifest.scanInto_unroll

/-- Reading a file by moves gives what parsing it gives, be it a manifest or an error. -/
theorem manifest_start (text : Bytes) :
    (∀ result, Manifest.parse text = .ok result →
      ∃ after, manifest (.start text) = .done result after) ∧
    (∀ error, Manifest.parse text = .error error →
      ∃ after, manifest (.start text) = .failed error after) := by
  have whole : (Cursor.start text).rest = text := rfl
  have follows := follows_loop_manifestRound {}
  constructor
  · intro result accepted
    obtain ⟨declarations, declares, rfl⟩ := Manifest.parse_eq_ok_iff.1 accepted
    have read : Document.read text = { declarations } := declares.read_eq
    have done : Manifest.scanInto {} text = .done (declarations.foldl Manifest.declare {}) [] := by
      rw [Manifest.scanInto, read]
    exact ⟨_, follows.of_done (whole ▸ done)⟩
  · intro error rejected
    obtain ⟨failure, finished, rfl⟩ := Manifest.extend_eq_error_iff.1 rejected
    have failed : Manifest.scanInto {} text = .failed failure.expected failure.rest := by
      simp only [Manifest.scanInto, finished]
    exact ⟨_, follows.of_failed (whole ▸ failed)⟩

end Reading

end BuildFile
