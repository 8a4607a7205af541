import BuildFile.Proofs.Written.File

/-! # How far readers look ahead

A reader looks at the bytes that it takes and at the next one, and no further. With the bytes
behind that one replaced, the same comes of it, for success and for failure alike. The only
test of two bytes is the one that tells `|` from `||`, and it is safe because the inputs
behind `||` are read right after it.
-/

namespace BuildFile.Scan

variable {α β : Type}

/-- The same outcome with something else left unread. -/
def Result.withRest (result : Result α) (rest : Bytes) : Result α :=
  match result with
  | .done value _ => .done value rest
  | .failed expected _ => .failed expected rest

/-- What comes of a scan of this text depends on the bytes it takes and on the next one only. -/
def LocalAt (scan : Scan α) (input : Bytes) : Prop :=
  ∃ front, input = front ++ (scan input).rest ∧
    ∀ rest, rest.head? = (scan input).rest.head? →
      scan (front ++ rest) = (scan input).withRest rest

def Local (scan : Scan α) : Prop := ∀ input, LocalAt scan input

theorem head?_append_congr {front first second : Bytes} (h : first.head? = second.head?) :
    (front ++ first).head? = (front ++ second).head? := by
  rw [List.head?_append, List.head?_append, h]

theorem localAt_of_rest_nil {scan : Scan α} {input : Bytes} (h : (scan input).rest = []) :
    LocalAt scan input := by
  refine ⟨input, by rw [h, List.append_nil], ?_⟩
  intro rest next
  rw [h, List.head?_nil, List.head?_eq_none_iff] at next
  subst next
  rw [List.append_nil]
  cases same : scan input with
  | done value rest | failed expected rest =>
      rw [same] at h
      exact h ▸ rfl

theorem localAt_of_done {scan : Scan α} (front : Bytes) (value : α) {left : Bytes}
    (h : ∀ rest, rest.head? = left.head? → scan (front ++ rest) = .done value rest) :
    LocalAt scan (front ++ left) := by
  have whole := h left rfl
  refine ⟨front, by rw [whole, Result.rest_done], ?_⟩
  intro rest next
  rw [whole] at next ⊢
  exact h rest next

theorem localAt_of_failed {scan : Scan α} (front : Bytes) (expected : Expected) {left : Bytes}
    (h : ∀ rest, rest.head? = left.head? → scan (front ++ rest) = .failed expected rest) :
    LocalAt scan (front ++ left) := by
  have whole := h left rfl
  refine ⟨front, by rw [whole, Result.rest_failed], ?_⟩
  intro rest next
  rw [whole] at next ⊢
  exact h rest next

/-- Behind a text that is passed over, only what follows counts. -/
theorem LocalAt.passed {scan other : Scan α} {input : Bytes} (h : LocalAt other input)
    (lead : Bytes) (same : ∀ rest, rest.head? = input.head? → scan (lead ++ rest) = other rest) :
    LocalAt scan (lead ++ input) := by
  obtain ⟨front, split, further⟩ := h
  have whole := same input rfl
  refine ⟨lead ++ front, ?_, ?_⟩
  · rw [whole, List.append_assoc, ← split]
  · intro rest next
    rw [whole] at next ⊢
    -- If nothing was taken, the byte that must not change is the first one itself.
    have seen : (front ++ rest).head? = input.head? := by
      rw [head?_append_congr next, ← split]
    rw [List.append_assoc, same _ seen]
    exact further rest next

theorem LocalAt.bind {scan : Scan α} {next : α → Scan β} {input : Bytes}
    (first : LocalAt scan input)
    (second : ∀ value middle, scan input = .done value middle → LocalAt (next value) middle) :
    LocalAt (scan >>= next) input := by
  obtain ⟨front, split, further⟩ := first
  cases h : scan input with
  | failed expected middle =>
      rw [h] at split further
      have whole := bind_of_failed h next
      refine ⟨front, by rw [whole]; exact split, ?_⟩
      intro rest same
      rw [whole] at same ⊢
      exact bind_of_failed (further rest same) next
  | done value middle =>
      rw [h] at split further
      obtain ⟨back, splitMiddle, furtherMiddle⟩ := second value middle h
      have whole := bind_of_done h next
      refine ⟨front ++ back, ?_, ?_⟩
      · rw [whole, List.append_assoc, ← splitMiddle]
        exact split
      · intro rest same
        rw [whole] at same ⊢
        -- The first scan may have looked at the first byte that the second one takes.
        have seen : (back ++ rest).head? = middle.head? := by
          rw [head?_append_congr same, ← splitMiddle]
        rw [List.append_assoc, bind_of_done (further (back ++ rest) seen)]
        exact furtherMiddle rest same

theorem Local.bind {scan : Scan α} {next : α → Scan β} (first : Local scan)
    (second : ∀ value, Local (next value)) : Local (scan >>= next) :=
  fun input => (first input).bind fun value middle _ => second value middle

theorem local_pure (value : α) : Local (pure value : Scan α) :=
  fun _ => localAt_of_done [] value fun _ _ => rfl

theorem local_fail (expected : Expected) : Local (fail expected : Scan α) :=
  fun _ => localAt_of_failed [] expected fun _ _ => rfl

theorem Local.map {scan : Scan α} (h : Local scan) (f : α → β) : Local (f <$> scan) :=
  h.bind fun _ => local_pure _

theorem local_byte (wanted : UInt8) (expected : Expected) : Local (byte wanted expected) := by
  intro input
  cases input with
  | nil => exact localAt_of_rest_nil rfl
  | cons b tail =>
      by_cases h : b = wanted
      · subst h
        apply localAt_of_done [b] ()
        intro rest _
        simp [byte]
      · apply localAt_of_failed [] expected
        intro rest next
        cases rest with
        | nil => cases next
        | cons c rest =>
            cases next
            simp [byte, h]

theorem local_endOfLine : Local endOfLine := local_byte _ _

theorem local_spaces : Local spaces := by
  intro input
  obtain ⟨n, same⟩ := Written.exists_spaces input
  have stops := Written.stops_dropWhile Byte.isSpace input
  rw [same]
  apply localAt_of_done (Written.spaces n) ()
  intro rest next
  rw [← next] at stops
  exact Written.spaces_eq_done_iff.2 ⟨n, rfl, stops⟩

theorem local_identifier : Local identifier := by
  intro input
  cases h : identifier input with
  | done name left =>
      obtain ⟨rfl, valid, stops⟩ := Written.identifier_eq_done_iff.1 h
      apply localAt_of_done name name
      intro rest next
      rw [← next] at stops
      exact Written.identifier_eq_done_iff.2 ⟨rfl, valid, stops⟩
  | failed expected left =>
      obtain ⟨rfl, rfl, stops⟩ := Written.identifier_eq_failed_iff.1 h
      apply localAt_of_failed [] .identifier
      intro rest next
      rw [← next] at stops
      exact Written.identifier_eq_failed_iff.2 ⟨rfl, rfl, stops⟩

theorem local_atEnd : Local atEnd := by
  intro input
  apply localAt_of_done [] input.isEmpty
  intro rest next
  cases rest <;> cases input <;> simp_all [atEnd]

end BuildFile.Scan

namespace BuildFile

open Scan Written

namespace Template

theorem local_readBraced : readBraced.Local :=
  local_identifier.bind fun _ => (local_byte _ _).bind fun _ => local_pure _

theorem local_readBare : readBare.Local :=
  local_identifier.bind fun _ => local_pure _

theorem local_readEscape : readEscape.Local := by
  intro input
  cases input with
  | nil => exact localAt_of_rest_nil rfl
  | cons b tail =>
      by_cases newline : b = Byte.newline
      · subst newline
        have folded : LocalAt ((fun _ => []) <$> Scan.spaces : Scan Template) tail :=
          local_spaces.map _ tail
        exact folded.passed [Byte.newline] fun _ _ => rfl
      · by_cases literal : needsEscape b = true
        · apply localAt_of_done [b] [.literal [b]]
          intro rest _
          simp [readEscape, newline, literal]
        · by_cases brace : b = Byte.openBrace
          · subst brace
            exact (local_readBraced tail).passed [Byte.openBrace] fun _ _ => rfl
          · apply (local_readBare (b :: tail)).passed []
            intro rest next
            cases rest with
            | nil => cases next
            | cons c rest =>
                cases next
                rw [List.nil_append, readEscape, if_neg newline, if_neg literal, if_neg brace]

theorem local_read (context : Context) : Local (read context) := by
  intro input
  induction size : input.length using Nat.strongRecOn generalizing input with
  | ind size ih =>
      subst size
      have plain : ∀ b ∈ input.takeWhile context.isPlain, context.isPlain b = true :=
        fun _ => List.mem_takeWhile_imp
      have stops := stops_dropWhile context.isPlain input
      have whole := List.takeWhile_append_dropWhile (p := context.isPlain) (l := input)
      generalize input.takeWhile context.isPlain = run at plain whole
      generalize input.dropWhile context.isPlain = left at stops whole
      subst whole
      cases left with
      | nil =>
          rw [List.append_nil]
          cases context with
          | value => exact localAt_of_rest_nil (by rw [read_unended plain, Result.rest_failed])
          | path =>
              have whole : read .path (run ++ []) = .done (ofText run) [] := read_run plain rfl
              rw [List.append_nil] at whole
              exact localAt_of_rest_nil (by rw [whole, Result.rest_done])
      | cons b behind =>
          by_cases dollar : b = Byte.dollar
          · subst dollar
            have further : LocalAt (do
                let parts ← readEscape
                let more ← (read context : Scan Template)
                return ofText run ++ parts ++ more) behind := by
              refine (local_readEscape behind).bind fun parts middle hescape => ?_
              have shorter := forward_readEscape.length_le_of_done hescape
              have inner := ih middle.length (by simp; omega) middle rfl
              exact inner.bind fun _ _ _ => local_pure _ _
            have passed : LocalAt (read context) ((run ++ [Byte.dollar]) ++ behind) :=
              further.passed _ fun rest _ => by simpa using read_dollar plain rest
            simpa using passed
          · have ends : context.ends b = true := by
              simpa [Context.isPlain, dollar] using stops
            apply localAt_of_done run (ofText run)
            intro rest next
            apply read_run plain
            rw [next]
            exact ends

theorem local_readPaths : Local readPaths := by
  intro input
  induction size : input.length using Nat.strongRecOn generalizing input with
  | ind size ih =>
      subst size
      rw [readPaths_eq]
      refine (local_spaces input).bind fun _ start hspaces => ?_
      refine (local_read .path start).bind fun path left hread => ?_
      split
      · exact local_pure _ _
      · next content =>
        have skipped := forward_spaces.length_le_of_done hspaces
        have shorter := length_lt_of_read hread content
        exact (ih left.length (by omega) left rfl).bind fun _ _ _ => local_pure _ _

theorem local_readTarget : readTarget.Local := by
  refine Local.bind (local_read .path) fun path => ?_
  split
  · exact local_fail _
  · exact local_pure _

end Template

theorem Binding.local_readValue (name : Name) : (readValue name).Local :=
  (local_byte _ _).bind fun _ => local_spaces.bind fun _ =>
    Local.bind (Template.local_read _) fun _ => local_endOfLine.bind fun _ => local_pure _

theorem Binding.local_read : read.Local :=
  local_identifier.bind fun _ => local_spaces.bind fun _ => local_readValue _

namespace BuildLine

theorem local_readOrderOnlyInputs : readOrderOnlyInputs.Local := by
  intro input
  by_cases pipe : ∃ after, input = Byte.pipe :: after
  · obtain ⟨after, rfl⟩ := pipe
    have further : LocalAt (do byte Byte.pipe .buildInputs; Template.readPaths) after :=
      (local_byte _ _).bind (fun _ => Template.local_readPaths) after
    exact further.passed [Byte.pipe] fun _ _ => rfl
  · have stops : Stops (· == Byte.pipe) input.head? := by
      cases input <;> simp_all
    apply localAt_of_done [] []
    intro rest next
    rw [← next] at stops
    exact readOrderOnlyInputs_none stops

/-- Two pipes are looked at together and also taken together. -/
theorem local_readMarkedInputs {α : Type} {next : List Template → List Template → Scan α}
    (further : ∀ implicit orderOnly, (next implicit orderOnly).Local) :
    Local (do
      let implicit ← readImplicitInputs
      let orderOnly ← readOrderOnlyInputs
      next implicit orderOnly) := by
  intro input
  by_cases pipe : ∃ after, input = Byte.pipe :: after
  · obtain ⟨after, rfl⟩ := pipe
    by_cases double : ∃ behind, after = Byte.pipe :: behind
    · obtain ⟨behind, rfl⟩ := double
      have inner : Local (do
          let orderOnly ← (Template.readPaths : Scan (List Template))
          next [] orderOnly) :=
        Local.bind Template.local_readPaths fun _ => further _ _
      refine (inner behind).passed [Byte.pipe, Byte.pipe] fun rest _ => ?_
      exact (bind_of_done (readImplicitInputs_none (by simp)) _).trans
        (bind_reader_congr (readOrderOnlyInputs_double rest))
    · have stops : Stops (· == Byte.pipe) after.head? := by
        cases after <;> simp_all
      have inner : Local (do
          let implicit ← (Template.readPaths : Scan (List Template))
          let orderOnly ← readOrderOnlyInputs
          next implicit orderOnly) :=
        Local.bind Template.local_readPaths fun _ =>
          local_readOrderOnlyInputs.bind fun _ => further _ _
      refine (inner after).passed [Byte.pipe] fun rest same => ?_
      rw [← same] at stops
      exact bind_reader_congr (readImplicitInputs_single stops)
  · have stops : Stops (· == Byte.pipe) input.head? := by
      cases input <;> simp_all
    refine (further [] [] input).passed [] fun rest same => ?_
    rw [← same] at stops
    have none : readImplicitInputs rest = .done [] rest := by
      refine readImplicitInputs_none fun after h => ?_
      rw [h] at stops
      simp at stops
    exact (bind_of_done none _).trans (bind_of_done (readOrderOnlyInputs_none stops) _)

theorem local_read : read.Local :=
  Local.bind Template.local_readPaths fun _ => (local_byte _ _).bind fun _ =>
    local_spaces.bind fun _ => local_identifier.bind fun _ =>
      Local.bind Template.local_readPaths fun _ => local_readMarkedInputs fun _ _ =>
        local_endOfLine.bind fun _ => local_pure _

end BuildLine

namespace Statement

theorem local_readRuleLine : readRuleLine.Local :=
  local_identifier.bind fun _ => local_spaces.bind fun _ =>
    local_endOfLine.bind fun _ => local_pure _

theorem local_readDefaultLine : readDefaultLine.Local :=
  Template.local_readTarget.bind fun _ => local_spaces.bind fun _ =>
    local_endOfLine.bind fun _ => local_pure _

theorem local_readAfter (word : Name) : (readAfter word).Local := by
  unfold readAfter
  split
  · exact BuildLine.local_read.map _
  · split
    · exact local_readRuleLine.map _
    · split
      · exact local_readDefaultLine.map _
      · exact (Binding.local_readValue word).map _

theorem local_read : read.Local :=
  local_identifier.bind fun _ => local_spaces.bind fun _ => local_readAfter _

theorem local_skipLines : Local skipLines := by
  intro input
  obtain ⟨left, ⟨file, rfl, valid, empty⟩, pause⟩ := exists_pause input
  have inner : LocalAt skipLines left := by
    cases pause with
    | ended => exact localAt_of_rest_nil (by rw [skipLines, Result.rest_done])
    | openComment within =>
        exact localAt_of_rest_nil (by rw [fileSkip_openComment within, Result.rest_failed])
    | statement start =>
        refine localAt_of_done [] () fun rest same => ?_
        refine fileSkip_statement ⟨?_, by simpa [same] using start.2⟩
        intro empty
        simp only [List.nil_append] at empty
        rw [empty, List.head?_nil, eq_comm, List.head?_eq_none_iff] at same
        exact start.1 same
  exact inner.passed file.text fun rest _ => PassesTo.skipLines_eq ⟨file, rfl, valid, empty⟩

theorem local_readNext : readNext.Local := by
  refine Local.bind local_skipLines fun _ => local_atEnd.bind fun finished => ?_
  split
  · exact local_pure _
  · exact local_read.map _

end Statement

namespace Binding

theorem local_skipLines : Local skipLines := by
  intro input
  obtain ⟨left, ⟨block, rfl, valid, empty⟩, halt⟩ := exists_halt input
  have inner : LocalAt skipLines left := by
    cases halt with
    | unindented stops =>
        refine localAt_of_done [] false fun rest same => ?_
        rw [← same] at stops
        exact blockSkip_stops stops
    | definition n start =>
        refine localAt_of_done (Written.spaces (n + 1)) true fun rest same => ?_
        apply blockSkip_indented n
        rwa [StartsDefinition, same]
    | openComment n within =>
        exact localAt_of_rest_nil (by rw [blockSkip_openComment n within, Result.rest_failed])
  exact inner.passed block.text fun rest _ => SkipsTo.skipLines_eq ⟨block, rfl, valid, empty⟩

theorem local_readNext : readNext.Local := by
  refine Local.bind local_skipLines fun more => ?_
  split
  · exact local_read.map _
  · exact local_pure _

theorem local_readBlock : Local readBlock := by
  intro input
  induction size : input.length using Nat.strongRecOn generalizing input with
  | ind size ih =>
      subst size
      rw [readBlock_eq]
      refine (local_readNext input).bind fun found left hread => ?_
      cases found with
      | none => exact local_pure _ _
      | some binding =>
          have shorter := length_lt_of_readNext hread
          exact (ih left.length shorter left rfl).bind fun _ _ _ => local_pure _ _

end Binding

theorem Statement.local_readBlock (statement : Statement) : statement.readBlock.Local := by
  cases statement with
  | rule | build => exact Binding.local_readBlock
  | assignment | default => exact local_pure _

namespace Declaration

theorem local_readOf (statement : Statement) : (readOf statement).Local :=
  statement.local_readBlock.bind fun _ => local_pure _

theorem local_readNext : readNext.Local := by
  refine Statement.local_readNext.bind fun statement => ?_
  cases statement with
  | none => exact local_pure _
  | some statement => exact (local_readOf statement).map _

end Declaration

/-- Reading a document gives up in the same way whatever stands behind the byte that does not
    fit. -/
theorem Document.exists_front_of_failure {input : Bytes} {failure : Failure}
    (h : (read input).failure = some failure) :
    ∃ front, input = front ++ failure.rest ∧ ∀ rest, rest.head? = failure.rest.head? →
      (read (front ++ rest)).failure = some ⟨failure.expected, rest⟩ := by
  fun_induction read input with
  | case1 input expected left hread =>
      cases h
      obtain ⟨front, split, further⟩ := Declaration.local_readNext input
      rw [hread] at split further
      refine ⟨front, split, fun rest same => ?_⟩
      rw [readDocument_failed (further rest same)]
  | case2 => cases h
  | case3 input declaration middle hread document ih =>
      obtain ⟨front, split, further⟩ := Declaration.local_readNext input
      obtain ⟨back, splitMiddle, furtherMiddle⟩ := ih h
      rw [hread] at split further
      refine ⟨front ++ back, ?_, fun rest same => ?_⟩
      · rw [List.append_assoc, ← splitMiddle]
        exact split
      · have seen : (back ++ rest).head? = middle.head? := by
          rw [head?_append_congr same, ← splitMiddle]
        rw [List.append_assoc, readDocument_some (further (back ++ rest) seen)]
        exact furtherMiddle rest same

end BuildFile
