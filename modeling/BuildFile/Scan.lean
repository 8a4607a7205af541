import BuildFile.Bytes

/-! # Reading from the front of the remaining bytes

A scan looks at the bytes that are still unread and either yields a value or says what it
expected instead. In both cases it also tells which bytes it left unread: after a failure
the first of them is the byte that did not fit, so no positions have to be carried along.
The lemmas say that scans move forward only, and which of them read at least one byte.
-/

namespace BuildFile

/-- What a scan was reading when it met a byte that did not fit. -/
inductive Expected where
  | identifier
  | buildColon
  | buildInputs
  | variableReference
  | endOfLine
  | assignment
  | value
  | comment
  | defaultTarget
  deriving Repr, DecidableEq

/-- The wording of messages. -/
def Expected.label : Expected → Bytes
  | .identifier => ascii "identifier"
  | .buildColon => ascii "build colon"
  | .buildInputs => ascii "build inputs"
  | .variableReference => ascii "variable reference"
  | .endOfLine => ascii "end of line"
  | .assignment => ascii "assignment"
  | .value => ascii "value"
  | .comment => ascii "comment"
  | .defaultTarget => ascii "default target"

/-- What came of a scan, with the bytes it left unread. -/
inductive Scan.Result (α : Type) where
  | done (value : α) (rest : Bytes)
  | failed (expected : Expected) (rest : Bytes)
  deriving Repr, DecidableEq

namespace Scan.Result

/-- The bytes that are still unread. -/
def rest {α : Type} : Result α → Bytes
  | .done _ rest => rest
  | .failed _ rest => rest

@[simp]
theorem rest_done {α : Type} (value : α) (rest : Bytes) : (done value rest).rest = rest := rfl

@[simp]
theorem rest_failed {α : Type} (expected : Expected) (rest : Bytes) :
    (failed expected rest : Result α).rest = rest := rfl

end Scan.Result

/-- A way to read a value from the front of the unread bytes. -/
def Scan (α : Type) := Bytes → Scan.Result α

namespace Scan

/-- Scan, and go on with what was found in what was left. A failure ends the scan. -/
protected def bind {α β : Type} (scan : Scan α) (next : α → Scan β) : Scan β := fun input =>
  match scan input with
  | .done value rest => next value rest
  | .failed expected rest => .failed expected rest

instance : Monad Scan where
  pure value := fun input => .done value input
  bind := Scan.bind

/-- Give up at the next byte. -/
def fail {α : Type} (expected : Expected) : Scan α := fun input =>
  .failed expected input

/-- Whether all bytes are read. -/
def atEnd : Scan Bool := fun input =>
  .done input.isEmpty input

/-- Read one given byte. -/
def byte (wanted : UInt8) (expected : Expected) : Scan Unit
  | [] => .failed expected []
  | b :: rest => if b = wanted then .done () rest else .failed expected (b :: rest)

/-- Read all spaces up to the next other byte. There may be none. -/
def spaces : Scan Unit := fun input =>
  .done () (input.dropWhile Byte.isSpace)

/-- Read as many name bytes as there are, at least one. -/
def identifier : Scan Name := fun input =>
  let name := input.takeWhile Byte.isIdentifier
  if name.isEmpty then .failed .identifier input
  else .done name (input.dropWhile Byte.isIdentifier)

/-- Read the newline that has to come now. -/
def endOfLine : Scan Unit :=
  byte Byte.newline .endOfLine

/-- Read the text of a comment and its newline. A comment without a newline is read to the
    end, and fails there. -/
def comment : Scan Unit := fun input =>
  match input.dropWhile (· != Byte.newline) with
  | [] => .failed .comment []
  | _ :: rest => .done () rest

section Equations

variable {α β : Type}

@[simp]
theorem pure_apply (value : α) (input : Bytes) : (pure value : Scan α) input = .done value input :=
  rfl

theorem bind_apply (scan : Scan α) (next : α → Scan β) (input : Bytes) :
    (scan >>= next) input =
      match scan input with
      | .done value rest => next value rest
      | .failed expected rest => .failed expected rest :=
  rfl

theorem bind_of_done {scan : Scan α} {input rest : Bytes} {value : α}
    (h : scan input = .done value rest) (next : α → Scan β) :
    (scan >>= next) input = next value rest := by
  rw [bind_apply, h]

theorem bind_of_failed {scan : Scan α} {input rest : Bytes} {expected : Expected}
    (h : scan input = .failed expected rest) (next : α → Scan β) :
    (scan >>= next) input = .failed expected rest := by
  rw [bind_apply, h]

/-- Two scans in a row succeed exactly if each of them does. -/
theorem bind_eq_done_iff {scan : Scan α} {next : α → Scan β} {input rest : Bytes} {result : β} :
    (scan >>= next) input = .done result rest ↔
      ∃ value middle, scan input = .done value middle ∧ next value middle = .done result rest := by
  rw [bind_apply]
  cases scan input with
  | done value middle =>
      exact ⟨fun h => ⟨value, middle, rfl, h⟩, fun ⟨_, _, same, h⟩ => by cases same; exact h⟩
  | failed expected middle => simp

end Equations

section Movement

variable {α β : Type}

/-- Dropping a run that is not empty leaves less. -/
theorem length_dropWhile_lt {p : UInt8 → Bool} {input : Bytes} (h : input.takeWhile p ≠ []) :
    (input.dropWhile p).length < input.length := by
  have parts := congrArg List.length (List.takeWhile_append_dropWhile (p := p) (l := input))
  rw [List.length_append] at parts
  have := List.length_pos_iff.2 h
  omega

/-- A scan that never goes back: what it leaves is a suffix of what it was given. -/
def Forward (scan : Scan α) : Prop :=
  ∀ input, (scan input).rest <:+ input

/-- A scan that reads at least one byte whenever it succeeds. -/
def Consumes (scan : Scan α) : Prop :=
  ∀ ⦃input value rest⦄, scan input = .done value rest → rest.length < input.length

theorem Forward.length_le {scan : Scan α} (forward : Forward scan) (input : Bytes) :
    (scan input).rest.length ≤ input.length :=
  (forward input).length_le

theorem Forward.length_le_of_done {scan : Scan α} (forward : Forward scan)
    {input rest : Bytes} {value : α} (h : scan input = .done value rest) :
    rest.length ≤ input.length := by
  simpa [h] using forward.length_le input

theorem forward_pure (value : α) : Forward (pure value : Scan α) :=
  fun _ => List.suffix_rfl

theorem Forward.bind {scan : Scan α} {next : α → Scan β}
    (first : Forward scan) (second : ∀ value, Forward (next value)) :
    Forward (scan >>= next) := by
  intro input
  have moved := first input
  rw [bind_apply]
  cases h : scan input with
  | done value rest =>
      rw [h] at moved
      exact (second value rest).trans moved
  | failed expected rest =>
      rw [h] at moved
      exact moved

theorem Consumes.bind {scan : Scan α} {next : α → Scan β}
    (first : Consumes scan) (second : ∀ value, Forward (next value)) :
    Consumes (scan >>= next) := by
  intro input result rest h
  obtain ⟨value, middle, hfirst, hsecond⟩ := bind_eq_done_iff.1 h
  exact Nat.lt_of_le_of_lt ((second value).length_le_of_done hsecond) (first hfirst)

theorem Forward.map {scan : Scan α} (forward : Forward scan) (f : α → β) :
    Forward (f <$> scan) :=
  forward.bind fun _ => forward_pure _

theorem Consumes.map {scan : Scan α} (consumes : Consumes scan) (f : α → β) :
    Consumes (f <$> scan) :=
  consumes.bind fun _ => forward_pure _

theorem forward_fail (expected : Expected) : Forward (fail expected : Scan α) :=
  fun _ => List.suffix_rfl

theorem forward_atEnd : Forward atEnd :=
  fun _ => List.suffix_rfl

theorem forward_byte (wanted : UInt8) (expected : Expected) : Forward (byte wanted expected) := by
  intro input
  cases input with
  | nil => exact List.suffix_rfl
  | cons b rest =>
      by_cases h : b = wanted <;> simp [byte, h]

theorem forward_spaces : Forward spaces :=
  fun _ => List.dropWhile_suffix _

theorem forward_identifier : Forward identifier := by
  intro input
  unfold identifier
  dsimp only
  split
  · exact List.suffix_rfl
  · exact List.dropWhile_suffix _

theorem consumes_identifier : Consumes identifier := by
  intro input name rest h
  unfold identifier at h
  dsimp only at h
  split at h
  · cases h
  · next nonempty =>
    cases h
    exact length_dropWhile_lt (by simpa using nonempty)

theorem forward_endOfLine : Forward endOfLine :=
  forward_byte _ _

theorem forward_comment : Forward comment := by
  intro input
  unfold comment
  split
  · exact List.nil_suffix
  · next rest h =>
    exact (List.suffix_cons _ rest).trans (h ▸ List.dropWhile_suffix _)

theorem consumes_comment : Consumes comment := by
  intro input value rest h
  unfold comment at h
  split at h
  · cases h
  · next b tail hdrop =>
    cases h
    have := (List.dropWhile_suffix (l := input) (· != Byte.newline)).length_le
    rw [hdrop, List.length_cons] at this
    omega

end Movement

end Scan

end BuildFile
