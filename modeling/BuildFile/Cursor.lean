import BuildFile.Bytes

/-! # Cursors

A cursor is a place in a text, from its first byte to behind its last. It is moved by single
bytes, or to a place where it has been before. A move that would leave the text is a fault
of whoever asks for it, and moves nothing.
-/

namespace BuildFile

/-- A place in a text. -/
structure Cursor where
  text : Bytes
  /-- How many bytes stand before the cursor. -/
  position : Nat
  position_le : position ≤ text.length
  deriving DecidableEq

namespace Cursor

/-- A move or a question that leaves the text. -/
inductive Fault where
  | beforeStart
  | beyondEnd
  /-- What is asked for starts behind the cursor. -/
  | startsBehind
  deriving Repr, DecidableEq

/-- The wording of faults that have one. -/
def Fault.message? : Fault → Option Bytes
  | .beforeStart => some (ascii "Retreated cursor before start of input")
  | .beyondEnd => some (ascii "Restored cursor beyond end of input")
  | .startsBehind => none

/-- The cursor before the first byte. -/
def start (text : Bytes) : Cursor := ⟨text, 0, Nat.zero_le _⟩

/-- The bytes behind the cursor. -/
def rest (cursor : Cursor) : Bytes :=
  cursor.text.drop cursor.position

/-- The next byte, if there is one. -/
def peek (cursor : Cursor) : Option UInt8 :=
  cursor.rest.head?

/-- Whether the cursor stands behind the last byte. -/
def atEnd (cursor : Cursor) : Bool :=
  cursor.position == cursor.text.length

/-- Move to a place in the text. -/
def restore (cursor : Cursor) (position : Nat) : Except Fault Cursor :=
  if h : position ≤ cursor.text.length then
    .ok { cursor with position, position_le := h }
  else .error .beyondEnd

/-- Take the next byte. At the end of the text there is none, and nothing moves. -/
def advance (cursor : Cursor) : Option UInt8 × Cursor :=
  if h : cursor.position < cursor.text.length then
    (some cursor.text[cursor.position],
      { cursor with position := cursor.position + 1, position_le := h })
  else (none, cursor)

/-- Go back by one byte. -/
def retreat (cursor : Cursor) : Except Fault Cursor :=
  if cursor.position = 0 then .error .beforeStart
  else
    .ok { cursor with
      position := cursor.position - 1
      position_le := Nat.le_trans (Nat.sub_le _ _) cursor.position_le }

/-- The bytes from a place up to the cursor. -/
def since (cursor : Cursor) (position : Nat) : Except Fault Bytes :=
  if position ≤ cursor.position then
    .ok ((cursor.text.take cursor.position).drop position)
  else .error .startsBehind

/-- Move to where a given rest of the text starts. -/
def moveTo (cursor : Cursor) (rest : Bytes) : Cursor :=
  { cursor with
    position := cursor.text.length - rest.length
    position_le := Nat.sub_le _ _ }

@[simp]
theorem length_rest (cursor : Cursor) :
    cursor.rest.length = cursor.text.length - cursor.position := by
  simp [rest]

/-- What is behind the cursor after it has been moved to a rest of the text is that rest. -/
theorem rest_moveTo {cursor : Cursor} {rest : Bytes} (h : rest <:+ cursor.text) :
    (cursor.moveTo rest).rest = rest := by
  obtain ⟨before, same⟩ := h
  simp [moveTo, Cursor.rest, ← same]

end Cursor

end BuildFile
