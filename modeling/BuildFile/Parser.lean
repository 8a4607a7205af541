import BuildFile.Cursor
import BuildFile.Diagnostic
import BuildFile.Document

/-! # Reading step by step

A parser reads a file one statement or one definition at a time. After an error it stands
where the error is, and can be asked to go on from there.
-/

namespace BuildFile

/-- A file that is being read. -/
structure Parser where
  cursor : Cursor
  deriving DecidableEq

namespace Parser

/-- A parser at the start of a text. -/
def start (text : Bytes) : Parser := ⟨.start text⟩

/-- How many bytes have been read. -/
def position (parser : Parser) : Nat := parser.cursor.position

/-- Scan from the cursor on, and leave it where the scan stops. -/
def step {α : Type} (parser : Parser) (scan : Scan α) : Except ParseError α × Parser :=
  match scan parser.cursor.rest with
  | .done value rest => (.ok value, ⟨parser.cursor.moveTo rest⟩)
  | .failed expected rest =>
      (.error (.of parser.cursor.text expected rest), ⟨parser.cursor.moveTo rest⟩)

/-- Read the next statement, without its block. There is none at the end of the file. -/
def nextStatement (parser : Parser) : Except ParseError (Option Statement) × Parser :=
  parser.step Statement.readNext

/-- Read the next definition of a block. There is none at the end of the block. -/
def nextBinding (parser : Parser) : Except ParseError (Option Binding) × Parser :=
  parser.step Binding.readNext

/-- Read the definitions up to the end of a block. -/
def bindings (parser : Parser) : Except ParseError (List Binding) × Parser :=
  parser.step Binding.readBlock

/-- What a parser can be asked for. -/
inductive Call where
  | nextStatement
  | nextBinding
  | bindings
  deriving Repr, DecidableEq

/-- What a call gives if it meets no error. -/
inductive Answer where
  | statement (next : Option Statement)
  | binding (next : Option Binding)
  | bindings (block : List Binding)
  deriving Repr, DecidableEq

/-- What calls gave, each with the position that it left. -/
abbrev Trace := List (Except ParseError Answer × Nat)

/-- Do what a call asks for. -/
def ask (parser : Parser) : Call → Except ParseError Answer × Parser
  | .nextStatement => let (next, after) := parser.nextStatement; (next.map .statement, after)
  | .nextBinding => let (next, after) := parser.nextBinding; (next.map .binding, after)
  | .bindings => let (block, after) := parser.bindings; (block.map .bindings, after)

/-- Do one call after another, each from where the last one left the parser, in an error or not. -/
def trace (parser : Parser) : List Call → Trace
  | [] => []
  | call :: calls =>
      let (answer, after) := parser.ask call
      (answer, after.position) :: after.trace calls

/-- A step leaves the parser behind or at the place where it was. -/
theorem position_le_position_step {α : Type} {scan : Scan α} (forward : scan.Forward)
    (parser : Parser) : parser.position ≤ (parser.step scan).2.position := by
  have moved := forward.length_le parser.cursor.rest
  have within := parser.cursor.position_le
  rw [Cursor.length_rest] at moved
  unfold step
  split <;> next h =>
    rw [h] at moved
    simp only [position, Cursor.moveTo, Scan.Result.rest_done, Scan.Result.rest_failed] at moved ⊢
    omega

end Parser

end BuildFile
