import BuildFile.Manifest.Parse
import BuildFile.Parser

/-! # Reading by moves of a cursor

What a scan says about the bytes that are left, a reading does by single moves: it looks at the
next byte, takes it, goes back by one byte, or asks for what lies between a place and the cursor.
A move that would leave the text is a fault and ends the reading. So is a round of a loop that
asks for another one without having moved on, because it could do so for ever.
-/

namespace BuildFile

namespace Reading

/-- What keeps a reading from coming to an end. -/
inductive Fault where
  | move (fault : Cursor.Fault)
  /-- A loop stands where its last round started. -/
  | endless
  deriving Repr, DecidableEq

/-- What came of a reading. A value or a syntax error comes with the cursor as it was left. -/
inductive Outcome (α : Type) where
  | done (value : α) (cursor : Cursor)
  | failed (error : ParseError) (cursor : Cursor)
  | fault (fault : Fault)
  deriving DecidableEq

/-- What a round of a loop asks for. -/
inductive Turn (σ α : Type) where
  | again (state : σ)
  | leave (value : α)
  deriving Repr, DecidableEq

end Reading

/-- A way to read a value by moving a cursor. -/
def Reading (α : Type) := Cursor → Reading.Outcome α

namespace Reading

/-- Read, and go on with what was found from where the cursor was left. -/
protected def bind {α β : Type} (reading : Reading α) (next : α → Reading β) : Reading β :=
  fun cursor =>
    match reading cursor with
    | .done value after => next value after
    | .failed error after => .failed error after
    | .fault fault => .fault fault

instance : Monad Reading where
  pure value := fun cursor => .done value cursor
  bind := Reading.bind

section Moves

def position : Reading Nat := fun cursor => .done cursor.position cursor

/-- The length of the whole text. -/
def length : Reading Nat := fun cursor => .done cursor.text.length cursor

/-- The bytes that are left. -/
def rest : Reading Bytes := fun cursor => .done cursor.rest cursor

def peek : Reading (Option UInt8) := fun cursor => .done cursor.peek cursor

def advance : Reading (Option UInt8) := fun cursor =>
  let (taken, after) := cursor.advance
  .done taken after

def retreat : Reading Unit := fun cursor =>
  match cursor.retreat with
  | .ok after => .done () after
  | .error fault => .fault (.move fault)

def restore (position : Nat) : Reading Unit := fun cursor =>
  match cursor.restore position with
  | .ok after => .done () after
  | .error fault => .fault (.move fault)

/-- The bytes from a place up to the cursor. -/
def since (start : Nat) : Reading Bytes := fun cursor =>
  match cursor.since start with
  | .ok taken => .done taken cursor
  | .error fault => .fault (.move fault)

/-- Give up at the next byte. -/
def unexpected {α : Type} (expected : Expected) : Reading α := fun cursor =>
  .failed ⟨cursor.position, cursor.peek, expected.label⟩ cursor

end Moves

/-- Repeat a round until it leaves. Every round that asks for another one has to move on. -/
def loop {σ α : Type} (round : σ → Reading (Turn σ α)) (state : σ) : Reading α := fun cursor =>
  match round state cursor with
  | .done (.leave value) after => .done value after
  | .done (.again state) after =>
      if _moved : after.rest.length < cursor.rest.length then loop round state after
      else .fault .endless
  | .failed error after => .failed error after
  | .fault fault => .fault fault
termination_by cursor => cursor.rest.length
decreasing_by exact _moved

/-- Read one more item behind those that were found. -/
def collectRound {α : Type} (item : Reading (Option α)) (found : List α) :
    Reading (Turn (List α) (List α)) := do
  match ← item with
  | none => return .leave found
  | some next => return .again (found ++ [next])

/-- Read items until there is none. -/
def collect {α : Type} (item : Reading (Option α)) : Reading (List α) :=
  loop (collectRound item) []

/-- Take all spaces up to the next other byte. -/
def spaces : Reading Unit :=
  loop (fun _ => do
    if (← peek) = some Byte.space then
      let _ ← advance
      return .again ()
    else return .leave ()) ()

/-- Take bytes of a name, and the byte behind them, over which the cursor goes back. -/
def nameBytes : Reading Unit :=
  loop (fun _ => do
    match ← advance with
    | none => return .leave ()
    | some b =>
        if Byte.isIdentifier b then return .again ()
        else
          retreat
          return .leave ()) ()

def identifier : Reading Name := do
  let start ← position
  nameBytes
  let name ← since start
  if name.isEmpty then unexpected .identifier else return name

/-- Take one given byte. -/
def byte (wanted : UInt8) (expected : Expected) : Reading Unit := do
  if (← peek) = some wanted then
    let _ ← advance
    return ()
  else unexpected expected

def endOfLine : Reading Unit := byte Byte.newline .endOfLine

/-- Go behind the next newline. Where there is none, go to the end and give up there. -/
def comment : Reading Unit := do
  match (← rest).findIdx? (· == Byte.newline) with
  | some count =>
      let start ← position
      restore (start + count + 1)
  | none =>
      restore (← length)
      unexpected .comment

/-- Read what comes behind a `$`, and put it behind a template. -/
def escape (template : Template) : Reading Template := do
  let start ← position
  match ← advance with
  | none => unexpected .variableReference
  | some b =>
      if b = Byte.newline then
        spaces
        return template
      else if Template.needsEscape b then return template.push (.literal (← since start))
      else if b = Byte.openBrace then
        let name ← identifier
        byte Byte.closeBrace .variableReference
        return template.push (.reference name)
      else
        retreat
        return template.push (.reference (← identifier))

/-- Take one byte of a template, or an escape. The state is what has been read of the template,
    and the place where the text starts that is not yet in it. -/
def templateRound (context : Template.Context) :
    Template × Nat → Reading (Turn (Template × Nat) Template) := fun (template, start) => do
  match ← advance with
  | none =>
      if context = .value then unexpected .value
      else return .leave (template.push (.literal (← since start)))
  | some b =>
      if context.ends b then
        retreat
        return .leave (template.push (.literal (← since start)))
      else if b = Byte.dollar then
        retreat
        let before := template.push (.literal (← since start))
        let _ ← advance
        let escaped ← escape before
        return .again (escaped, ← position)
      else return .again (template, start)

def template (context : Template.Context) : Reading Template := do
  loop (templateRound context) ([], ← position)

/-- Read the next path, which there is if it has content. -/
def nextPath : Reading (Option Template) := do
  spaces
  let path ← template .path
  if path = [] then return none else return some path

def paths : Reading (List Template) := collect nextPath

/-- Read the `= value` of a definition and the end of its line. -/
def assignment (name : Name) : Reading Binding := do
  byte Byte.equals .assignment
  spaces
  let value ← template .value
  endOfLine
  return ⟨name, value⟩

/-- Read the inputs behind a single `|`. The first of two is taken and given back. -/
def implicitInputs : Reading (List Template) := do
  if (← peek) = some Byte.pipe then
    let _ ← advance
    if (← peek) = some Byte.pipe then
      retreat
      return []
    else paths
  else return []

/-- Read the inputs behind `||`. -/
def orderOnlyInputs : Reading (List Template) := do
  if (← peek) = some Byte.pipe then
    let _ ← advance
    byte Byte.pipe .buildInputs
    paths
  else return []

def buildLine : Reading BuildLine := do
  let outputs ← paths
  byte Byte.colon .buildColon
  spaces
  let rule ← identifier
  let explicitInputs ← paths
  let implicitInputs ← implicitInputs
  let orderOnlyInputs ← orderOnlyInputs
  endOfLine
  return { rule, outputs, explicitInputs, implicitInputs, orderOnlyInputs }

def ruleLine : Reading Name := do
  let name ← identifier
  spaces
  endOfLine
  return name

def defaultLine : Reading Template := do
  let path ← template .path
  if path = [] then unexpected .defaultTarget
  else
    spaces
    endOfLine
    return path

/-- Read the rest of a statement that starts with a given word. -/
def afterWord (word : Name) : Reading Statement :=
  if word = Keyword.build then .build <$> buildLine
  else if word = Keyword.rule then .rule <$> ruleLine
  else if word = Keyword.default then .default <$> defaultLine
  else .assignment <$> assignment word

/-- Take empty lines and comments, and the byte behind them, over which the cursor goes back.
    Tells whether there is such a byte. -/
def skipLines : Reading Bool :=
  loop (fun _ => do
    match ← advance with
    | none => return .leave false
    | some b =>
        if b = Byte.hash then
          comment
          return .again ()
        else if b = Byte.newline then return .again ()
        else
          retreat
          return .leave true) ()

/-- Read the next statement, without its block. There is none at the end of the file. -/
def nextStatement : Reading (Option Statement) := do
  if ← skipLines then
    let word ← identifier
    spaces
    some <$> afterWord word
  else return none

/-- Take a blank line or a comment of a block, or read the definition that stands there. -/
def blockRound : Reading (Turn Unit (Option Binding)) := do
  if (← peek) = some Byte.space then
    spaces
    let next ← peek
    if next = some Byte.newline then
      let _ ← advance
      return .again ()
    else if next = some Byte.hash then
      let _ ← advance
      comment
      return .again ()
    else
      let name ← identifier
      spaces
      return .leave (some (← assignment name))
  else return .leave none

/-- Read the next definition of a block. There is none at the end of the block. -/
def nextBinding : Reading (Option Binding) :=
  loop (fun _ => blockRound) ()

/-- Read the definitions up to the end of a block. -/
def bindings : Reading (List Binding) := collect nextBinding

/-- Read the block of a statement, and add to a manifest what the statement says. -/
def addStatement (manifest : Manifest) (statement : Statement) : Reading Manifest := do
  if statement.opensBlock then
    let block ← bindings
    return manifest.declare { statement, block }
  else return manifest.declare { statement, block := [] }

/-- Read one more statement, with its block, into a manifest. -/
def manifestRound (manifest : Manifest) : Reading (Turn Manifest Manifest) := do
  match ← nextStatement with
  | none => return .leave manifest
  | some statement => return .again (← addStatement manifest statement)

/-- Read a whole file. -/
def manifest : Reading Manifest := loop manifestRound {}

/-- Do what a call of a parser asks for. -/
def ofCall : Parser.Call → Reading Parser.Answer
  | .nextStatement => .statement <$> nextStatement
  | .nextBinding => .binding <$> nextBinding
  | .bindings => .bindings <$> bindings

/-- Do one call after another, also behind syntax errors. A fault ends everything. -/
def trace (cursor : Cursor) : List Parser.Call → Except Fault Parser.Trace
  | [] => .ok []
  | call :: calls =>
      match ofCall call cursor with
      | .done answer after => do return (.ok answer, after.position) :: (← trace after calls)
      | .failed error after => do return (.error error, after.position) :: (← trace after calls)
      | .fault fault => .error fault

end Reading

end BuildFile
