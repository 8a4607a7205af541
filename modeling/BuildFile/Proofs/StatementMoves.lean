import BuildFile.Proofs.TemplateMoves
import BuildFile.Proofs.Written.Block
import Mathlib.Data.List.Chain

/-! # Calls of a parser by moves

Statements and blocks are read by moves as they are scanned, and so is what a parser is asked for.
A call can start at any place that an earlier one left, also in the middle of a line or an escape:
what is known of a reading holds from every place. Over any calls in a row this gives that no move
is a fault, that the parser only goes forward, and that an error tells the place where it stands.
-/

namespace BuildFile

namespace Reading

variable {α β : Type} {reading : Reading α} {scan : Scan α} {cursor : Cursor} {tail : Bytes}
  {b : UInt8}

theorem follows_assignment (name : Name) : Follows (assignment name) (Binding.readValue name) :=
  (follows_byte _ _).bind fun _ => follows_spaces.bind fun _ =>
    (follows_template .value).bind fun _ => follows_endOfLine.bind fun _ => .pure _

theorem peek_bind (cursor : Cursor) (next : Option UInt8 → Reading α) :
    (peek >>= next) cursor = next cursor.rest.head? cursor :=
  rfl

theorem follows_implicitInputs : Follows implicitInputs BuildLine.readImplicitInputs where
  forward := BuildLine.forward_readImplicitInputs
  eq cursor := by
    rw [implicitInputs, peek_bind]
    cases h : cursor.rest with
    | nil =>
        have found : BuildLine.readImplicitInputs cursor.rest = .done [] cursor.rest := by
          rw [h]
          rfl
        rw [ofScan_of_stays found]
        rfl
    | cons b tail =>
        by_cases pipe : b = Byte.pipe
        · subst pipe
          have left := Cursor.rest_moveTo_next h
          rw [List.head?_cons, if_pos rfl, advance_bind_of_cons h, peek_bind, left]
          by_cases double : tail.head? = some Byte.pipe
          · have found : BuildLine.readImplicitInputs cursor.rest = .done [] cursor.rest := by
              rw [h, BuildLine.readImplicitInputs, if_neg (by simp [double])]
            rw [if_pos double, retreat_bind_of_cons h, ofScan_of_stays found]
            rfl
          · have same : BuildLine.readImplicitInputs cursor.rest = Template.readPaths tail := by
              rw [h, BuildLine.readImplicitInputs, if_pos ⟨rfl, double⟩]
            rw [if_neg double, ofScan_next h same]
            exact follows_paths.eq _
        · have found : BuildLine.readImplicitInputs cursor.rest = .done [] cursor.rest := by
            rw [h, BuildLine.readImplicitInputs, if_neg (by simp [pipe])]
          rw [if_neg (by simpa using pipe), ofScan_of_stays found]
          rfl

theorem follows_orderOnlyInputs : Follows orderOnlyInputs BuildLine.readOrderOnlyInputs := by
  apply (follows_peek.bind fun next => Follows.ite (c := next = some Byte.pipe)
    (fun _ => follows_advance.bind fun _ => (follows_byte _ _).bind fun _ => follows_paths)
    (fun _ => .pure [])).congr
  intro input
  cases input with
  | nil => rfl
  | cons b tail =>
      rw [BuildLine.readOrderOnlyInputs]
      by_cases pipe : b = Byte.pipe <;>
        simp [Scan.bind_apply, Scan.peek, Scan.advance, pipe]

theorem follows_buildLine : Follows buildLine BuildLine.read :=
  follows_paths.bind fun _ => (follows_byte _ _).bind fun _ => follows_spaces.bind fun _ =>
    follows_identifier.bind fun _ => follows_paths.bind fun _ =>
      follows_implicitInputs.bind fun _ => follows_orderOnlyInputs.bind fun _ =>
        follows_endOfLine.bind fun _ => .pure _

theorem follows_ruleLine : Follows ruleLine Statement.readRuleLine :=
  follows_identifier.bind fun _ => follows_spaces.bind fun _ => follows_endOfLine.bind fun _ =>
    .pure _

theorem follows_defaultLine : Follows defaultLine Statement.readDefaultLine := by
  apply ((follows_template .path).bind fun path => Follows.ite (c := path = [])
    (fun _ => follows_unexpected .defaultTarget)
    (fun _ => follows_spaces.bind fun _ => follows_endOfLine.bind fun _ => .pure path)).congr
  intro input
  refine Eq.trans ?_ (congrFun (bind_assoc _ _ _) input).symm
  refine congrFun (congrArg (_ >>= ·) (funext fun path => ?_)) input
  split <;> rfl

theorem follows_afterWord (word : Name) : Follows (afterWord word) (Statement.readAfter word) :=
  .ite (fun _ => follows_buildLine.map _) fun _ => .ite (fun _ => follows_ruleLine.map _) fun _ =>
    .ite (fun _ => follows_defaultLine.map _) fun _ => (follows_assignment word).map _

/-- Take an empty line or a comment, or tell whether there is a byte that starts something else. -/
def lineTurn : Scan (Turn Unit Bool)
  | [] => .done (.leave false) []
  | b :: rest =>
      if b = Byte.hash then (do Scan.comment; return .again () : Scan (Turn Unit Bool)) rest
      else if b = Byte.newline then .done (.again ()) rest
      else .done (.leave true) (b :: rest)

/-- Skip lines that do not count, and tell whether something follows. -/
def startScan : Scan Bool := do
  Statement.skipLines
  let finished ← Scan.atEnd
  return !finished

theorem forward_startScan : startScan.Forward :=
  Scan.Forward.bind Statement.forward_skipLines fun _ => Scan.forward_atEnd.bind fun _ =>
    Scan.forward_pure _

theorem forward_lineTurn : lineTurn.Forward := by
  intro input
  cases input with
  | nil => exact List.suffix_rfl
  | cons b rest =>
      have within := List.suffix_cons b rest
      rw [lineTurn]
      split
      · exact ((Scan.forward_comment.bind fun _ => Scan.forward_pure _) rest).trans within
      · split
        · exact within
        · exact List.suffix_rfl

theorem follows_lineTurn :
    Follows (do
      match ← advance with
      | none => return .leave false
      | some b =>
          if b = Byte.hash then
            comment
            return .again ()
          else if b = Byte.newline then return .again ()
          else
            retreat
            return .leave true) lineTurn where
  forward := forward_lineTurn
  eq cursor := by
    cases h : cursor.rest with
    | nil =>
        have found : lineTurn cursor.rest = .done (.leave false) cursor.rest := by
          rw [h]
          rfl
        rw [advance_bind_of_nil h, ofScan_of_stays found]
        rfl
    | cons b tail =>
        rw [advance_bind_of_cons h]
        dsimp only
        by_cases hash : b = Byte.hash
        · have same : lineTurn cursor.rest =
              (do Scan.comment; return .again () : Scan (Turn Unit Bool)) tail := by
            rw [h, lineTurn, if_pos hash]
          rw [if_pos hash, ofScan_next h same]
          exact (follows_comment.bind fun _ => .pure _).eq _
        · rw [if_neg hash]
          by_cases newline : b = Byte.newline
          · have found : lineTurn cursor.rest = .done (.again ()) tail := by
              rw [h, lineTurn, if_neg hash, if_pos newline]
            rw [if_pos newline, ofScan_of_done found]
            rfl
          · have found : lineTurn cursor.rest = .done (.leave true) cursor.rest := by
              rw [h, lineTurn, if_neg hash, if_neg newline]
            rw [if_neg newline, retreat_bind_of_cons h, ofScan_of_stays found]
            rfl

theorem skipLines_hash_of_failed {rest : Bytes} {expected : Expected}
    (h : Scan.comment tail = .failed expected rest) :
    Statement.skipLines (Byte.hash :: tail) = .failed expected rest := by
  rw [Statement.skipLines, if_neg (by decide), if_pos rfl]
  split <;> next found =>
    rw [h] at found
    cases found
    try rfl

theorem skipLines_hash_of_done {rest : Bytes} {value : Unit}
    (h : Scan.comment tail = .done value rest) :
    Statement.skipLines (Byte.hash :: tail) = Statement.skipLines rest := by
  rw [Statement.skipLines, if_neg (by decide), if_pos rfl]
  split <;> next found =>
    rw [h] at found
    cases found
    try rfl

theorem follows_skipLines : Follows skipLines startScan := by
  refine Follows.loop (fun _ => lineTurn) (fun _ => startScan) (fun _ => follows_lineTurn) ?_
    (fun _ => forward_startScan) ?_ ()
  · intro _ input next rest again
    cases input with
    | nil => cases again
    | cons b tail =>
        rw [lineTurn] at again
        split at again
        · obtain ⟨_, left, hcomment, same⟩ := Scan.bind_eq_done_iff.1 again
          cases same
          exact Nat.lt_succ_of_lt (Scan.consumes_comment hcomment)
        · split at again
          · cases again
            exact Nat.lt_succ_self _
          · cases again
  · intro _ input
    cases input with
    | nil =>
        have passed : Statement.skipLines [] = .done () [] := by rw [Statement.skipLines]
        exact Scan.bind_of_done passed _
    | cons b tail =>
        rw [lineTurn]
        by_cases hash : b = Byte.hash
        · subst hash
          rw [if_pos rfl]
          cases hcomment : Scan.comment tail with
          | failed expected rest =>
              rw [Scan.bind_of_failed hcomment]
              exact Scan.bind_of_failed (skipLines_hash_of_failed hcomment) _
          | done _ rest =>
              rw [Scan.bind_of_done hcomment]
              exact Written.bind_reader_congr (skipLines_hash_of_done hcomment)
        · rw [if_neg hash]
          by_cases newline : b = Byte.newline
          · have passed : Statement.skipLines (b :: tail) = Statement.skipLines tail := by
              rw [Statement.skipLines, if_pos newline]
            rw [if_pos newline]
            exact Written.bind_reader_congr passed
          · have passed : Statement.skipLines (b :: tail) = .done () (b :: tail) := by
              rw [Statement.skipLines, if_neg newline, if_neg hash]
            rw [if_neg newline]
            exact Scan.bind_of_done passed _

theorem follows_nextStatement : Follows nextStatement Statement.readNext := by
  apply (follows_skipLines.bind fun more => Follows.ite (c := more = true)
    (fun _ => follows_identifier.bind fun word => follows_spaces.bind fun _ =>
      (follows_afterWord word).map some)
    (fun _ => .pure none)).congr
  intro input
  cases hskip : Statement.skipLines input with
  | failed expected rest =>
      have failed : startScan input = .failed expected rest := Scan.bind_of_failed hskip _
      rw [Scan.bind_of_failed failed]
      exact (Scan.bind_of_failed hskip _).symm
  | done _ rest =>
      have passed : startScan input = .done (!rest.isEmpty) rest := Scan.bind_of_done hskip _
      rw [Scan.bind_of_done passed]
      refine Eq.trans ?_ (Scan.bind_of_done hskip _).symm
      change _ = (if rest.isEmpty then Pure.pure none else some <$> Statement.read : Scan _) rest
      cases rest with
      | nil => rfl
      | cons b tail =>
          refine Eq.symm ((congrFun (bind_assoc _ _ _) _).trans ?_)
          exact congrFun (congrArg (_ >>= ·) (funext fun word => bind_assoc _ _ _)) _

/-- What stands behind the indentation of a line of a block. -/
def indentedTurn : Scan (Turn Unit (Option Binding)) := do
  let next ← Scan.peek
  if next = some Byte.newline then
    let _ ← Scan.advance
    return .again ()
  else if next = some Byte.hash then
    let _ ← Scan.advance
    Scan.comment
    return .again ()
  else
    let name ← Scan.identifier
    Scan.spaces
    return .leave (some (← Binding.readValue name))

/-- A line of a block, if the next line is indented. -/
def blockTurn : Scan (Turn Unit (Option Binding)) := do
  let next ← Scan.peek
  if next = some Byte.space then
    Scan.spaces
    indentedTurn
  else return .leave none

theorem follows_blockRound : Follows blockRound blockTurn :=
  follows_peek.bind fun _ => .ite
    (fun _ => follows_spaces.bind fun _ => follows_peek.bind fun _ => .ite
      (fun _ => follows_advance.bind fun _ => .pure _)
      (fun _ => .ite
        (fun _ => follows_advance.bind fun _ => follows_comment.bind fun _ => .pure _)
        (fun _ => follows_identifier.bind fun name => follows_spaces.bind fun _ =>
          (follows_assignment name).bind fun _ => .pure _)))
    (fun _ => .pure _)

theorem blockTurn_space (tail : Bytes) :
    blockTurn (Byte.space :: tail) = indentedTurn (tail.dropWhile Byte.isSpace) :=
  rfl

theorem blockTurn_stops {input : Bytes} (stops : Written.Stops Byte.isSpace input.head?) :
    blockTurn input = .done (.leave none) input := by
  cases input with
  | nil => rfl
  | cons b tail =>
      have other : b ≠ Byte.space := by simpa [Byte.isSpace] using stops
      simp [blockTurn, Scan.bind_apply, Scan.peek, other]

theorem indentedTurn_newline (line : Bytes) :
    indentedTurn (Byte.newline :: line) = .done (.again ()) line :=
  rfl

theorem indentedTurn_hash (line : Bytes) :
    indentedTurn (Byte.hash :: line) =
      (do Scan.comment; return .again () : Scan (Turn Unit (Option Binding))) line :=
  rfl

theorem indentedTurn_definition {start : Bytes} (h : Written.StartsDefinition start) :
    indentedTurn start =
      (do return .leave (some (← Binding.read)) : Scan (Turn Unit (Option Binding))) start := by
  obtain ⟨_, newline, hash⟩ := h
  have peeked : Scan.peek start = .done start.head? start := rfl
  rw [indentedTurn, Scan.bind_of_done peeked, if_neg newline, if_neg hash]
  refine Eq.symm ((congrFun (bind_assoc _ _ _) start).trans ?_)
  exact congrFun (congrArg (_ >>= ·) (funext fun name => bind_assoc _ _ _)) start

/-- A line that does not count is left behind. -/
theorem length_lt_of_indentedTurn {start rest : Bytes} {next : Unit}
    (h : indentedTurn start = .done (.again next) rest) : rest.length < start.length := by
  cases start with
  | nil => cases h
  | cons c line =>
      have peeked : Scan.peek (c :: line) = .done (some c) (c :: line) := rfl
      rw [indentedTurn, Scan.bind_of_done peeked] at h
      split at h
      · cases h
        exact Nat.lt_succ_self _
      · split at h
        · have taken : Scan.advance (c :: line) = .done (some c) line := rfl
          rw [Scan.bind_of_done taken] at h
          obtain ⟨_, left, hcomment, same⟩ := Scan.bind_eq_done_iff.1 h
          cases same
          exact Nat.lt_succ_of_lt (Scan.consumes_comment hcomment)
        · obtain ⟨name, afterName, _, h⟩ := Scan.bind_eq_done_iff.1 h
          obtain ⟨_, afterSpaces, _, h⟩ := Scan.bind_eq_done_iff.1 h
          obtain ⟨binding, afterValue, _, h⟩ := Scan.bind_eq_done_iff.1 h
          cases h

/-- An indented line is read by what stands behind its indentation. -/
theorem readNext_space (tail : Bytes) :
    Binding.readNext (Byte.space :: tail) =
      goOn (fun _ => Binding.readNext) (blockTurn (Byte.space :: tail)) := by
  obtain ⟨n, same⟩ := Written.exists_spaces tail
  have stops := Written.stops_dropWhile Byte.isSpace tail
  rw [blockTurn_space]
  generalize tail.dropWhile Byte.isSpace = start at same stops
  have indented : Byte.space :: tail = Written.spaces (n + 1) ++ start := by
    rw [same, Written.spaces_succ, List.cons_append]
  rw [indented]
  by_cases newline : start.head? = some Byte.newline
  · obtain ⟨line, rfl⟩ := List.head?_eq_some_iff.1 newline
    have skipped := Written.blockSkip_blank n line
    rw [Written.BlockLine.text, List.append_assoc, List.singleton_append] at skipped
    rw [indentedTurn_newline]
    exact Written.bind_reader_congr skipped
  · by_cases hash : start.head? = some Byte.hash
    · obtain ⟨line, rfl⟩ := List.head?_eq_some_iff.1 hash
      rw [indentedTurn_hash]
      by_cases within : Byte.newline ∈ line
      · obtain ⟨remark, rest, rfl, first⟩ := List.eq_append_cons_of_mem within
        have skipped := Written.blockSkip_comment n first rest
        rw [Written.BlockLine.text, List.append_assoc, List.cons_append, List.append_assoc,
          List.singleton_append] at skipped
        have closed : Scan.comment (remark ++ Byte.newline :: rest) = .done () rest :=
          Written.comment_eq_done_iff.2 ⟨remark, first, rfl⟩
        rw [Scan.bind_of_done closed]
        exact Written.bind_reader_congr skipped
      · rw [Scan.bind_of_failed (Written.comment_eq_failed_iff.2 ⟨rfl, rfl, within⟩)]
        exact Written.readNext_of_skipLines_failed (Written.blockSkip_openComment n within)
    · have definition : Written.StartsDefinition start := ⟨stops, newline, hash⟩
      rw [indentedTurn_definition definition,
        Written.readNext_of_skipLines (Written.blockSkip_indented n definition)]
      cases found : Binding.read start with
      | done binding rest =>
          rw [Scan.bind_of_done found]
          exact map_of_done _ found
      | failed expected rest =>
          rw [Scan.bind_of_failed found]
          exact map_of_failed _ found

theorem follows_nextBinding : Follows nextBinding Binding.readNext := by
  refine Follows.loop (fun _ => blockTurn) (fun _ => Binding.readNext) (fun _ => follows_blockRound)
    ?_ (fun _ => Binding.forward_readNext) ?_ ()
  · intro _ input next rest again
    cases input with
    | nil => cases again
    | cons b tail =>
        by_cases space : b = Byte.space
        · subst space
          rw [blockTurn_space] at again
          have shorter := length_lt_of_indentedTurn again
          have dropped := (List.dropWhile_suffix (l := tail) Byte.isSpace).length_le
          rw [List.length_cons]
          omega
        · rw [blockTurn_stops (by simpa [Byte.isSpace] using space)] at again
          cases again
  · intro _ input
    cases input with
    | nil => exact Written.readNext_of_skipLines_false (Written.blockSkip_stops (by simp))
    | cons b tail =>
        by_cases space : b = Byte.space
        · subst space
          exact readNext_space tail
        · have stops : Written.Stops Byte.isSpace (b :: tail).head? := by
            simpa [Byte.isSpace] using space
          rw [blockTurn_stops stops]
          exact Written.readNext_of_skipLines_false (Written.blockSkip_stops stops)

theorem readBlock_unroll (input : Bytes) :
    Binding.readBlock input = Scan.nextAndOthers Binding.readNext Binding.readBlock input := by
  refine (congrFun Written.readBlock_eq input).trans ?_
  refine congrFun (congrArg (_ >>= ·) (funext fun next => ?_)) input
  cases next <;> rfl

theorem follows_bindings : Follows bindings Binding.readBlock :=
  follows_collect follows_nextBinding (fun _ _ _ h => Binding.length_lt_of_readNext h)
    Binding.forward_readBlock readBlock_unroll

/-- What a call came to, with the place where it left the parser. -/
def outcome : Except ParseError α × Parser → Outcome α
  | (.ok value, after) => .done value after.cursor
  | (.error error, after) => .failed error after.cursor

theorem Follows.outcome_map (h : Follows reading scan) (f : α → β) (parser : Parser) :
    (f <$> reading) parser.cursor =
      outcome ((parser.step scan).1.map f, (parser.step scan).2) := by
  rw [(h.map f).eq, Parser.step]
  cases found : scan parser.cursor.rest with
  | done value rest => exact ofScan_of_done (map_of_done scan found)
  | failed expected rest => exact ofScan_of_failed (map_of_failed scan found)

/-- A call does by moves what the parser is asked for. -/
theorem ofCall_eq (call : Parser.Call) (parser : Parser) :
    ofCall call parser.cursor = outcome (parser.ask call) := by
  cases call with
  | nextStatement => exact follows_nextStatement.outcome_map _ parser
  | nextBinding => exact follows_nextBinding.outcome_map _ parser
  | bindings => exact follows_bindings.outcome_map _ parser

/-- Over any calls, no move is a fault. -/
theorem trace_eq (calls : List Parser.Call) (parser : Parser) :
    trace parser.cursor calls = .ok (parser.trace calls) := by
  induction calls generalizing parser with
  | nil => rfl
  | cons call calls ih =>
      rw [trace, ofCall_eq, Parser.trace]
      obtain ⟨answer, after⟩ := parser.ask call
      cases answer with
      | ok answer =>
          simp only [outcome, ih]
          rfl
      | error error =>
          simp only [outcome, ih]
          rfl

end Reading

namespace Parser

/-- The parser has gone forward in its text, and stands where the error is if there is one. -/
structure Advances {α : Type} (parser : Parser) (answer : Except ParseError α) (after : Parser) :
    Prop where
  text_eq : after.cursor.text = parser.cursor.text
  position_le : parser.position ≤ after.position
  located : ∀ error, answer = .error error →
    error.position = after.position ∧ error.unexpected = after.cursor.text[after.position]?

variable {α β : Type} {scan : Scan α} {parser after : Parser} {answer : Except ParseError α}

theorem Advances.map (h : parser.Advances answer after) (f : α → β) :
    parser.Advances (answer.map f) after where
  text_eq := h.text_eq
  position_le := h.position_le
  located error same := by
    cases answer with
    | ok value => cases same
    | error error =>
        cases same
        exact h.located error rfl

theorem advances_step (forward : scan.Forward) (parser : Parser) :
    parser.Advances (parser.step scan).1 (parser.step scan).2 where
  text_eq := by
    rw [step]
    split <;> rfl
  position_le := parser.position_le_position_step forward
  located error failed := by
    have left := (forward parser.cursor.rest).trans parser.cursor.rest_suffix
    rw [step] at failed ⊢
    cases found : scan parser.cursor.rest with
    | done value rest =>
        rw [found] at failed
        cases failed
    | failed expected rest =>
        rw [found] at failed left
        cases failed
        refine ⟨rfl, ?_⟩
        change rest.head? = parser.cursor.text[parser.cursor.text.length - rest.length]?
        rw [Scan.Result.rest_failed] at left
        rw [← List.head?_drop, ← List.suffix_iff_eq_drop.1 left]

theorem advances_ask (parser : Parser) (call : Call) :
    parser.Advances (parser.ask call).1 (parser.ask call).2 := by
  cases call with
  | nextStatement => exact (advances_step Statement.forward_readNext parser).map _
  | nextBinding => exact (advances_step Binding.forward_readNext parser).map _
  | bindings => exact (advances_step Binding.forward_readBlock parser).map _

theorem length_trace (calls : List Call) (parser : Parser) :
    (parser.trace calls).length = calls.length := by
  induction calls generalizing parser with
  | nil => rfl
  | cons call calls ih => exact congrArg Nat.succ (ih _)

/-- The positions that calls leave never go down. -/
theorem isChain_trace (calls : List Call) (parser : Parser) :
    (parser.position :: (parser.trace calls).map Prod.snd).IsChain (· ≤ ·) := by
  induction calls generalizing parser with
  | nil => exact .singleton _
  | cons call calls ih => exact .cons_cons (advances_ask parser call).position_le (ih _)

theorem located_of_mem_trace {calls : List Call} {answer : Except ParseError Answer}
    {position : Nat} (h : (answer, position) ∈ parser.trace calls) :
    position ≤ parser.cursor.text.length ∧ ∀ error, answer = .error error →
      error.position = position ∧ error.unexpected = parser.cursor.text[position]? := by
  induction calls generalizing parser with
  | nil => cases h
  | cons call calls ih =>
      have advances := advances_ask parser call
      rw [← advances.text_eq]
      obtain same | later := List.mem_cons.1 h
      · cases same
        exact ⟨(parser.ask call).2.cursor.position_le, advances.located⟩
      · exact ih later

/-- Reading never asks for a move that leaves the text and no loop stands still, whatever the text
    is and whatever is asked for in a row, also behind errors. The parser only goes forward, and an
    error tells the place where it left the parser, and the byte there. -/
theorem calls_never_fault (text : Bytes) (calls : List Call) :
    Reading.trace (.start text) calls = .ok ((start text).trace calls) ∧
      ((start text).trace calls).length = calls.length ∧
      (0 :: ((start text).trace calls).map Prod.snd).IsChain (· ≤ ·) ∧
      ∀ answer position, (answer, position) ∈ (start text).trace calls →
        position ≤ text.length ∧ ∀ error, answer = .error error →
          error.position = position ∧ error.unexpected = text[position]? :=
  ⟨Reading.trace_eq calls (start text), length_trace calls _, isChain_trace calls (start text),
    fun _ _ => located_of_mem_trace⟩

end Parser

end BuildFile
