import BuildFile.Proofs.Written.Lexeme
import BuildFile.Reading

/-! # Reading by moves is scanning

A reading moves a cursor back and forth, and a scan only cuts off the front of a text. Each
reading follows a scan: it ends where the scan stops, with what the scan found. So it comes to an
end in every text and from every place in it, no move leaves the text, and the cursor is never
left in front of where it was.
-/

namespace BuildFile

namespace Cursor

variable {cursor : Cursor} {b : UInt8} {run tail rest : Bytes}

theorem rest_suffix (cursor : Cursor) : cursor.rest <:+ cursor.text :=
  List.drop_suffix _ _

theorem moveTo_rest (cursor : Cursor) : cursor.moveTo cursor.rest = cursor := by
  obtain ⟨text, position, within⟩ := cursor
  simp only [moveTo, rest, List.length_drop, mk.injEq, true_and]
  omega

theorem rest_moveTo_of_suffix (h : rest <:+ cursor.rest) : (cursor.moveTo rest).rest = rest :=
  rest_moveTo (h.trans cursor.rest_suffix)

theorem rest_moveTo_tail (h : cursor.rest = run ++ tail) : (cursor.moveTo tail).rest = tail :=
  rest_moveTo_of_suffix (h ▸ List.suffix_append run tail)

theorem rest_moveTo_next (h : cursor.rest = b :: tail) : (cursor.moveTo tail).rest = tail :=
  rest_moveTo_of_suffix (h ▸ List.suffix_cons b tail)

theorem position_moveTo (h : cursor.rest = run ++ tail) :
    (cursor.moveTo tail).position = cursor.position + run.length := by
  have within := cursor.position_le
  have lengths := congrArg List.length h
  rw [length_rest, List.length_append] at lengths
  simp only [moveTo]
  omega

theorem position_moveTo_next (h : cursor.rest = b :: tail) :
    (cursor.moveTo tail).position = cursor.position + 1 :=
  position_moveTo (h.trans (List.singleton_append (x := b)).symm)

theorem advance_of_nil (h : cursor.rest = []) : cursor.advance = (none, cursor) := by
  have ended : ¬ cursor.position < cursor.text.length := by
    have lengths := congrArg List.length h
    rw [length_rest, List.length_nil] at lengths
    omega
  rw [advance, dif_neg ended]

theorem advance_of_cons (h : cursor.rest = b :: tail) :
    cursor.advance = (some b, cursor.moveTo tail) := by
  have lengths := congrArg List.length h
  rw [length_rest, List.length_cons] at lengths
  have more : cursor.position < cursor.text.length := by omega
  have next : cursor.text[cursor.position] = b := by
    have same := List.drop_eq_getElem_cons more
    rw [← rest, h] at same
    exact (List.cons.inj same).1.symm
  rw [advance, dif_pos more, next]
  simp only [moveTo, Prod.mk.injEq, mk.injEq, true_and]
  omega

theorem retreat_of_cons (h : cursor.rest = b :: tail) :
    (cursor.moveTo tail).retreat = .ok cursor := by
  have behind := position_moveTo_next h
  have start : (cursor.moveTo tail).position ≠ 0 := by
    rw [behind]
    exact Nat.succ_ne_zero _
  rw [retreat, if_neg start]
  obtain ⟨text, position, within⟩ := cursor
  simp only [behind, Nat.add_sub_cancel]
  rfl

theorem since_position (cursor : Cursor) : cursor.since cursor.position = .ok [] := by
  rw [since, if_pos (Nat.le_refl _)]
  simp

/-- What lies between a place and the cursor grows by what the cursor passes. -/
theorem since_moveTo {start : Nat} {before : Bytes} (known : cursor.since start = .ok before)
    (h : cursor.rest = run ++ tail) : (cursor.moveTo tail).since start = .ok (before ++ run) := by
  rw [since] at known
  split at known
  · next within =>
    have passed : cursor.text.take (cursor.position + run.length) =
        cursor.text.take cursor.position ++ run := by
      rw [List.take_add, ← rest, h, List.take_left]
    have behind := position_moveTo h
    rw [since, if_pos (by omega), behind]
    change Except.ok ((cursor.text.take (cursor.position + run.length)).drop start) = _
    have place : start ≤ (cursor.text.take cursor.position).length := by
      rw [List.length_take]
      have := cursor.position_le
      omega
    rw [passed, List.drop_append_of_le_length place]
    exact congrArg (fun front => Except.ok (front ++ run)) (Except.ok.inj known)
  · cases known

theorem since_next (h : cursor.rest = b :: tail) :
    (cursor.moveTo tail).since cursor.position = .ok [b] :=
  since_moveTo cursor.since_position (h.trans (List.singleton_append (x := b)).symm)

end Cursor

/-- The next byte, which stays unread. -/
def Scan.peek : Scan (Option UInt8) := fun input => .done input.head? input

/-- The next byte. -/
def Scan.advance : Scan (Option UInt8) := fun input => .done input.head? input.tail

/-- The next item in front of all others, or none if there is no next one. -/
def Scan.nextAndOthers {α : Type} (next : Scan (Option α)) (others : Scan (List α)) :
    Scan (List α) := do
  match ← next with
  | none => return []
  | some item =>
      let items ← others
      return item :: items

namespace Reading

/-- Go to where a scan stops. -/
def ofScan {α : Type} (scan : Scan α) : Reading α := fun cursor =>
  match scan cursor.rest with
  | .done value rest => .done value (cursor.moveTo rest)
  | .failed expected rest => .failed (.of cursor.text expected rest) (cursor.moveTo rest)

/-- From every place, the reading does what the scan says about the bytes that are left. -/
structure Follows {α : Type} (reading : Reading α) (scan : Scan α) : Prop where
  forward : scan.Forward
  eq : ∀ cursor, reading cursor = ofScan scan cursor

variable {α β σ : Type} {reading : Reading α} {scan : Scan α} {cursor : Cursor} {rest tail : Bytes}
  {b : UInt8}

theorem bind_apply (reading : Reading α) (next : α → Reading β) (cursor : Cursor) :
    (reading >>= next) cursor =
      match reading cursor with
      | .done value after => next value after
      | .failed error after => .failed error after
      | .fault fault => .fault fault :=
  rfl

theorem pure_apply (value : α) (cursor : Cursor) :
    (pure value : Reading α) cursor = .done value cursor :=
  rfl

theorem ofScan_of_done {value : α} (h : scan cursor.rest = .done value rest) :
    ofScan scan cursor = .done value (cursor.moveTo rest) := by
  simp only [ofScan, h]

theorem ofScan_of_failed {expected : Expected} (h : scan cursor.rest = .failed expected rest) :
    ofScan scan cursor = .failed (.of cursor.text expected rest) (cursor.moveTo rest) := by
  simp only [ofScan, h]

theorem ofScan_congr {other : Scan α} (same : scan cursor.rest = other cursor.rest) :
    ofScan scan cursor = ofScan other cursor := by
  simp only [ofScan, same]

/-- A scan that says about a rest what another one says about what is left of it behind some
    bytes stops where that one stops from there. -/
theorem ofScan_behind {other : Scan α} {run : Bytes} (h : cursor.rest = run ++ tail)
    (same : scan cursor.rest = other tail) :
    ofScan scan cursor = ofScan other (cursor.moveTo tail) := by
  simp only [ofScan, same, Cursor.rest_moveTo_tail h]
  rfl

theorem ofScan_next {other : Scan α} (h : cursor.rest = b :: tail)
    (same : scan cursor.rest = other tail) :
    ofScan scan cursor = ofScan other (cursor.moveTo tail) :=
  ofScan_behind (h.trans (List.singleton_append (x := b)).symm) same

theorem unexpected_apply (expected : Expected) (cursor : Cursor) :
    (unexpected expected : Reading α) cursor =
      .failed (.of cursor.text expected cursor.rest) cursor := by
  have place : cursor.text.length - cursor.rest.length = cursor.position := by
    have := cursor.position_le
    rw [Cursor.length_rest]
    omega
  simp only [unexpected, ParseError.of, place]
  rfl

/-- A scan that takes nothing leaves the cursor where it is. -/
theorem ofScan_of_stays {value : α} (h : scan cursor.rest = .done value cursor.rest) :
    ofScan scan cursor = .done value cursor := by
  rw [ofScan_of_done h, cursor.moveTo_rest]

theorem ofScan_of_failed_here {expected : Expected}
    (h : scan cursor.rest = .failed expected cursor.rest) :
    ofScan scan cursor = unexpected expected cursor := by
  rw [ofScan_of_failed h, cursor.moveTo_rest, unexpected_apply]

/-- What a scan says after a round: what the round leaves with, or what is said from its state on
    about the bytes that are left. -/
def goOn (scan : σ → Scan α) : Scan.Result (Turn σ α) → Scan.Result α
  | .done (.leave value) rest => .done value rest
  | .done (.again state) rest => scan state rest
  | .failed expected rest => .failed expected rest

namespace Follows

theorem congr {other : Scan α} (h : Follows reading scan)
    (same : ∀ input, scan input = other input) : Follows reading other := by
  obtain rfl : scan = other := funext same
  exact h

theorem pure (value : α) : Follows (pure value) (Pure.pure value) where
  forward := Scan.forward_pure value
  eq _ := (ofScan_of_stays rfl).symm

theorem bind {next : α → Reading β} {further : α → Scan β} (first : Follows reading scan)
    (second : ∀ value, Follows (next value) (further value)) :
    Follows (reading >>= next) (scan >>= further) where
  forward := first.forward.bind fun value => (second value).forward
  eq cursor := by
    have passed := first.forward cursor.rest
    rw [bind_apply, first.eq]
    cases found : scan cursor.rest with
    | failed expected rest =>
        rw [ofScan_of_failed found, ofScan_of_failed (Scan.bind_of_failed found further)]
    | done value rest =>
        rw [found, Scan.Result.rest_done] at passed
        obtain ⟨run, split⟩ := passed
        rw [ofScan_of_done found, ofScan_behind split.symm (Scan.bind_of_done found further)]
        exact (second value).eq _

theorem map (h : Follows reading scan) (f : α → β) : Follows (f <$> reading) (f <$> scan) :=
  h.bind fun value => .pure (f value)

theorem ite {c : Prop} [Decidable c] {other : Reading α} {further : Scan α}
    (first : c → Follows reading scan) (second : ¬ c → Follows other further) :
    Follows (if c then reading else other) (if c then scan else further) := by
  by_cases h : c
  · simpa only [if_pos h] using first h
  · simpa only [if_neg h] using second h

theorem of_done {value : α} (h : Follows reading scan)
    (found : scan cursor.rest = .done value rest) :
    reading cursor = .done value (cursor.moveTo rest) :=
  (h.eq cursor).trans (ofScan_of_done found)

theorem of_failed {expected : Expected} (h : Follows reading scan)
    (found : scan cursor.rest = .failed expected rest) :
    reading cursor = .failed (.of cursor.text expected rest) (cursor.moveTo rest) :=
  (h.eq cursor).trans (ofScan_of_failed found)

/-- A loop follows a scan that can be unrolled into what its rounds follow, if each round that
    asks for another one leaves less. -/
theorem loop {round : σ → Reading (Turn σ α)} (turn : σ → Scan (Turn σ α)) (scan : σ → Scan α)
    (rounds : ∀ state, Follows (round state) (turn state))
    (moves : ∀ state input next rest, turn state input = .done (.again next) rest →
      rest.length < input.length)
    (forward : ∀ state, (scan state).Forward)
    (unroll : ∀ state input, scan state input = goOn scan (turn state input))
    (state : σ) : Follows (Reading.loop round state) (scan state) where
  forward := forward state
  eq cursor := by
    -- On the length of the rest, which each further round leaves shorter.
    induction size : cursor.rest.length using Nat.strongRecOn generalizing cursor state with
    | ind size ih =>
        subst size
        have passed := (rounds state).forward cursor.rest
        have step := unroll state cursor.rest
        rw [Reading.loop]
        cases found : turn state cursor.rest with
        | failed expected rest =>
            rw [found] at step
            rw [(rounds state).of_failed found, ofScan_of_failed step]
        | done asked rest =>
            rw [found] at step passed
            rw [Scan.Result.rest_done] at passed
            rw [(rounds state).of_done found]
            cases asked with
            | leave value => exact (ofScan_of_done step).symm
            | again next =>
                obtain ⟨run, split⟩ := passed
                have shorter := moves state cursor.rest next rest found
                rw [← Cursor.rest_moveTo_tail split.symm] at shorter
                rw [ofScan_behind split.symm step]
                simp only [dif_pos shorter]
                exact ih _ shorter next _ rfl

end Follows

theorem map_of_done (scan : Scan α) {f : α → β} {input : Bytes} {value : α}
    (h : scan input = .done value rest) :
    (f <$> scan) input = .done (f value) rest :=
  Scan.bind_of_done h _

theorem map_of_failed (scan : Scan α) {f : α → β} {input : Bytes} {expected : Expected}
    (h : scan input = .failed expected rest) : (f <$> scan) input = .failed expected rest :=
  Scan.bind_of_failed h _

/-- Scan one more item behind those that were found. -/
def itemTurn (one : Scan (Option α)) (found : List α) : Scan (Turn (List α) (List α)) := do
  match ← one with
  | none => return .leave found
  | some next => return .again (found ++ [next])

/-- All further items behind those that were found. -/
def itemsBehind (all : Scan (List α)) (found : List α) : Scan (List α) :=
  (found ++ ·) <$> all

/-- What is scanned behind found items is one more of them and then the others. -/
theorem itemsBehind_unroll {one : Scan (Option α)} {all : Scan (List α)}
    (unroll : ∀ input, all input = Scan.nextAndOthers one all input) (found : List α)
    (input : Bytes) :
    itemsBehind all found input = goOn (itemsBehind all) (itemTurn one found input) := by
  have step := unroll input
  cases first : one input with
  | failed expected rest =>
      rw [show itemTurn one found input = _ from Scan.bind_of_failed first _]
      exact map_of_failed all (step.trans (Scan.bind_of_failed first _))
  | done taken rest =>
      rw [show itemTurn one found input = _ from Scan.bind_of_done first _]
      rw [show Scan.nextAndOthers one all input = _ from Scan.bind_of_done first _] at step
      cases taken with
      | none =>
          have none := map_of_done (f := (found ++ ·)) all step
          rwa [List.append_nil] at none
      | some next =>
          cases further : all rest with
          | failed expected left =>
              exact (map_of_failed all (step.trans (Scan.bind_of_failed further _))).trans
                (map_of_failed all further).symm
          | done others left =>
              refine (map_of_done all (step.trans (Scan.bind_of_done further _))).trans ?_
              refine Eq.trans ?_ (map_of_done all further).symm
              rw [List.append_assoc, List.singleton_append]

/-- To collect items is to follow a scan that reads one and then the others, if each item takes
    at least one byte. -/
theorem follows_collect {item : Reading (Option α)} {one : Scan (Option α)} {all : Scan (List α)}
    (items : Follows item one)
    (moves : ∀ input value rest, one input = .done (some value) rest → rest.length < input.length)
    (forward : all.Forward)
    (unroll : ∀ input, all input = Scan.nextAndOthers one all input) :
    Follows (collect item) all := by
  have rounds (found : List α) : Follows (collectRound item found) (itemTurn one found) := by
    refine items.bind fun next => ?_
    cases next with
    | none => exact .pure _
    | some next => exact .pure _
  have shorter (found : List α) (input : Bytes) (next : List α) (rest : Bytes)
      (again : itemTurn one found input = .done (.again next) rest) :
      rest.length < input.length := by
    obtain ⟨taken, left, first, second⟩ := Scan.bind_eq_done_iff.1 again
    cases taken with
    | none => cases second
    | some value =>
        cases second
        exact moves input value rest first
  have followed : Follows (collect item) (itemsBehind all []) :=
    .loop (itemTurn one) (itemsBehind all) rounds shorter (fun _ => forward.map _)
      (itemsBehind_unroll unroll) []
  refine followed.congr fun input => ?_
  cases h : all input with
  | done value rest => exact map_of_done all h
  | failed expected rest => exact map_of_failed all h

theorem follows_peek : Follows peek Scan.peek where
  forward _ := List.suffix_rfl
  eq _ := (ofScan_of_stays rfl).symm

theorem follows_advance : Follows advance Scan.advance where
  forward _ := List.tail_suffix _
  eq cursor := by
    cases h : cursor.rest with
    | nil =>
        have found : Scan.advance cursor.rest = .done none cursor.rest := by
          rw [h]
          rfl
        rw [ofScan_of_stays found, advance, Cursor.advance_of_nil h]
    | cons b tail =>
        have found : Scan.advance cursor.rest = .done (some b) tail := by
          rw [h]
          rfl
        rw [ofScan_of_done found, advance, Cursor.advance_of_cons h]

theorem follows_unexpected (expected : Expected) :
    Follows (unexpected expected : Reading α) (Scan.fail expected) where
  forward := Scan.forward_fail expected
  eq _ := (ofScan_of_failed_here rfl).symm

theorem position_bind (cursor : Cursor) (next : Nat → Reading α) :
    (position >>= next) cursor = next cursor.position cursor :=
  rfl

theorem advance_bind_of_nil (h : cursor.rest = []) (next : Option UInt8 → Reading α) :
    (advance >>= next) cursor = next none cursor := by
  simp only [bind_apply, advance, Cursor.advance_of_nil h]

theorem advance_bind_of_cons (h : cursor.rest = b :: tail) (next : Option UInt8 → Reading α) :
    (advance >>= next) cursor = next (some b) (cursor.moveTo tail) := by
  simp only [bind_apply, advance, Cursor.advance_of_cons h]

/-- Going back over a byte that was just taken. -/
theorem retreat_bind_of_cons (h : cursor.rest = b :: tail) (next : Unit → Reading α) :
    (retreat >>= next) (cursor.moveTo tail) = next () cursor := by
  simp only [bind_apply, retreat, Cursor.retreat_of_cons h]

theorem since_bind {start : Nat} {taken : Bytes} (h : cursor.since start = .ok taken)
    (next : Bytes → Reading α) : (since start >>= next) cursor = next taken cursor := by
  simp only [bind_apply, since, h]

/-- Take the next byte if it is of a kind. -/
def skipOne (p : UInt8 → Bool) : Scan (Turn Unit Unit)
  | [] => .done (.leave ()) []
  | b :: rest => if p b then .done (.again ()) rest else .done (.leave ()) (b :: rest)

theorem forward_skipOne (p : UInt8 → Bool) : (skipOne p).Forward := by
  intro input
  cases input with
  | nil => exact List.suffix_rfl
  | cons b rest => by_cases h : p b = true <;> simp [skipOne, h]

/-- To take bytes of a kind one by one is to drop the longest run of them. -/
theorem follows_dropWhile {p : UInt8 → Bool} {round : Unit → Reading (Turn Unit Unit)}
    (rounds : ∀ state, Follows (round state) (skipOne p)) :
    Follows (loop round ()) fun input => .done () (input.dropWhile p) := by
  refine Follows.loop (fun _ => skipOne p) (fun _ input => .done () (input.dropWhile p)) rounds ?_
    (fun _ _ => List.dropWhile_suffix _) ?_ ()
  · intro _ input next rest found
    cases input with
    | nil => cases found
    | cons b tail =>
        rw [skipOne] at found
        split at found <;> cases found
        exact Nat.lt_succ_self _
  · intro _ input
    cases input with
    | nil => rfl
    | cons b tail =>
        by_cases h : p b = true <;> simp [skipOne, goOn, h]

theorem follows_spaces : Follows spaces Scan.spaces := by
  refine follows_dropWhile fun _ => ?_
  apply (follows_peek.bind fun next => Follows.ite (c := next = some Byte.space)
    (fun _ => follows_advance.bind fun _ => .pure (Turn.again ()))
    (fun _ => .pure (Turn.leave ()))).congr
  intro input
  cases input with
  | nil => rfl
  | cons b tail =>
      by_cases h : b = Byte.space <;>
        simp [Scan.bind_apply, Scan.peek, Scan.advance, skipOne, Byte.isSpace, h]

theorem follows_nameBytes :
    Follows nameBytes fun input => .done () (input.dropWhile Byte.isIdentifier) := by
  refine follows_dropWhile fun _ => ⟨forward_skipOne _, fun cursor => ?_⟩
  cases h : cursor.rest with
  | nil =>
      have found : skipOne Byte.isIdentifier cursor.rest = .done (.leave ()) cursor.rest := by
        rw [h, skipOne]
      rw [advance_bind_of_nil h, ofScan_of_stays found]
      rfl
  | cons b tail =>
      rw [advance_bind_of_cons h]
      by_cases inName : Byte.isIdentifier b = true
      · have found : skipOne Byte.isIdentifier cursor.rest = .done (.again ()) tail := by
          rw [h, skipOne, if_pos inName]
        simp only [inName, if_true, ofScan_of_done found]
        rfl
      · have found : skipOne Byte.isIdentifier cursor.rest = .done (.leave ()) cursor.rest := by
          rw [h, skipOne, if_neg inName]
        rw [ofScan_of_stays found]
        simp only [inName]
        exact retreat_bind_of_cons h _

theorem follows_identifier : Follows identifier Scan.identifier where
  forward := Scan.forward_identifier
  eq cursor := by
    have split := (List.takeWhile_append_dropWhile (p := Byte.isIdentifier) (l := cursor.rest)).symm
    have known := Cursor.since_moveTo cursor.since_position split
    have passed : nameBytes cursor =
        .done () (cursor.moveTo (cursor.rest.dropWhile Byte.isIdentifier)) :=
      follows_nameBytes.of_done rfl
    have taken : identifier cursor =
        (if (cursor.rest.takeWhile Byte.isIdentifier).isEmpty then unexpected .identifier
          else Pure.pure (cursor.rest.takeWhile Byte.isIdentifier) : Reading Name)
          (cursor.moveTo (cursor.rest.dropWhile Byte.isIdentifier)) := by
      rw [identifier, position_bind, bind_apply, passed]
      exact since_bind known _
    rw [taken]
    by_cases empty : cursor.rest.takeWhile Byte.isIdentifier = []
    · rw [empty, List.nil_append] at split
      have failed : Scan.identifier cursor.rest = .failed .identifier cursor.rest := by
        simp [Scan.identifier, empty]
      rw [← split, empty, ofScan_of_failed_here failed, cursor.moveTo_rest]
      rfl
    · have found : Scan.identifier cursor.rest = .done (cursor.rest.takeWhile Byte.isIdentifier)
          (cursor.rest.dropWhile Byte.isIdentifier) := by
        simp [Scan.identifier, empty]
      rw [ofScan_of_done found]
      simp only [List.isEmpty_iff, empty, if_false]
      rfl

theorem follows_byte (wanted : UInt8) (expected : Expected) :
    Follows (byte wanted expected) (Scan.byte wanted expected) := by
  apply (follows_peek.bind fun next => Follows.ite (c := next = some wanted)
    (fun _ => follows_advance.bind fun _ => .pure ()) (fun _ => follows_unexpected expected)).congr
  intro input
  cases input with
  | nil => rfl
  | cons b tail =>
      by_cases h : b = wanted <;>
        simp [Scan.bind_apply, Scan.peek, Scan.advance, Scan.fail, Scan.byte, h]

theorem follows_endOfLine : Follows endOfLine Scan.endOfLine :=
  follows_byte _ _

theorem restore_of_rest {run : Bytes} (h : cursor.rest = run ++ tail) :
    restore (cursor.position + run.length) cursor = .done () (cursor.moveTo tail) := by
  have behind := Cursor.position_moveTo h
  have within : (cursor.moveTo tail).position ≤ cursor.text.length :=
    (cursor.moveTo tail).position_le
  rw [behind] at within
  rw [restore, Cursor.restore, dif_pos within]
  simp only [← behind]
  rfl

theorem findIdx?_of_notMem {text : Bytes} (within : Byte.newline ∉ text) :
    text.findIdx? (· == Byte.newline) = none := by
  rw [List.findIdx?_eq_none_iff]
  intro b member
  have other := Written.isWithin_of_notMem within b member
  simpa using other

theorem findIdx?_newline {text : Bytes} (within : Byte.newline ∉ text) (tail : Bytes) :
    (text ++ Byte.newline :: tail).findIdx? (· == Byte.newline) = some text.length := by
  simp [List.findIdx?_append, List.findIdx?_cons, findIdx?_of_notMem within]

theorem comment_of_some {count : Nat}
    (h : cursor.rest.findIdx? (· == Byte.newline) = some count) :
    comment cursor = restore (cursor.position + count + 1) cursor := by
  simp only [comment, bind_apply, rest, position, h]

theorem comment_of_none (h : cursor.rest.findIdx? (· == Byte.newline) = none) :
    comment cursor = (restore cursor.text.length >>= fun _ => unexpected .comment) cursor := by
  simp only [comment, bind_apply, rest, length, h]

theorem follows_comment : Follows comment Scan.comment where
  forward := Scan.forward_comment
  eq cursor := by
    by_cases within : Byte.newline ∈ cursor.rest
    · obtain ⟨text, tail, same, first⟩ := List.eq_append_cons_of_mem within
      have found : Scan.comment cursor.rest = .done () tail :=
        Written.comment_eq_done_iff.2 ⟨text, first, same⟩
      have passed : cursor.rest = (text ++ [Byte.newline]) ++ tail := by simp [same]
      have moved := restore_of_rest passed
      rw [List.length_append, List.length_singleton, ← Nat.add_assoc] at moved
      rw [ofScan_of_done found, comment_of_some (same ▸ findIdx?_newline first tail)]
      exact moved
    · have found : Scan.comment cursor.rest = .failed .comment [] :=
        Written.comment_eq_failed_iff.2 ⟨rfl, rfl, within⟩
      have moved := restore_of_rest (List.append_nil cursor.rest).symm
      have ended : cursor.position + cursor.rest.length = cursor.text.length := by
        have := cursor.position_le
        rw [Cursor.length_rest]
        omega
      rw [ended] at moved
      rw [ofScan_of_failed found, comment_of_none (findIdx?_of_notMem within), bind_apply, moved]
      have left : (cursor.moveTo []).rest = [] := Cursor.rest_moveTo_of_suffix List.nil_suffix
      refine (unexpected_apply .comment (cursor.moveTo [])).trans ?_
      rw [left]
      rfl

end Reading

end BuildFile
