import BuildFile.Proofs.ManifestMoves
import Mathlib.Algebra.Ring.Nat

/-! # Every item takes a line

A statement or a definition is returned only when its newline has been taken, and no newline is
taken twice. So a text has at least as many newlines as there are items in it, in whatever order a
parser is asked for them, and however many errors it meets in between.
-/

namespace BuildFile

/-- What stands in front of the rest ends with a newline. -/
def TakesLine (input rest : Bytes) : Prop :=
  ∃ taken, input = taken ++ rest ∧ taken.getLast? = some Byte.newline

theorem TakesLine.count_lt {input rest : Bytes} (h : TakesLine input rest) :
    rest.count Byte.newline < input.count Byte.newline := by
  obtain ⟨taken, rfl, last⟩ := h
  have positive := List.count_pos_iff.2 (List.mem_of_getLast? last)
  rw [List.count_append]
  omega

theorem Written.Assignment.getLast?_text (defined : Assignment) :
    defined.text.getLast? = some Byte.newline := by
  simp [text, List.getLast?_cons]

theorem Written.Statement.getLast?_text (statement : Statement) :
    statement.text.getLast? = some Byte.newline := by
  cases statement with
  | assignment defined => exact defined.getLast?_text
  | rule | default => simp [text]
  | build line => simp [text, BuildLine.text, BuildLine.implicitText, BuildLine.orderOnlyText,
      List.getLast?_cons]

theorem Statement.takesLine_of_readNext {input rest : Bytes} {statement : Statement}
    (h : readNext input = .done (some statement) rest) : TakesLine input rest := by
  obtain ⟨written, ⟨file, rfl, -⟩, -⟩ := Written.statement_of_readNext h
  refine ⟨file.text ++ written.text, (List.append_assoc _ _ _).symm, ?_⟩
  rw [List.getLast?_append, written.getLast?_text, Option.some_or]

theorem Binding.takesLine_of_readNext {input rest : Bytes} {binding : Binding}
    (h : readNext input = .done (some binding) rest) : TakesLine input rest := by
  obtain ⟨indent, defined, ⟨block, rfl, -⟩, -⟩ := Written.binding_of_readNext h
  refine ⟨block.text ++ (Written.BlockLine.binding indent defined).text,
    (List.append_assoc _ _ _).symm, ?_⟩
  rw [List.getLast?_append, Written.BlockLine.text, List.getLast?_append, defined.getLast?_text,
    Option.some_or, Option.some_or]

theorem count_le_of_suffix {rest input : Bytes} (h : rest <:+ input) :
    rest.count Byte.newline ≤ input.count Byte.newline :=
  h.sublist.count_le _

/-- Reading one item, or finding that there is none, takes a newline for each item. -/
theorem length_toList_add_count_le {α : Type} {next : Scan (Option α)} {input rest : Bytes}
    {found : Option α} (forward : next.Forward)
    (takes : ∀ item, next input = .done (some item) rest → TakesLine input rest)
    (h : next input = .done found rest) :
    found.toList.length + rest.count Byte.newline ≤ input.count Byte.newline := by
  cases found with
  | none =>
      have passed := forward input
      rw [h] at passed
      exact (Nat.zero_add _).trans_le (count_le_of_suffix passed)
  | some item =>
      have line := (takes item h).count_lt
      rw [Option.toList_some, List.length_singleton]
      omega

/-- A block takes a newline for each of its definitions. -/
theorem Binding.length_add_count_le {input rest : Bytes} {block : List Binding}
    (h : readBlock input = .done block rest) :
    block.length + rest.count Byte.newline ≤ input.count Byte.newline := by
  induction input using readBlock.induct generalizing block rest with
  | case1 input expected left hread =>
      rw [Written.readBlock_failed hread] at h
      cases h
  | case2 input left hread =>
      rw [Written.readBlock_none hread] at h
      cases h
      exact length_toList_add_count_le forward_readNext (fun _ => takesLine_of_readNext) hread
  | case3 input binding middle hread expected left hblock ih =>
      rw [Written.readBlock_some hread, hblock] at h
      cases h
  | case4 input binding middle hread others left hblock ih =>
      rw [Written.readBlock_some hread, hblock] at h
      cases h
      have first := (takesLine_of_readNext hread).count_lt
      have more := ih hblock
      rw [List.length_cons]
      omega

/-- A declaration takes a newline for itself and one for each definition in its block. -/
theorem Declaration.length_add_count_lt {input rest : Bytes} {declaration : Declaration}
    (h : readNext input = .done (some declaration) rest) :
    declaration.block.length + rest.count Byte.newline < input.count Byte.newline := by
  obtain ⟨found, middle, next, h⟩ := Scan.bind_eq_done_iff.1 h
  cases found with
  | none => cases h
  | some statement =>
      obtain ⟨_, hof, same⟩ := Written.map_eq_done_iff.1 h
      obtain ⟨block, left, bindings, done⟩ := Scan.bind_eq_done_iff.1 hof
      cases done
      cases same
      have line := (Statement.takesLine_of_readNext next).count_lt
      cases opens : statement.opensBlock with
      | true =>
          rw [Written.readBlock_of_opensBlock opens] at bindings
          have inner := Binding.length_add_count_le bindings
          dsimp only
          omega
      | false =>
          rw [Written.readBlock_of_not_opensBlock opens] at bindings
          cases bindings
          simpa using line

/-- All that is declared in a text, also in front of an error, has newlines of its own. -/
theorem Document.sum_length_le (input : Bytes) :
    ((read input).declarations.map fun declaration => declaration.block.length + 1).sum ≤
      input.count Byte.newline := by
  induction input using read.induct with
  | case1 input expected rest hread =>
      rw [Written.readDocument_failed hread]
      exact Nat.zero_le _
  | case2 input rest hread =>
      rw [Written.readDocument_none hread]
      exact Nat.zero_le _
  | case3 input declaration rest hread ih =>
      rw [Written.readDocument_some hread, List.map_cons, List.sum_cons]
      have first := Declaration.length_add_count_lt hread
      omega

namespace Parser

/-- How many newlines are left. -/
def newlinesLeft (parser : Parser) : Nat := parser.cursor.rest.count Byte.newline

/-- How many statements and definitions an answer holds. -/
def Answer.items : Answer → Nat
  | .statement none | .binding none => 0
  | .statement (some _) | .binding (some _) => 1
  | .bindings block => block.length

/-- How many statements and definitions a call gives. An error gives none. -/
def itemsOf : Except ParseError Answer → Nat
  | .ok answer => answer.items
  | .error _ => 0

variable {α : Type} {scan : Scan α} {parser after : Parser} {value : α}

theorem newlinesLeft_step_le (forward : scan.Forward) (parser : Parser) :
    (parser.step scan).2.newlinesLeft ≤ parser.newlinesLeft := by
  have passed := forward parser.cursor.rest
  rw [← rest_step forward parser] at passed
  exact count_le_of_suffix passed

/-- The bytes from before a step up to the cursor behind it are a text that ends with a newline. -/
theorem since_step_of_takesLine (h : parser.step scan = (.ok value, after))
    (takes : ∀ input rest, scan input = .done value rest → TakesLine input rest) :
    ∃ taken, after.cursor.since parser.position = .ok taken ∧
      taken.getLast? = some Byte.newline := by
  unfold step at h
  split at h
  · next found =>
    cases h
    obtain ⟨taken, same, last⟩ := takes _ _ found
    exact ⟨taken, Cursor.since_moveTo parser.cursor.since_position same, last⟩
  · cases h

/-- If what a scan finds is paid for by newlines, so is what a step gives. -/
theorem items_step_le (forward : scan.Forward) {answer : α → Answer}
    (paid : ∀ input value rest, scan input = .done value rest →
      (answer value).items + rest.count Byte.newline ≤ input.count Byte.newline)
    (parser : Parser) :
    itemsOf ((parser.step scan).1.map answer) + (parser.step scan).2.newlinesLeft ≤
      parser.newlinesLeft := by
  have stays := newlinesLeft_step_le forward parser
  rcases next : parser.step scan with ⟨error | value, after⟩
  · rw [next] at stays
    exact (Nat.zero_add _).trans_le stays
  · exact paid _ value _ (done_of_step forward next)

theorem items_ask_le (parser : Parser) (call : Call) :
    itemsOf (parser.ask call).1 + (parser.ask call).2.newlinesLeft ≤ parser.newlinesLeft := by
  cases call with
  | nextStatement =>
      apply items_step_le Statement.forward_readNext
      intro input found rest h
      have paid := length_toList_add_count_le Statement.forward_readNext
        (fun _ => Statement.takesLine_of_readNext) h
      cases found <;> exact paid
  | nextBinding =>
      apply items_step_le Binding.forward_readNext
      intro input found rest h
      have paid := length_toList_add_count_le Binding.forward_readNext
        (fun _ => Binding.takesLine_of_readNext) h
      cases found <;> exact paid
  | bindings =>
      apply items_step_le Binding.forward_readBlock
      intro input block rest h
      exact Binding.length_add_count_le h

/-- Over any calls, also behind errors, no newline pays twice. -/
theorem sum_items_trace_le (calls : List Call) (parser : Parser) :
    ((parser.trace calls).map fun step => itemsOf step.1).sum ≤ parser.newlinesLeft := by
  induction calls generalizing parser with
  | nil => exact Nat.zero_le _
  | cons call calls ih =>
      have first := items_ask_le parser call
      have others := ih (parser.ask call).2
      simp only [trace, List.map_cons, List.sum_cons]
      omega

end Parser

namespace Manifest

/-- How much a manifest holds: variables, rules, builds, default targets, and what is defined in
    blocks. -/
def size (manifest : Manifest) : Nat :=
  manifest.globals.length + manifest.rules.length + manifest.builds.length +
    manifest.defaults.length + (manifest.rules.map (·.bindings.length)).sum +
    (manifest.builds.map (·.bindings.length)).sum

theorem size_declare_le (manifest : Manifest) (declaration : Declaration) :
    (manifest.declare declaration).size ≤ manifest.size + (declaration.block.length + 1) := by
  obtain ⟨statement, block⟩ := declaration
  cases statement <;> simp [declare, size, Environment.define, BuildLine.evaluate] <;> omega

theorem size_foldl_le (declarations : List Declaration) (manifest : Manifest) :
    (declarations.foldl declare manifest).size ≤ manifest.size +
      (declarations.map fun declaration => declaration.block.length + 1).sum := by
  induction declarations generalizing manifest with
  | nil => exact Nat.le_refl _
  | cons declaration rest ih =>
      have first := size_declare_le manifest declaration
      have others := ih (manifest.declare declaration)
      simp only [List.foldl_cons, List.map_cons, List.sum_cons]
      omega

theorem size_le_of_parse {text : Bytes} {manifest : Manifest}
    (accepted : parse text = .ok manifest) : manifest.size ≤ text.count Byte.newline := by
  obtain ⟨declarations, declares, rfl⟩ := parse_eq_ok_iff.1 accepted
  have read : Document.read text = { declarations } := declares.read_eq
  have held := size_foldl_le declarations {}
  have paid := Document.sum_length_le text
  rw [read] at paid
  exact held.trans (by simpa [size] using paid)

end Manifest

namespace Parser

/-- From every place of every text, a call that returns a statement or a definition takes bytes up
    to a newline and stops behind it. So over any calls there are at most as many of them as
    newlines. The loops over paths, over a block and over a file come to an end without a guard,
    the last one with what parsing the file gives, and a manifest holds no more than there are
    newlines in its text. -/
theorem makes_progress :
    (∀ (parser after : Parser) (statement : Statement),
      parser.nextStatement = (.ok (some statement), after) →
        ∃ taken, after.cursor.since parser.position = .ok taken ∧
          taken.getLast? = some Byte.newline) ∧
    (∀ (parser after : Parser) (binding : Binding),
      parser.nextBinding = (.ok (some binding), after) →
        ∃ taken, after.cursor.since parser.position = .ok taken ∧
          taken.getLast? = some Byte.newline) ∧
    (∀ (text : Bytes) (calls : List Call),
      (((start text).trace calls).map fun step => itemsOf step.1).sum ≤
        text.count Byte.newline) ∧
    (∀ cursor : Cursor,
      Reading.Runs (Reading.collectRound Reading.nextPath) [] cursor (Reading.paths cursor) ∧
      Reading.Runs (fun _ => Reading.blockRound) () cursor (Reading.nextBinding cursor) ∧
      Reading.Runs (Reading.collectRound Reading.nextBinding) [] cursor (Reading.bindings cursor) ∧
      Reading.Runs Reading.manifestRound {} cursor (Reading.manifest cursor)) ∧
    (∀ text : Bytes,
      (∀ manifest, Manifest.parse text = .ok manifest →
        (∃ after, Reading.manifest (.start text) = .done manifest after) ∧
          manifest.size ≤ text.count Byte.newline) ∧
      (∀ error, Manifest.parse text = .error error →
        ∃ after, Reading.manifest (.start text) = .failed error after)) := by
  refine ⟨?_, ?_, ?_, ?_, ?_⟩
  · intro parser after statement h
    exact since_step_of_takesLine h fun _ _ => Statement.takesLine_of_readNext
  · intro parser after binding h
    exact since_step_of_takesLine h fun _ _ => Binding.takesLine_of_readNext
  · intro text calls
    exact sum_items_trace_le calls (start text)
  · intro cursor
    exact ⟨Reading.follows_paths.runs_loop cursor, Reading.follows_nextBinding.runs_loop cursor,
      Reading.follows_bindings.runs_loop cursor,
      (Reading.follows_loop_manifestRound {}).runs_loop cursor⟩
  · intro text
    obtain ⟨accepted, rejected⟩ := Reading.manifest_start text
    exact ⟨fun manifest h => ⟨accepted manifest h, Manifest.size_le_of_parse h⟩, rejected⟩

/-- A definition with a line continuation is one item and takes two newlines. -/
def continued : Bytes := ascii "a = $\n 1\n"

/-- A comment behind the definition is never closed, so the call after it fails, and so does
    parsing. -/
def folded : Bytes := continued ++ ascii "#"

def folding : Binding := ⟨ascii "a", [.literal (ascii "1")]⟩

def behindFolded : Parser := ⟨(start folded).cursor.moveTo (ascii "#")⟩

def indented : Bytes := ascii "  " ++ continued

def behindIndented : Parser := ⟨(start indented).cursor.moveTo []⟩

theorem makes_progress_folded :
    (start folded).nextStatement = (.ok (some (.assignment folding)), behindFolded) ∧
    (∃ taken, behindFolded.cursor.since 0 = .ok taken ∧ taken.getLast? = some Byte.newline) ∧
    (start indented).nextBinding = (.ok (some folding), behindIndented) ∧
    (∃ taken, behindIndented.cursor.since 0 = .ok taken ∧ taken.getLast? = some Byte.newline) ∧
    ((start folded).trace [.nextStatement, .nextStatement]).map Prod.snd = [9, 10] ∧
    (((start folded).trace [.nextStatement, .nextStatement]).map fun step => itemsOf step.1).sum ≤
      folded.count Byte.newline ∧
    (∃ after, Reading.manifest (.start continued) =
      .done { globals := [(ascii "a", ascii "1")] } after) ∧
    (∃ after, Reading.manifest (.start folded) = .failed ⟨10, none, ascii "comment"⟩ after) := by
  obtain ⟨statements, bindings, items, -, files⟩ := makes_progress
  have statement : (start folded).nextStatement =
      (.ok (some (.assignment folding)), behindFolded) := by
    decide +kernel
  have binding : (start indented).nextBinding = (.ok (some folding), behindIndented) := by
    decide +kernel
  have accepted : Manifest.parse continued = .ok { globals := [(ascii "a", ascii "1")] } := by
    decide +kernel
  have rejected : Manifest.parse folded = .error ⟨10, none, ascii "comment"⟩ := by
    decide +kernel
  exact ⟨statement, statements _ _ _ statement, binding, bindings _ _ _ binding,
    by decide +kernel, items folded _, ((files continued).1 _ accepted).1,
    (files folded).2 _ rejected⟩

end Parser

end BuildFile
