import BuildFile.Proofs.CursorMoves
import BuildFile.Proofs.Written.Paths

/-! # Reading templates by moves

A template is taken byte by byte. What has been passed of a run of text is not in the template
yet: it is looked up behind the cursor when the run ends. So the loop over a template follows the
scan of what is left of it behind that run.
-/

namespace BuildFile.Reading

open Template (Context ofText)

variable {α β : Type} {scan : Scan α} {cursor : Cursor} {rest tail : Bytes} {b : UInt8}

theorem push_literal (template : Template) (text : Bytes) :
    template.push (.literal text) = template ++ ofText text := by
  cases text <;> simp [Template.push, Part.isEmpty, ofText]

theorem push_reference (template : Template) {name : Name} (h : Written.IsName name) :
    template.push (.reference name) = template ++ [.reference name] := by
  simp [Template.push, Part.isEmpty, h.1]

/-- What is done with a name may rely on its being one. -/
theorem identifier_bind_congr {next other : Name → Scan α}
    (same : ∀ name, Written.IsName name → next name = other name) :
    (Scan.identifier >>= next) = (Scan.identifier >>= other) := by
  funext input
  cases found : Scan.identifier input with
  | failed expected rest => rw [Scan.bind_of_failed found, Scan.bind_of_failed found]
  | done name rest =>
      have isName := (Written.identifier_eq_done_iff.1 found).2.1
      rw [Scan.bind_of_done found, Scan.bind_of_done found, same name isName]

theorem bind_assoc {γ : Type} (first : Scan α) (second : α → Scan β) (third : β → Scan γ) :
    (first >>= second) >>= third = first >>= fun value => second value >>= third := by
  funext input
  cases found : first input with
  | failed expected rest =>
      rw [Scan.bind_of_failed found, Scan.bind_of_failed (Scan.bind_of_failed found second)]
  | done value rest =>
      rw [Scan.bind_of_done found, Scan.bind_apply, Scan.bind_of_done found]
      rfl

theorem map_readBraced (before : Template) :
    (before ++ ·) <$> Template.readBraced = do
      let name ← Scan.identifier
      Scan.byte Byte.closeBrace .variableReference
      return before.push (.reference name) := by
  refine (bind_assoc _ _ _).trans (identifier_bind_congr fun name isName => ?_)
  rw [push_reference before isName]
  exact bind_assoc _ _ _

theorem map_readBare (before : Template) :
    (before ++ ·) <$> Template.readBare = do
      let name ← Scan.identifier
      return before.push (.reference name) := by
  refine (bind_assoc _ _ _).trans (identifier_bind_congr fun name isName => ?_)
  rw [push_reference before isName]
  rfl

section Escapes

variable (before : Template)

theorem map_readEscape_nil :
    ((before ++ ·) <$> Template.readEscape) [] = .failed .variableReference [] :=
  rfl

theorem map_readEscape_newline (tail : Bytes) :
    ((before ++ ·) <$> Template.readEscape) (Byte.newline :: tail) =
      (Scan.spaces >>= fun _ => Pure.pure before : Scan Template) tail :=
  congrArg (Scan.Result.done · _) (List.append_nil before)

theorem map_readEscape_special (newline : b ≠ Byte.newline)
    (special : Template.needsEscape b = true) (tail : Bytes) :
    ((before ++ ·) <$> Template.readEscape) (b :: tail) = .done (before ++ ofText [b]) tail := by
  simp [Written.map_eq_done_iff, Template.readEscape, newline, special, ofText]

theorem map_readEscape_brace (tail : Bytes) :
    ((before ++ ·) <$> Template.readEscape) (Byte.openBrace :: tail) =
      (do
        let name ← Scan.identifier
        Scan.byte Byte.closeBrace .variableReference
        return before.push (.reference name) : Scan Template) tail := by
  rw [← map_readBraced]
  exact Written.bind_reader_congr rfl

theorem map_readEscape_bare (newline : b ≠ Byte.newline)
    (special : ¬ Template.needsEscape b = true) (brace : b ≠ Byte.openBrace) (tail : Bytes) :
    ((before ++ ·) <$> Template.readEscape) (b :: tail) =
      (do
        let name ← Scan.identifier
        return before.push (.reference name) : Scan Template) (b :: tail) := by
  rw [← map_readBare]
  apply Written.bind_reader_congr
  rw [Template.readEscape, if_neg newline, if_neg special, if_neg brace]

theorem follows_escape :
    Follows (escape before) ((before ++ ·) <$> Template.readEscape) where
  forward := Template.forward_readEscape.map _
  eq cursor := by
    rw [escape, position_bind]
    cases h : cursor.rest with
    | nil =>
        have failed := map_readEscape_nil before
        rw [← h] at failed
        rw [advance_bind_of_nil h, ofScan_of_failed_here failed]
    | cons b tail =>
        rw [advance_bind_of_cons h]
        dsimp only
        by_cases newline : b = Byte.newline
        · subst newline
          have same := map_readEscape_newline before tail
          rw [← h] at same
          rw [if_pos rfl, ofScan_next h same]
          exact (follows_spaces.bind fun _ => .pure before).eq _
        rw [if_neg newline]
        by_cases special : Template.needsEscape b = true
        · have found := map_readEscape_special before newline special tail
          rw [← h] at found
          rw [if_pos special, since_bind (Cursor.since_next h), push_literal,
            ofScan_of_done found]
          rfl
        rw [if_neg special]
        by_cases brace : b = Byte.openBrace
        · subst brace
          have same := map_readEscape_brace before tail
          rw [← h] at same
          rw [if_pos rfl, ofScan_next h same]
          exact (follows_identifier.bind fun name => (follows_byte _ _).bind fun _ =>
            .pure (before.push (.reference name))).eq _
        · have same := map_readEscape_bare before newline special brace tail
          rw [← h] at same
          rw [if_neg brace, retreat_bind_of_cons h, ofScan_congr same]
          exact (follows_identifier.bind fun name =>
            .pure (before.push (.reference name))).eq _

end Escapes

section Rounds

variable {context : Context} {before : Template} {start : Nat} {run : Bytes}

theorem leave_template (known : cursor.since start = .ok run) :
    (do return Turn.leave (before.push (.literal (← since start))) :
      Reading (Turn (Template × Nat) Template)) cursor =
        .done (.leave (before ++ ofText run)) cursor := by
  rw [since_bind known, push_literal]
  rfl

theorem templateRound_of_ends (known : cursor.since start = .ok run) (h : cursor.rest = b :: tail)
    (ends : context.ends b = true) :
    templateRound context (before, start) cursor =
      .done (.leave (before ++ ofText run)) cursor := by
  rw [templateRound, advance_bind_of_cons h]
  dsimp only
  rw [if_pos ends, retreat_bind_of_cons h]
  exact leave_template known

theorem templateRound_of_plain (h : cursor.rest = b :: tail) (plain : context.isPlain b = true) :
    templateRound context (before, start) cursor =
      .done (.again (before, start)) (cursor.moveTo tail) := by
  obtain ⟨inside, other⟩ : context.ends b = false ∧ b ≠ Byte.dollar := by
    simpa [Context.isPlain] using plain
  rw [templateRound, advance_bind_of_cons h]
  dsimp only
  rw [inside, if_neg Bool.false_ne_true, if_neg other]
  rfl

theorem templateRound_of_dollar (known : cursor.since start = .ok run)
    (h : cursor.rest = Byte.dollar :: tail) :
    templateRound context (before, start) cursor =
      (escape (before ++ ofText run) >>= fun escaped => position >>= fun place =>
        Pure.pure (Turn.again (escaped, place))) (cursor.moveTo tail) := by
  have inside : context.ends Byte.dollar = false := by cases context <;> rfl
  rw [templateRound, advance_bind_of_cons h]
  dsimp only
  rw [inside, if_neg Bool.false_ne_true, if_pos rfl, retreat_bind_of_cons h, since_bind known,
    advance_bind_of_cons h, push_literal]

/-- What is left of a template of which some has been read, with a run of text that has been
    passed and is not in it yet. -/
def templateBehind (context : Context) (before : Template) (run : Bytes) : Scan Template :=
  fun input => Functor.map (f := Scan) (before ++ ·) (Template.read context) (run ++ input)

theorem templateBehind_of_ends (plain : ∀ b ∈ run, context.isPlain b = true)
    (ends : Written.Ends context rest.head?) :
    templateBehind context before run rest = .done (before ++ ofText run) rest :=
  map_of_done (Template.read context) (Written.read_run plain ends)

theorem templateBehind_dollar (context : Context) (before : Template)
    (plain : ∀ b ∈ run, context.isPlain b = true) (tail : Bytes) :
    templateBehind context before run (Byte.dollar :: tail) =
      (do
        let parts ← Template.readEscape
        templateBehind context (before ++ ofText run ++ parts) []) tail := by
  rw [templateBehind]
  refine (Written.bind_reader_congr (Written.read_dollar plain tail)).trans ?_
  refine (congrFun (bind_assoc _ _ _) tail).trans ?_
  cases found : Template.readEscape tail with
  | failed expected rest => rw [Scan.bind_of_failed found, Scan.bind_of_failed found]
  | done parts middle =>
      rw [Scan.bind_of_done found, Scan.bind_of_done found, templateBehind, List.nil_append]
      cases more : Template.read context middle with
      | failed expected rest =>
          exact (Scan.bind_of_failed (Scan.bind_of_failed more _) _).trans
            (map_of_failed (Template.read context) more).symm
      | done template rest =>
          let join (more : Template) : Scan Template := return ofText run ++ parts ++ more
          refine (Scan.bind_of_done (Scan.bind_of_done more join) _).trans ?_
          refine Eq.trans ?_ (map_of_done (Template.read context) more).symm
          change Scan.Result.done (before ++ (ofText run ++ parts ++ template)) rest = _
          simp only [List.append_assoc]

theorem templateBehind_plain (context : Context) (before : Template) (run : Bytes) (b : UInt8)
    (tail : Bytes) :
    templateBehind context before run (b :: tail) =
      templateBehind context before (run ++ [b]) tail := by
  rw [templateBehind, templateBehind, List.append_assoc, List.singleton_append]

/-- The loop at the end of the text, which ends a path and must not end a value. -/
theorem loop_templateRound_of_nil (known : cursor.since start = .ok run)
    (plain : ∀ b ∈ run, context.isPlain b = true) (h : cursor.rest = []) :
    loop (templateRound context) (before, start) cursor =
      ofScan (templateBehind context before run) cursor := by
  rw [loop, templateRound, advance_bind_of_nil h]
  cases context with
  | value =>
      have failed : templateBehind .value before run cursor.rest =
          .failed .value cursor.rest := by
        rw [h]
        exact map_of_failed (Template.read .value)
          (Written.read_unended (by rwa [List.append_nil]))
      dsimp only
      rw [if_pos rfl, ofScan_of_failed_here failed, unexpected_apply, unexpected_apply]
  | path =>
      have found : templateBehind .path before run cursor.rest =
          .done (before ++ ofText run) cursor.rest :=
        templateBehind_of_ends plain (by rw [h]; rfl)
      rw [ofScan_of_stays found]
      dsimp only
      rw [if_neg (by decide), leave_template known]

/-- The loop at a byte that ends the template. -/
theorem loop_templateRound_of_ends (known : cursor.since start = .ok run)
    (plain : ∀ b ∈ run, context.isPlain b = true) (h : cursor.rest = b :: tail)
    (ends : context.ends b = true) :
    loop (templateRound context) (before, start) cursor =
      ofScan (templateBehind context before run) cursor := by
  have found : templateBehind context before run cursor.rest =
      .done (before ++ ofText run) cursor.rest :=
    templateBehind_of_ends plain (by rw [h]; exact ends)
  rw [loop, templateRound_of_ends known h ends, ofScan_of_stays found]

/-- The loop at an escape, if it goes on behind it as it should. -/
theorem loop_templateRound_of_dollar (known : cursor.since start = .ok run)
    (plain : ∀ b ∈ run, context.isPlain b = true) (h : cursor.rest = Byte.dollar :: tail)
    (goesOn : ∀ (after : Cursor) (template : Template), after.rest.length < cursor.rest.length →
      loop (templateRound context) (template, after.position) after =
        ofScan (templateBehind context template []) after) :
    loop (templateRound context) (before, start) cursor =
      ofScan (templateBehind context before run) cursor := by
  have left := Cursor.rest_moveTo_next h
  have same := templateBehind_dollar context before plain tail
  rw [← h] at same
  rw [loop, templateRound_of_dollar known h, ofScan_next h same]
  cases found : Template.readEscape tail with
  | failed expected rest =>
      rw [← left] at found
      rw [bind_apply, (follows_escape _).of_failed (map_of_failed _ found),
        ofScan_of_failed (Scan.bind_of_failed found _)]
  | done parts rest =>
      have passed := Template.forward_readEscape tail
      rw [found, Scan.Result.rest_done] at passed
      have shorter : rest.length < cursor.rest.length := by
        rw [h]
        exact Nat.lt_succ_of_le passed.length_le
      rw [← left] at found passed
      have behind := Cursor.rest_moveTo_of_suffix passed
      obtain ⟨escaped, split⟩ := passed
      rw [bind_apply, (follows_escape _).of_done (map_of_done _ found),
        ofScan_behind split.symm (Scan.bind_of_done found _)]
      dsimp only [position_bind, pure_apply]
      rw [dif_pos (by rwa [behind])]
      exact goesOn _ _ (by rwa [behind])

/-- The loop over a template, from any place in it. -/
theorem loop_templateRound (known : cursor.since start = .ok run)
    (plain : ∀ b ∈ run, context.isPlain b = true) :
    loop (templateRound context) (before, start) cursor =
      ofScan (templateBehind context before run) cursor := by
  -- On the length of the rest. The run grows by a plain byte, and starts anew behind an escape.
  induction size : cursor.rest.length using Nat.strongRecOn generalizing cursor before start run with
  | ind size ih =>
      subst size
      cases h : cursor.rest with
      | nil => exact loop_templateRound_of_nil known plain h
      | cons b tail =>
          by_cases ends : context.ends b = true
          · exact loop_templateRound_of_ends known plain h ends
          by_cases dollar : b = Byte.dollar
          · subst dollar
            exact loop_templateRound_of_dollar known plain h fun after _ shorter =>
              ih _ shorter after.since_position (by simp) rfl
          have inside : context.isPlain b = true := by simp [Context.isPlain, ends, dollar]
          have further :=
            Cursor.since_moveTo known (h.trans (List.singleton_append (x := b)).symm)
          have longer : ∀ c ∈ run ++ [b], context.isPlain c = true :=
            List.forall_mem_append.2 ⟨plain, List.forall_mem_singleton.2 inside⟩
          have same := templateBehind_plain context before run b tail
          rw [← h] at same
          have shorter : (cursor.moveTo tail).rest.length < cursor.rest.length := by
            rw [Cursor.rest_moveTo_next h, h]
            exact Nat.lt_succ_self _
          rw [loop, templateRound_of_plain h inside, ofScan_next h same]
          dsimp only
          rw [dif_pos shorter]
          exact ih _ shorter further longer rfl

end Rounds

theorem follows_template (context : Context) :
    Follows (template context) (Template.read context) where
  forward := Template.forward_read context
  eq cursor := by
    have same : templateBehind context [] [] cursor.rest = Template.read context cursor.rest := by
      cases found : Template.read context cursor.rest with
      | failed expected rest => exact map_of_failed (Template.read context) found
      | done template rest => exact map_of_done (Template.read context) found
    rw [template, position_bind, loop_templateRound cursor.since_position (by simp)]
    exact ofScan_congr same

/-- The next path, or none where there is no content. -/
def pathScan : Scan (Option Template) := do
  Scan.spaces
  let path ← (Template.read .path : Scan Template)
  if path = [] then return none else return some path

theorem follows_nextPath : Follows nextPath pathScan :=
  follows_spaces.bind fun _ => (follows_template .path).bind fun _ =>
    .ite (fun _ => .pure none) (fun _ => .pure _)

theorem length_lt_of_pathScan {input : Bytes} {path : Template}
    (h : pathScan input = .done (some path) rest) : rest.length < input.length := by
  obtain ⟨_, start, hspaces, h⟩ := Scan.bind_eq_done_iff.1 h
  obtain ⟨found, left, hread, h⟩ := Written.bind_reader_eq_done_iff.1 h
  have skipped := Scan.forward_spaces.length_le_of_done hspaces
  split at h
  · cases h
  · next content =>
    cases h
    exact Nat.lt_of_lt_of_le (Template.length_lt_of_read hread content) skipped

/-- To read paths is to read the next one and then the others. -/
theorem readPaths_unroll (input : Bytes) :
    Template.readPaths input = Scan.nextAndOthers pathScan Template.readPaths input := by
  refine (congrFun Written.readPaths_eq input).trans (congrFun (Eq.symm ?_) input)
  refine (bind_assoc _ _ _).trans (congrArg (Scan.spaces >>= ·) (funext fun _ => ?_))
  refine (bind_assoc _ _ _).trans (congrArg (_ >>= ·) (funext fun path => ?_))
  by_cases empty : path = []
  · rw [if_pos empty, if_pos empty]
    rfl
  · rw [if_neg empty, if_neg empty]
    rfl

theorem follows_paths : Follows paths Template.readPaths :=
  follows_collect follows_nextPath (fun _ _ _ h => length_lt_of_pathScan h)
    Template.forward_readPaths readPaths_unroll

end BuildFile.Reading
