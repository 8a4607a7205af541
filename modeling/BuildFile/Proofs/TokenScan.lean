import BuildFile.Proofs.TemplateMoves
import BuildFile.Proofs.Viability
import Mathlib.Data.List.SplitBy

/-! # Reading a template token by token

A template is read in runs of text that are cut out of the file by their offsets. It could be read
with less care: one token after another, up to a byte that ends it or a `$` that starts no token,
and then put together, neighbouring raw bytes first. Both ways give the same, wherever reading
starts, and where it fails they fail at the same byte.
-/

namespace BuildFile.Written

open Template (Context needsEscape ofText)

/-- What comes behind a `$`: the rest of a token, or a first byte that fits none. -/
inductive Behind where
  | fits (token : Token) (rest : Bytes)
  | misfit (expected : Expected) (rest : Bytes)
  deriving Repr, DecidableEq

namespace Behind

/-- A name and the brace that closes it. -/
def braced (input : Bytes) : Behind :=
  match input.takeWhile Byte.isIdentifier, input.dropWhile Byte.isIdentifier with
  | [], _ => .misfit .identifier input
  | _ :: _, [] => .misfit .variableReference []
  | b :: name, c :: rest =>
      if c = Byte.closeBrace then .fits (.braced (b :: name)) rest
      else .misfit .variableReference (c :: rest)

/-- A name that goes on for as long as it can. -/
def bare (input : Bytes) : Behind :=
  match input.takeWhile Byte.isIdentifier with
  | [] => .misfit .identifier input
  | b :: name => .fits (.bare (b :: name)) (input.dropWhile Byte.isIdentifier)

def of : Bytes → Behind
  | [] => .misfit .variableReference []
  | b :: rest =>
      if b = Byte.newline then
        .fits (.fold (rest.takeWhile Byte.isSpace).length) (rest.dropWhile Byte.isSpace)
      else if needsEscape b then .fits (.escape b) rest
      else if b = Byte.openBrace then braced rest
      else bare (b :: rest)

/-- What reading an escape makes of it. -/
def result : Behind → Scan.Result Template
  | .fits token rest => .done token.parts rest
  | .misfit expected rest => .failed expected rest

theorem isName_of_takeWhile {input name : Bytes} {b : UInt8}
    (h : input.takeWhile Byte.isIdentifier = b :: name) : IsName (b :: name) :=
  ⟨by simp, fun _ member => List.mem_takeWhile_imp (h ▸ member)⟩

theorem identifier_of_takeWhile {input name : Bytes} {b : UInt8}
    (h : input.takeWhile Byte.isIdentifier = b :: name) :
    Scan.identifier input = .done (b :: name) (input.dropWhile Byte.isIdentifier) := by
  simp [Scan.identifier, h]

theorem identifier_of_takeWhile_nil {input : Bytes} (h : input.takeWhile Byte.isIdentifier = []) :
    Scan.identifier input = .failed .identifier input := by
  simp [Scan.identifier, h]

theorem readBraced_eq (input : Bytes) : Template.readBraced input = (braced input).result := by
  rw [braced]
  split
  · next hname => exact Scan.bind_of_failed (identifier_of_takeWhile_nil hname) _
  · next hname hrest =>
    have found := identifier_of_takeWhile hname
    rw [hrest] at found
    exact Scan.bind_of_done found _
  · next c rest hname hrest =>
    have found := identifier_of_takeWhile hname
    rw [hrest] at found
    refine (Scan.bind_of_done found _).trans ?_
    split
    · next close =>
      subst close
      have closed : Scan.byte Byte.closeBrace .variableReference (Byte.closeBrace :: rest) =
          .done () rest :=
        byte_eq_done_iff.2 rfl
      exact Scan.bind_of_done closed _
    · next other =>
      refine Scan.bind_of_failed (byte_eq_failed_iff.2 ⟨rfl, rfl, ?_⟩) _
      simpa using other

theorem readBare_eq (input : Bytes) : Template.readBare input = (bare input).result := by
  rw [bare]
  split
  · next hname => exact Scan.bind_of_failed (identifier_of_takeWhile_nil hname) _
  · next hname => exact Scan.bind_of_done (identifier_of_takeWhile hname) _

theorem readEscape_eq (input : Bytes) : Template.readEscape input = (of input).result := by
  cases input with
  | nil => rfl
  | cons b rest =>
      rw [Template.readEscape, of]
      split
      · rfl
      split
      · rfl
      split
      · exact readBraced_eq rest
      · exact readBare_eq (b :: rest)

theorem length_le_of_fits {input rest : Bytes} {token : Token}
    (h : of input = .fits token rest) : rest.length ≤ input.length := by
  have read := readEscape_eq input
  rw [h] at read
  exact Template.forward_readEscape.length_le_of_done read

/-- What fits is a token that takes in as much as it can. -/
theorem spells_of_fits {input rest : Bytes} {token : Token} (h : of input = .fits token rest)
    (context : Context) :
    Byte.dollar :: input = token.text ++ rest ∧ token.IsValid context ∧
      token.EndsBefore rest.head? := by
  cases input with
  | nil => cases h
  | cons b tail =>
      rw [of] at h
      split at h
      · next newline =>
        cases h
        have same := eq_spaces fun _ => List.mem_takeWhile_imp (p := Byte.isSpace) (l := tail)
        refine ⟨?_, trivial, stops_dropWhile _ _⟩
        rw [Token.text, newline, ← same, List.cons_append, List.cons_append,
          List.takeWhile_append_dropWhile]
      split at h
      · next special =>
        cases h
        exact ⟨rfl, special, trivial⟩
      split at h
      · next brace =>
        have whole := List.takeWhile_append_dropWhile (p := Byte.isIdentifier) (l := tail)
        rw [braced] at h
        split at h
        · cases h
        · cases h
        · next hname hrest =>
          split at h
          · next close =>
            cases h
            rw [hname, hrest, close] at whole
            exact ⟨by simp [Token.text, brace, ← whole], isName_of_takeWhile hname, trivial⟩
          · cases h
      · have whole := List.takeWhile_append_dropWhile (p := Byte.isIdentifier) (l := b :: tail)
        rw [bare] at h
        split at h
        · cases h
        · next hname =>
          cases h
          rw [hname] at whole
          exact ⟨congrArg (Byte.dollar :: ·) whole.symm, isName_of_takeWhile hname,
            stops_dropWhile _ _⟩

section Equations

variable {b : UInt8} {name rest : Bytes}

theorem of_identifier (inside : Byte.isIdentifier b = true) (tail : Bytes) :
    of (b :: tail) = .fits (.bare ((b :: tail).takeWhile Byte.isIdentifier))
      ((b :: tail).dropWhile Byte.isIdentifier) := by
  obtain ⟨newline, special, brace⟩ := not_special_of_isIdentifier inside
  rw [of, if_neg newline, if_neg (by simp [special]), if_neg brace, bare,
    List.takeWhile_cons_of_pos inside]

theorem of_openBrace (rest : Bytes) : of (Byte.openBrace :: rest) = braced rest := by
  rw [of, if_neg (by decide), if_neg (by decide), if_pos rfl]

theorem of_braced (valid : IsName name) (rest : Bytes) :
    of (Byte.openBrace :: (name ++ Byte.closeBrace :: rest)) = .fits (.braced name) rest := by
  have closes : Stops Byte.isIdentifier (Byte.closeBrace :: rest).head? := stops_some.2 rfl
  rw [of_openBrace, braced, takeWhile_append_of_stops valid.2 closes,
    dropWhile_append_of_stops valid.2 closes]
  cases name with
  | nil => exact absurd rfl valid.1
  | cons => exact if_pos rfl

theorem of_other (newline : b ≠ Byte.newline) (special : ¬ needsEscape b = true)
    (brace : b ≠ Byte.openBrace) (outside : Byte.isIdentifier b = false) (tail : Bytes) :
    of (b :: tail) = .misfit .identifier (b :: tail) := by
  have none : ¬ Byte.isIdentifier b = true := by simp [outside]
  rw [of, if_neg newline, if_neg special, if_neg brace, bare, List.takeWhile_cons_of_neg none]

theorem of_openBrace_of_stops (stops : Stops Byte.isIdentifier rest.head?) :
    of (Byte.openBrace :: rest) = .misfit .identifier rest := by
  have none : ([] ++ rest).takeWhile Byte.isIdentifier = [] :=
    takeWhile_append_of_stops (by simp) stops
  rw [List.nil_append] at none
  rw [of_openBrace, braced, none]

theorem of_unclosed (valid : IsName name) (stops : Stops Byte.isIdentifier rest.head?)
    (unclosed : rest.head? ≠ some Byte.closeBrace) :
    of (Byte.openBrace :: (name ++ rest)) = .misfit .variableReference rest := by
  rw [of_openBrace, braced, takeWhile_append_of_stops valid.2 stops,
    dropWhile_append_of_stops valid.2 stops]
  cases name with
  | nil => exact absurd rfl valid.1
  | cons b name =>
      cases rest with
      | nil => rfl
      | cons c rest =>
          have other : c ≠ Byte.closeBrace := fun same => unclosed (congrArg some same)
          exact if_neg other

end Equations

/-- Where some token starts there is also one that takes in as much as it can. -/
theorem fits_of_prefix {context : Context} {token : Token} {input : Bytes}
    (valid : token.IsValid context) (start : token.text <+: Byte.dollar :: input) :
    ∃ whole rest, of input = .fits whole rest := by
  obtain ⟨tail, same⟩ := start
  cases token with
  | raw b =>
      obtain rfl : b = Byte.dollar := (List.cons.inj same).1
      exact absurd valid (by simp [Token.IsValid, isPlain_dollar])
  | escape b =>
      obtain rfl : b :: tail = input := (List.cons.inj same).2
      have special : needsEscape b = true := valid
      have newline : b ≠ Byte.newline := by
        rintro rfl
        cases special
      exact ⟨.escape b, tail, by rw [of, if_neg newline, if_pos special]⟩
  | braced name =>
      obtain rfl : Byte.openBrace :: (name ++ [Byte.closeBrace] ++ tail) = input :=
        (List.cons.inj same).2
      rw [List.append_assoc]
      exact ⟨_, _, of_braced valid tail⟩
  | bare name =>
      obtain rfl : name ++ tail = input := (List.cons.inj same).2
      cases name with
      | nil => exact absurd rfl valid.1
      | cons b name => exact ⟨_, _, of_identifier (valid.2 b (by simp)) (name ++ tail)⟩
  | fold indent =>
      obtain rfl : Byte.newline :: (spaces indent ++ tail) = input := (List.cons.inj same).2
      exact ⟨_, _, by rw [of, if_pos rfl]⟩

end Behind

/-- What is missing between the part of a text that still fits a token and the next byte. -/
inductive Missing : Bytes → Bytes → Expected → Prop where
  | everything : Missing [Byte.dollar] [] .variableReference
  | name (b : UInt8) (rest : Bytes) : Missing [Byte.dollar] (b :: rest) .identifier
  | bracedName (rest : Bytes) : Missing [Byte.dollar, Byte.openBrace] rest .identifier
  | brace {name : Name} (valid : IsName name) (rest : Bytes) :
      Missing (Byte.dollar :: Byte.openBrace :: name) rest .variableReference

/-- A text that starts with no token: `front` is how some token starts, and none goes on from there
    with the first byte of `rest`. -/
structure Misfit (context : Context) (front rest : Bytes) (expected : Expected) : Prop where
  starts_none : ∀ token : Token, token.IsValid context → ¬ token.text <+: front ++ rest
  fits : ∃ token : Token, token.IsValid context ∧ front <+: token.text
  next_fits_none : ∀ b ∈ rest.head?, ∀ token : Token, token.IsValid context →
    ¬ front ++ [b] <+: token.text
  missing : Missing front rest expected

theorem Missing.expected_unique {front rest : Bytes} {first second : Expected}
    (h : Missing front rest first) (other : Missing front rest second) : first = second := by
  cases h with
  | everything => cases other; rfl
  | name => cases other; rfl
  | bracedName =>
      cases other with
      | bracedName => rfl
      | brace valid => exact absurd rfl valid.1
  | brace valid =>
      cases other with
      | bracedName => exact absurd rfl valid.1
      | brace => rfl

namespace Misfit

variable {context : Context} {front rest : Bytes} {expected : Expected}

/-- What fits the start of a token goes no further in one text than in another one. -/
theorem not_longer {more tail : Bytes} {other : Expected} (h : Misfit context front rest expected)
    (longer : Misfit context (front ++ more) tail other) (same : rest = more ++ tail) :
    more = [] := by
  cases more with
  | nil => rfl
  | cons b more =>
      obtain ⟨token, valid, starts⟩ := longer.fits
      subst same
      refine absurd ?_ (h.next_fits_none b rfl token valid)
      exact List.IsPrefix.trans ⟨more, by simp⟩ starts

/-- There is only one byte that is the first to fit no token. -/
theorem unique {front' rest' : Bytes} {expected' : Expected}
    (h : Misfit context front rest expected) (other : Misfit context front' rest' expected')
    (same : front ++ rest = front' ++ rest') :
    rest = rest' ∧ expected = expected' := by
  -- Both fronts start the same text, so one of them goes on where the other one ends.
  obtain ⟨more, rfl, split⟩ | ⟨more, rfl, split⟩ := List.append_eq_append_iff.1 same
  · obtain rfl := h.not_longer other split
    obtain rfl : rest = rest' := split
    rw [List.append_nil] at other
    exact ⟨rfl, h.missing.expected_unique other.missing⟩
  · obtain rfl := other.not_longer h split
    obtain rfl : rest' = rest := split
    rw [List.append_nil] at h
    exact ⟨rfl, h.missing.expected_unique other.missing⟩

/-- No token starts where the scan is stuck, whatever follows the next byte. -/
theorem of_stuck (missing : Missing (Byte.dollar :: front) rest expected)
    (fits : ∃ token : Token, token.IsValid context ∧ Byte.dollar :: front <+: token.text)
    (stuck : ∀ other : Bytes, other.head? = rest.head? →
      Behind.of (front ++ other) = .misfit expected other) :
    Misfit context (Byte.dollar :: front) rest expected where
  starts_none token valid start := by
    obtain ⟨whole, left, found⟩ := Behind.fits_of_prefix valid start
    cases (stuck rest rfl).symm.trans found
  fits := fits
  next_fits_none b next token valid further := by
    obtain ⟨more, same⟩ := further
    have start : token.text <+: Byte.dollar :: (front ++ b :: more) := ⟨[], by simp [← same]⟩
    obtain ⟨whole, left, found⟩ := Behind.fits_of_prefix valid start
    cases (stuck (b :: more) next.symm).symm.trans found
  missing := missing

theorem of_missing_everything : Misfit context [Byte.dollar] [] .variableReference :=
  of_stuck .everything ⟨.escape Byte.dollar, rfl, [Byte.dollar], rfl⟩ fun other ended => by
    obtain rfl := List.head?_eq_none_iff.1 ended
    rfl

theorem of_missing_name {b : UInt8} (newline : b ≠ Byte.newline) (special : ¬ needsEscape b = true)
    (brace : b ≠ Byte.openBrace) (outside : Byte.isIdentifier b = false) (tail : Bytes) :
    Misfit context [Byte.dollar] (b :: tail) .identifier :=
  of_stuck (.name b tail) ⟨.escape Byte.dollar, rfl, [Byte.dollar], rfl⟩ fun other starts => by
    obtain ⟨tail, rfl⟩ := List.head?_eq_some_iff.1 starts
    exact Behind.of_other newline special brace outside tail

theorem of_missing_bracedName (stops : Stops Byte.isIdentifier rest.head?) :
    Misfit context [Byte.dollar, Byte.openBrace] rest .identifier :=
  of_stuck (.bracedName rest)
    ⟨.braced placeholder, isName_placeholder, placeholder ++ [Byte.closeBrace], rfl⟩
    fun _ starts => Behind.of_openBrace_of_stops (starts ▸ stops)

theorem of_missing_brace {name : Name} (valid : IsName name)
    (stops : Stops Byte.isIdentifier rest.head?) (unclosed : rest.head? ≠ some Byte.closeBrace) :
    Misfit context (Byte.dollar :: Byte.openBrace :: name) rest .variableReference :=
  of_stuck (.brace valid rest) ⟨.braced name, valid, [Byte.closeBrace], rfl⟩
    fun _ starts => Behind.of_unclosed valid (starts ▸ stops) (starts ▸ unclosed)

end Misfit

theorem Behind.misfit_of {input rest : Bytes} {expected : Expected}
    (h : of input = .misfit expected rest) (context : Context) :
    ∃ front, Byte.dollar :: input = front ++ rest ∧ Misfit context front rest expected := by
  cases input with
  | nil =>
      cases h
      exact ⟨_, rfl, .of_missing_everything⟩
  | cons b tail =>
      rw [of] at h
      split at h
      · cases h
      next newline =>
      split at h
      · cases h
      next special =>
      split at h
      · next brace =>
        subst brace
        have whole := List.takeWhile_append_dropWhile (p := Byte.isIdentifier) (l := tail)
        have stops := stops_dropWhile Byte.isIdentifier tail
        rw [braced] at h
        split at h
        · next hname =>
          cases h
          rw [hname, List.nil_append] at whole
          rw [whole] at stops
          exact ⟨_, rfl, .of_missing_bracedName stops⟩
        · next c name hname hrest =>
          cases h
          rw [hname, hrest] at whole
          refine ⟨_, ?_, .of_missing_brace (isName_of_takeWhile hname) (stops_none _) (by simp)⟩
          rw [← whole]
          rfl
        · next c name d left hname hrest =>
          split at h
          · cases h
          · next other =>
            cases h
            rw [hname, hrest] at whole
            rw [hrest] at stops
            refine ⟨_, ?_, .of_missing_brace (isName_of_takeWhile hname) stops ?_⟩
            · rw [← whole]
              rfl
            · exact fun same => other (Option.some.inj same)
      · next brace =>
        rw [bare] at h
        split at h
        · next hname =>
          cases h
          have outside : Byte.isIdentifier b = false := by
            by_contra inside
            rw [List.takeWhile_cons_of_pos (by simpa using inside)] at hname
            cases hname
          exact ⟨_, rfl, .of_missing_name newline special brace outside tail⟩
        · cases h

/-- A `$` that starts no token is one that cannot be read. -/
theorem Misfit.readEscape {context : Context} {front behind rest : Bytes} {expected : Expected}
    (h : Misfit context front rest expected) (same : Byte.dollar :: behind = front ++ rest) :
    Template.readEscape behind = .failed expected rest := by
  rw [Behind.readEscape_eq]
  cases found : Behind.of behind with
  | fits token left =>
      obtain ⟨split, valid, -⟩ := Behind.spells_of_fits found context
      exact absurd ⟨left, split.symm.trans same⟩ (h.starts_none token valid)
  | misfit wants left =>
      obtain ⟨front', split, other⟩ := Behind.misfit_of found context
      obtain ⟨rfl, rfl⟩ := h.unique other (same.symm.trans split)
      rfl

theorem Missing.starts {front rest : Bytes} {expected : Expected}
    (h : Missing front rest expected) : ∃ behind, front = Byte.dollar :: behind := by
  cases h <;> exact ⟨_, rfl⟩

namespace Spelling

/-- Neighbours of which both are raw stay together, and all others are on their own. -/
def runs (spelling : Spelling) : List Spelling :=
  spelling.splitBy fun first second => first.isRaw && second.isRaw

/-- A run of raw bytes is one literal. -/
def runParts (run : Spelling) : Template :=
  if run.all Token.isRaw then [.literal run.text] else run.flatMap Token.parts

theorem runs_raw {bytes : Bytes} (nonempty : bytes ≠ []) :
    runs (bytes.map .raw) = [bytes.map .raw] := by
  refine List.splitBy_of_isChain (by simpa using nonempty) ?_
  refine List.Pairwise.isChain (List.pairwise_map.2 ?_)
  exact List.pairwise_of_forall fun _ _ => rfl

theorem runs_append_escape {token : Token} (escapes : token.isRaw = false)
    (before rest : Spelling) :
    runs (before ++ token :: rest) = before.runs ++ [token] :: rest.runs := by
  have behind : runs ([token] ++ rest) = runs [token] ++ runs rest :=
    List.splitBy_append (by simp [escapes])
  rw [runs, List.splitBy_append_cons _ (by simp [escapes])]
  exact congrArg (before.runs ++ ·) behind

theorem flatMap_runs_raw (bytes : Bytes) :
    (runs (bytes.map .raw)).flatMap runParts = ofText bytes := by
  cases bytes with
  | nil => rfl
  | cons b bytes =>
      have raw : ((b :: bytes).map Token.raw).all Token.isRaw = true := by simp [Token.isRaw]
      rw [runs_raw (List.cons_ne_nil b bytes), List.flatMap_singleton, runParts, if_pos raw,
        text_raw]
      rfl

theorem collect_eq_flatMap_runs (run : Bytes) (spelling : Spelling) :
    collect run spelling = (runs (run.map .raw ++ spelling)).flatMap runParts := by
  induction spelling generalizing run with
  | nil => rw [List.append_nil, flatMap_runs_raw, collect]
  | cons token rest ih =>
      cases escapes : token.isRaw with
      | true =>
          cases token with
          | raw b => simpa [collect] using ih (run ++ [b])
          | escape | braced | bare | fold => cases escapes
      | false =>
          have alone : runParts [token] = token.parts := by simp [runParts, escapes]
          rw [collect_escape escapes, ih [], runs_append_escape escapes, List.flatMap_append,
            List.flatMap_cons, flatMap_runs_raw, alone, List.append_assoc, List.map_nil,
            List.nil_append]

theorem template_eq_flatMap_runs (spelling : Spelling) :
    spelling.template = spelling.runs.flatMap runParts :=
  collect_eq_flatMap_runs [] spelling

end Spelling

/-- Where a decomposition into tokens stops. -/
inductive Stop where
  /-- At a byte that ends the template, or at the end of the input. -/
  | ended (rest : Bytes)
  /-- At a `$`, with which `start` starts. -/
  | misfit (start : Bytes) (expected : Expected) (rest : Bytes)
  deriving Repr, DecidableEq

namespace Stop

/-- What is not in any token. -/
def unread : Stop → Bytes
  | .ended rest => rest
  | .misfit start _ _ => start

def IsValid (context : Context) : Stop → Prop
  | .ended rest => ∀ b ∈ rest.head?, context.ends b = true
  | .misfit start expected rest =>
      ∃ front, start = front ++ rest ∧ Misfit context front rest expected

end Stop

/-- A text taken apart into tokens. -/
structure Decomposition where
  tokens : Spelling
  stop : Stop
  deriving Repr, DecidableEq

namespace Decomposition

/-- The tokens are taken from the front of the input, each takes in as much as it can, and there is
    a reason to stop where they end. -/
structure IsOf (found : Decomposition) (context : Context) (input : Bytes) : Prop where
  text_eq : input = found.tokens.text ++ found.stop.unread
  tokens_valid : found.tokens.WellFormed context found.stop.unread.head?
  stop_valid : found.stop.IsValid context

/-- What a template is that is decomposed in this way: each run of raw bytes is one literal. A
    value has to end at a newline. -/
def result (found : Decomposition) (context : Context) : Scan.Result Template :=
  match found.stop with
  | .misfit _ expected rest => .failed expected rest
  | .ended rest =>
      if context = .value ∧ rest = [] then .failed .value []
      else .done (found.tokens.runs.flatMap Spelling.runParts) rest

theorem result_ended (tokens : Spelling) (rest : Bytes) (context : Context) :
    result ⟨tokens, .ended rest⟩ context =
      if context = .value ∧ rest = [] then .failed .value []
      else .done (tokens.runs.flatMap Spelling.runParts) rest :=
  rfl

def push (token : Token) (found : Decomposition) : Decomposition :=
  { found with tokens := token :: found.tokens }

/-- Take one token after another. -/
def of (context : Context) : Bytes → Decomposition
  | [] => ⟨[], .ended []⟩
  | b :: rest =>
      if context.ends b then ⟨[], .ended (b :: rest)⟩
      else if b = Byte.dollar then
        match _hbehind : Behind.of rest with
        | .misfit expected left => ⟨[], .misfit (b :: rest) expected left⟩
        | .fits token left => (of context left).push token
      else (of context rest).push (.raw b)
termination_by input => input.length
decreasing_by
  · exact Nat.lt_succ_of_le (Behind.length_le_of_fits _hbehind)
  · exact Nat.lt_succ_self _

theorem isOf_of (context : Context) (input : Bytes) : (of context input).IsOf context input := by
  fun_induction of context input with
  | case1 => exact ⟨rfl, trivial, nofun⟩
  | case2 b rest ends => exact ⟨rfl, trivial, fun c same => by cases same; exact ends⟩
  | case3 rest expected left behind =>
      obtain ⟨front, same, stuck⟩ := Behind.misfit_of behind context
      exact ⟨rfl, trivial, front, same, stuck⟩
  | case4 rest token left behind _ ih =>
      obtain ⟨same, valid, ends⟩ := Behind.spells_of_fits behind context
      refine ⟨?_, ⟨valid, ?_, ih.tokens_valid⟩, ih.stop_valid⟩
      · rw [same, push, Spelling.text_cons, List.append_assoc]
        exact congrArg (token.text ++ ·) ih.text_eq
      · rw [← List.head?_append]
        exact ih.text_eq ▸ ends
  | case5 b rest inside other ih =>
      have plain : context.isPlain b = true := by simp [Context.isPlain, inside, other]
      refine ⟨?_, ⟨plain, trivial, ih.tokens_valid⟩, ih.stop_valid⟩
      exact congrArg (b :: ·) ih.text_eq

/-- Where reading fails behind any run of raw bytes, it fails behind every well-formed spelling. -/
theorem read_text_of_failed {context : Context} {spelling : Spelling} {run rest left : Bytes}
    {expected : Expected} (plain : ∀ b ∈ run, context.isPlain b = true)
    (valid : spelling.WellFormed context rest.head?)
    (stuck : ∀ run : Bytes, (∀ b ∈ run, context.isPlain b = true) →
      Template.read context (run ++ rest) = .failed expected left) :
    Template.read context (run ++ (spelling.text ++ rest)) = .failed expected left := by
  induction spelling generalizing run with
  | nil => exact stuck run plain
  | cons token more ih =>
      obtain ⟨first, before, others⟩ := valid
      cases escapes : token.isRaw with
      | true =>
          cases token with
          | raw b =>
              have longer : ∀ c ∈ run ++ [b], context.isPlain c = true :=
                List.forall_mem_append.2 ⟨plain, List.forall_mem_singleton.2 first⟩
              simpa [Token.text] using ih longer others
          | escape | braced | bare | fold => cases escapes
      | false =>
          rw [← List.head?_append] at before
          obtain ⟨behind, same, hescape⟩ := readEscape_of_token escapes first before
          have hmore : Template.read context ([] ++ (Spelling.text more ++ rest)) = _ :=
            ih (by simp) others
          rw [List.nil_append] at hmore
          rw [Spelling.text_cons, same, List.append_assoc, List.cons_append, read_dollar plain,
            Scan.bind_of_done hescape]
          exact Scan.bind_of_failed hmore _

/-- Reading gives what any decomposition says. -/
theorem IsOf.read_eq {context : Context} {found : Decomposition} {input : Bytes}
    (h : found.IsOf context input) : Template.read context input = found.result context := by
  obtain ⟨tokens, stop⟩ := found
  obtain ⟨rfl, valid, stops⟩ := h
  have none : ∀ b ∈ ([] : Bytes), context.isPlain b = true := by simp
  cases stop with
  | ended rest =>
      by_cases unended : context = .value ∧ rest = []
      · obtain ⟨rfl, rfl⟩ := unended
        rw [result_ended, if_pos ⟨rfl, rfl⟩]
        refine read_text_of_failed none valid fun run plain => ?_
        exact read_unended (by simpa [Stop.unread] using plain)
      · have ends : Ends context rest.head? := by
          cases rest with
          | nil => cases context <;> simp_all [Ends]
          | cons b rest => exact stops b rfl
        rw [result_ended, if_neg unended, ← Spelling.template_eq_flatMap_runs]
        exact read_text none valid ends
  | misfit start expected rest =>
      obtain ⟨front, rfl, misfit⟩ := stops
      obtain ⟨more, rfl⟩ := misfit.missing.starts
      refine read_text_of_failed none valid fun run plain => ?_
      refine (read_dollar plain (more ++ rest)).trans ?_
      exact Scan.bind_of_failed (misfit.readEscape rfl) _

end Decomposition

end BuildFile.Written

namespace BuildFile.Reading

open Written

/-- Reading by offsets gives, from every place of every text, what taking one token after another
    gives: the decomposition is one of the text that is left, and whichever one there is says what
    is read and where the cursor is left. -/
theorem template_eq_tokenwise (context : Template.Context) (cursor : Cursor) :
    (Decomposition.of context cursor.rest).IsOf context cursor.rest ∧
      ∀ found : Decomposition, found.IsOf context cursor.rest →
        Template.read context cursor.rest = found.result context ∧
          template context cursor = ofScan (fun _ => found.result context) cursor := by
  refine ⟨Decomposition.isOf_of context cursor.rest, fun found h => ⟨h.read_eq, ?_⟩⟩
  rw [(follows_template context).eq]
  exact ofScan_congr h.read_eq

/-- A value with every kind of token, behind the `=` of its line. -/
def foldedValue : Decomposition where
  tokens := [.raw Byte.space, .braced (ascii "a"), .fold 2, .raw Byte.pipe, .raw Byte.slash,
    .escape Byte.colon, .bare (ascii "b"), .raw Byte.slash]
  stop := .ended [Byte.newline]

theorem template_eq_tokenwise_folded :
    let cursor : Cursor := ⟨ascii "v =" ++ foldedValue.tokens.text ++ [Byte.newline], 3, by decide⟩
    foldedValue.IsOf .value cursor.rest ∧
      template .value cursor = .done [.literal (ascii " "), .reference (ascii "a"),
        .literal (ascii "|/"), .literal (ascii ":"), .reference (ascii "b"), .literal (ascii "/")]
          (cursor.moveTo [Byte.newline]) := by
  intro cursor
  have isOf : foldedValue.IsOf .value cursor.rest :=
    ⟨by decide, by decide, fun _ same => Option.some.inj same ▸ rfl⟩
  exact ⟨isOf, ((template_eq_tokenwise .value cursor).2 foldedValue isOf).2.trans (by decide)⟩

end BuildFile.Reading
