import BuildFile.Proofs.Written.Lexeme
import BuildFile.Template.Reader

/-! # How a template is written

A template is spelled by single bytes that stand for themselves and by escapes. The spelling
knows what the template does not: whether a reference has braces, and where a line goes on
behind a `$`. Reading succeeds on exactly the texts that have a spelling, up to a byte that
ends them, and yields the template that is spelled.
-/

namespace BuildFile.Written

open Template (Context needsEscape ofText)

inductive Token where
  | raw (b : UInt8)
  /-- A `$` and the byte that it makes literal. -/
  | escape (b : UInt8)
  | braced (name : Name)
  | bare (name : Name)
  /-- A `$` at the end of a line, and the spaces that start the next one. -/
  | fold (indent : Nat)
  deriving Repr, DecidableEq

namespace Token

def text : Token → Bytes
  | .raw b => [b]
  | .escape b => [Byte.dollar, b]
  | .braced name => Byte.dollar :: Byte.openBrace :: (name ++ [Byte.closeBrace])
  | .bare name => Byte.dollar :: name
  | .fold indent => Byte.dollar :: Byte.newline :: spaces indent

/-- What an escape contributes to a template. -/
def parts : Token → Template
  | .raw b | .escape b => [.literal [b]]
  | .braced name | .bare name => [.reference name]
  | .fold _ => []

def IsValid (context : Context) : Token → Prop
  | .raw b => context.isPlain b = true
  | .escape b => needsEscape b = true
  | .braced name | .bare name => IsName name
  | .fold _ => True

instance (context : Context) : DecidablePred (IsValid context)
  | .raw b => inferInstanceAs (Decidable (context.isPlain b = true))
  | .escape b => inferInstanceAs (Decidable (needsEscape b = true))
  | .braced name | .bare name => inferInstanceAs (Decidable (IsName name))
  | .fold _ => inferInstanceAs (Decidable True)

/-- A token takes in as much as it can: no name and no indentation goes on behind it. -/
def EndsBefore (next : Option UInt8) : Token → Prop
  | .bare _ => Stops Byte.isIdentifier next
  | .fold _ => Stops Byte.isSpace next
  | .raw _ | .escape _ | .braced _ => True

instance (next : Option UInt8) : DecidablePred (EndsBefore next)
  | .bare _ => inferInstanceAs (Decidable (Stops Byte.isIdentifier next))
  | .fold _ => inferInstanceAs (Decidable (Stops Byte.isSpace next))
  | .raw _ | .escape _ | .braced _ => inferInstanceAs (Decidable True)

def isRaw : Token → Bool
  | .raw _ => true
  | .escape _ | .braced _ | .bare _ | .fold _ => false

def isFold : Token → Bool
  | .fold _ => true
  | .raw _ | .escape _ | .braced _ | .bare _ => false

end Token

/-- The tokens that spell a template. -/
abbrev Spelling := List Token

namespace Spelling

def text (spelling : Spelling) : Bytes := spelling.flatMap Token.text

@[simp]
theorem text_nil : text [] = [] := rfl

@[simp]
theorem text_cons (token : Token) (rest : Spelling) :
    text (token :: rest) = token.text ++ text rest := rfl

@[simp]
theorem text_append (first second : Spelling) :
    text (first ++ second) = text first ++ text second :=
  List.flatMap_append

theorem text_ne_nil {spelling : Spelling} (h : spelling ≠ []) : spelling.text ≠ [] := by
  cases spelling with
  | nil => exact absurd rfl h
  | cons token rest => cases token <;> simp [Token.text]

/-- The template of a spelling, behind a run of raw bytes that is still open. -/
def collect (run : Bytes) : Spelling → Template
  | [] => ofText run
  | .raw b :: rest => collect (run ++ [b]) rest
  | token :: rest => ofText run ++ token.parts ++ collect [] rest

/-- The template that is spelled: every run of raw bytes is one literal. -/
def template (spelling : Spelling) : Template := collect [] spelling

/-- Every token stands where it may, and takes in as much as it can. -/
def WellFormed (context : Context) : Spelling → Option UInt8 → Prop
  | [], _ => True
  | token :: rest, next =>
      token.IsValid context ∧ token.EndsBefore ((text rest).head?.or next) ∧
        WellFormed context rest next

instance decidableWellFormed (context : Context) (next : Option UInt8) :
    DecidablePred fun spelling => WellFormed context spelling next
  | [] => inferInstanceAs (Decidable True)
  | token :: rest =>
      have := decidableWellFormed context next rest
      inferInstanceAs (Decidable (token.IsValid context ∧
        token.EndsBefore ((text rest).head?.or next) ∧ WellFormed context rest next))

/-- A spelling without content: nothing but line continuations. -/
def IsBlank (spelling : Spelling) : Prop := ∀ token ∈ spelling, token.isFold = true

instance (spelling : Spelling) : Decidable spelling.IsBlank :=
  inferInstanceAs (Decidable (∀ token ∈ spelling, token.isFold = true))

theorem ne_nil_of_not_isBlank {spelling : Spelling} (content : ¬ spelling.IsBlank) :
    spelling ≠ [] := by
  rintro rfl
  exact content (by simp [IsBlank])

theorem collect_escape {token : Token} (escapes : token.isRaw = false) (run : Bytes)
    (rest : Spelling) :
    collect run (token :: rest) = ofText run ++ token.parts ++ collect [] rest := by
  cases token with
  | raw b => cases escapes
  | escape | braced | bare | fold => rfl

theorem collect_raw (run bytes : Bytes) (rest : Spelling) :
    collect run (bytes.map .raw ++ rest) = collect (run ++ bytes) rest := by
  induction bytes generalizing run with
  | nil => simp
  | cons b bytes ih => simp [collect, ih]

@[simp]
theorem text_raw (bytes : Bytes) : text (bytes.map .raw) = bytes := by
  induction bytes with
  | nil => rfl
  | cons b bytes ih => simp [Token.text, ih]

theorem template_raw (bytes : Bytes) : template (bytes.map .raw) = ofText bytes := by
  have := collect_raw [] bytes []
  rwa [List.append_nil, List.nil_append] at this

theorem collect_eq_nil_iff {run : Bytes} {spelling : Spelling} :
    collect run spelling = [] ↔ run = [] ∧ spelling.IsBlank := by
  have ofText_nil (bytes : Bytes) : ofText bytes = [] ↔ bytes = [] := by
    cases bytes <;> simp [ofText]
  induction spelling generalizing run with
  | nil => simp [collect, IsBlank, ofText_nil]
  | cons token rest ih =>
      cases token with
      | raw b => simp [collect, ih, IsBlank, Token.isFold]
      | escape | braced | bare => simp [collect, IsBlank, Token.isFold, Token.parts]
      | fold =>
          have empty : collect [] rest = [] ↔ _ := ih
          simp_all [collect, IsBlank, Token.isFold, Token.parts]

theorem template_eq_nil_iff {spelling : Spelling} : spelling.template = [] ↔ spelling.IsBlank := by
  simp [template, collect_eq_nil_iff]

theorem WellFormed.append {context : Context} {first second : Spelling} {next : Option UInt8} :
    WellFormed context (first ++ second) next ↔
      WellFormed context first ((text second).head?.or next) ∧ WellFormed context second next := by
  induction first with
  | nil => simp [WellFormed]
  | cons token rest ih =>
      simp [WellFormed, ih, List.head?_append, Option.or_assoc, and_assoc]

theorem wellFormed_raw {context : Context} {bytes : Bytes} {next : Option UInt8}
    (plain : ∀ b ∈ bytes, context.isPlain b = true) : WellFormed context (bytes.map .raw) next := by
  induction bytes with
  | nil => trivial
  | cons b bytes ih =>
      simp only [List.mem_cons, forall_eq_or_imp] at plain
      exact ⟨plain.1, trivial, ih plain.2⟩

end Spelling

/-- A template may end before this byte, or at the end of the file. -/
def Ends (context : Context) : Option UInt8 → Prop
  | none => context = .path
  | some b => context.ends b = true

theorem needsEscape_iff {b : UInt8} :
    needsEscape b = true ↔ b = Byte.dollar ∨ b = Byte.space ∨ b = Byte.colon := by
  simp [needsEscape, or_assoc]

theorem readBraced_eq_done_iff {input rest : Bytes} {parts : Template} :
    Template.readBraced input = .done parts rest ↔
      ∃ name, input = name ++ Byte.closeBrace :: rest ∧ IsName name ∧
        parts = [.reference name] := by
  constructor
  · intro h
    obtain ⟨name, middle, hname, h⟩ := Scan.bind_eq_done_iff.1 h
    obtain ⟨_, after, hbrace, h⟩ := Scan.bind_eq_done_iff.1 h
    cases h
    obtain ⟨rfl, valid, -⟩ := identifier_eq_done_iff.1 hname
    obtain rfl := byte_eq_done_iff.1 hbrace
    exact ⟨name, rfl, valid, rfl⟩
  · intro h
    obtain ⟨name, rfl, valid, rfl⟩ := h
    have stops : Stops Byte.isIdentifier (Byte.closeBrace :: rest).head? := stops_some.2 rfl
    refine Scan.bind_eq_done_iff.2 ⟨name, _, identifier_eq_done_iff.2 ⟨rfl, valid, stops⟩, ?_⟩
    exact Scan.bind_eq_done_iff.2 ⟨(), rest, byte_eq_done_iff.2 rfl, rfl⟩

theorem readBare_eq_done_iff {input rest : Bytes} {parts : Template} :
    Template.readBare input = .done parts rest ↔
      ∃ name, input = name ++ rest ∧ IsName name ∧ Stops Byte.isIdentifier rest.head? ∧
        parts = [.reference name] := by
  constructor
  · intro h
    obtain ⟨name, middle, hname, h⟩ := Scan.bind_eq_done_iff.1 h
    cases h
    obtain ⟨rfl, valid, stops⟩ := identifier_eq_done_iff.1 hname
    exact ⟨name, rfl, valid, stops, rfl⟩
  · intro h
    obtain ⟨name, rfl, valid, stops, rfl⟩ := h
    exact Scan.bind_eq_done_iff.2 ⟨name, rest, identifier_eq_done_iff.2 ⟨rfl, valid, stops⟩, rfl⟩

/-- A byte of a name cannot be taken for one of the other things behind a `$`. -/
theorem not_special_of_isIdentifier {b : UInt8} (h : Byte.isIdentifier b = true) :
    b ≠ Byte.newline ∧ needsEscape b = false ∧ b ≠ Byte.openBrace := by
  refine ⟨?_, ?_, ?_⟩
  · rintro rfl
    exact absurd h (by decide)
  · rw [Bool.eq_false_iff, Ne, needsEscape_iff]
    rintro (rfl | rfl | rfl) <;> exact absurd h (by decide)
  · rintro rfl
    exact absurd h (by decide)

theorem readEscape_bare {name rest : Bytes} (valid : IsName name) :
    Template.readEscape (name ++ rest) = Template.readBare (name ++ rest) := by
  cases name with
  | nil => exact absurd rfl valid.1
  | cons b tail =>
      obtain ⟨newline, literal, brace⟩ := not_special_of_isIdentifier (valid.2 b (by simp))
      simp [Template.readEscape, newline, literal, brace]

theorem readEscape_of_token {context : Context} {token : Token} {rest : Bytes}
    (escapes : token.isRaw = false) (valid : token.IsValid context)
    (ends : token.EndsBefore rest.head?) :
    ∃ behind, token.text = Byte.dollar :: behind ∧
      Template.readEscape (behind ++ rest) = .done token.parts rest := by
  cases token with
  | raw b => cases escapes
  | escape b =>
      have newline : b ≠ Byte.newline := by
        rintro rfl
        cases valid
      have literal : needsEscape b = true := valid
      exact ⟨[b], rfl, by simp [Template.readEscape, newline, literal, Token.parts]⟩
  | braced name =>
      refine ⟨Byte.openBrace :: (name ++ [Byte.closeBrace]), rfl, ?_⟩
      have hread : Template.readBraced (name ++ Byte.closeBrace :: rest) =
          .done [.reference name] rest :=
        readBraced_eq_done_iff.2 ⟨name, rfl, valid, rfl⟩
      rw [List.cons_append, List.append_assoc, Template.readEscape, if_neg (by decide),
        if_neg (by decide), if_pos rfl]
      exact hread
  | bare name =>
      refine ⟨name, rfl, ?_⟩
      rw [readEscape_bare valid]
      exact readBare_eq_done_iff.2 ⟨name, rfl, valid, ends, rfl⟩
  | fold indent =>
      refine ⟨Byte.newline :: spaces indent, rfl, ?_⟩
      simp [Template.readEscape, dropWhile_spaces indent ends, Token.parts]

theorem token_of_readEscape (context : Context) {input rest : Bytes} {parts : Template}
    (h : Template.readEscape input = .done parts rest) :
    ∃ token : Token, token.isRaw = false ∧ Byte.dollar :: input = token.text ++ rest ∧
      token.IsValid context ∧ token.EndsBefore rest.head? ∧ token.parts = parts := by
  cases input with
  | nil => cases h
  | cons b tail =>
      simp only [Template.readEscape] at h
      split at h
      · next newline =>
        cases h
        obtain ⟨n, same⟩ := exists_spaces tail
        refine ⟨.fold n, rfl, ?_, trivial, stops_dropWhile _ _, rfl⟩
        rw [Token.text, newline, List.cons_append, List.cons_append, ← same]
      · split at h
        · next literal =>
          cases h
          exact ⟨.escape b, rfl, rfl, literal, trivial, rfl⟩
        · split at h
          · next brace =>
            obtain ⟨name, rfl, valid, rfl⟩ := readBraced_eq_done_iff.1 h
            exact ⟨.braced name, rfl, by simp [Token.text, brace], valid, trivial, rfl⟩
          · obtain ⟨name, same, valid, stops, rfl⟩ := readBare_eq_done_iff.1 h
            exact ⟨.bare name, rfl, by simp [Token.text, same], valid, stops, rfl⟩

section Reading

variable {context : Context}

theorem isPlain_dollar : context.isPlain Byte.dollar = false := by
  cases context <;> rfl

theorem isPlain_of_ends {b : UInt8} (h : context.ends b = true) : context.isPlain b = false := by
  simp [Context.isPlain, h]

theorem ne_dollar_of_ends {b : UInt8} (h : context.ends b = true) : b ≠ Byte.dollar := by
  rintro rfl
  cases context <;> exact absurd h (by decide)

theorem stops_isPlain_of_ends {next : Option UInt8} (h : Ends context next) :
    Stops context.isPlain next := by
  cases next with
  | none => simp
  | some b => simpa using isPlain_of_ends h

theorem read_run {run rest : Bytes} (plain : ∀ b ∈ run, context.isPlain b = true)
    (ends : Ends context rest.head?) :
    Template.read context (run ++ rest) = .done (ofText run) rest := by
  have stops := stops_isPlain_of_ends ends
  rw [Template.read]
  simp only [takeWhile_append_of_stops plain stops]
  split
  · next hrest =>
    rw [dropWhile_append_of_stops plain stops] at hrest
    subst hrest
    have path : context = .path := ends
    simp [path]
  · next b tail hrest =>
    rw [dropWhile_append_of_stops plain stops] at hrest
    subst hrest
    have dollar : b ≠ Byte.dollar := ne_dollar_of_ends ends
    simp only [dollar, if_false]

/-- A value has to end before the file does. -/
theorem read_unended {run : Bytes} (plain : ∀ b ∈ run, Context.value.isPlain b = true) :
    Template.read .value run = .failed .value [] := by
  have ended : run.dropWhile Context.value.isPlain = [] := List.dropWhile_eq_nil_iff.2 plain
  rw [Template.read]
  split
  · rfl
  · next hrest =>
    rw [ended] at hrest
    cases hrest

theorem read_dollar {run : Bytes} (plain : ∀ b ∈ run, context.isPlain b = true) (behind : Bytes) :
    Template.read context (run ++ Byte.dollar :: behind) =
      (do
        let parts ← Template.readEscape
        let more ← (Template.read context : Scan Template)
        return ofText run ++ parts ++ more) behind := by
  have stops : Stops context.isPlain (Byte.dollar :: behind).head? := by simp [isPlain_dollar]
  rw [Template.read]
  simp only [takeWhile_append_of_stops plain stops]
  split
  · next hrest =>
    rw [dropWhile_append_of_stops plain stops] at hrest
    cases hrest
  · next b tail hrest =>
    rw [dropWhile_append_of_stops plain stops] at hrest
    cases hrest
    rw [if_pos rfl]
    split
    · next hescape => rw [Scan.bind_of_failed hescape]
    · next parts middle hescape =>
      rw [Scan.bind_of_done hescape]
      let join (more : Template) : Scan Template := return ofText run ++ parts ++ more
      cases hmore : Template.read context middle with
      | done more left => exact (Scan.bind_of_done hmore join).symm
      | failed expected left => exact (Scan.bind_of_failed hmore join).symm

theorem read_text {run rest : Bytes} {spelling : Spelling}
    (plain : ∀ b ∈ run, context.isPlain b = true)
    (valid : spelling.WellFormed context rest.head?) (ends : Ends context rest.head?) :
    Template.read context (run ++ (spelling.text ++ rest)) = .done (spelling.collect run) rest := by
  induction spelling generalizing run with
  | nil => exact read_run plain ends
  | cons token more ih =>
      obtain ⟨first, before, others⟩ := valid
      -- A raw byte only extends the run, so that it ends up in one literal with its neighbours.
      cases escapes : token.isRaw with
      | true =>
          cases token with
          | raw b =>
              have open' : ∀ c ∈ run ++ [b], context.isPlain c = true := by
                simp only [List.mem_append, List.mem_singleton]
                rintro c (member | rfl)
                · exact plain c member
                · exact first
              simpa [Token.text, Spelling.collect] using ih open' others
          | escape | braced | bare | fold => cases escapes
      | false =>
          rw [← List.head?_append] at before
          obtain ⟨behind, same, hescape⟩ := readEscape_of_token escapes first before
          have hmore : Template.read context ([] ++ (Spelling.text more ++ rest)) = _ :=
            ih (by simp) others
          rw [List.nil_append] at hmore
          rw [Spelling.text_cons, same, List.append_assoc, List.cons_append, read_dollar plain,
            Scan.bind_of_done hescape, Spelling.collect_escape escapes]
          exact Scan.bind_of_done hmore _

theorem eq_run_append {input rest : Bytes} (h : input.dropWhile context.isPlain = rest) :
    input = Spelling.text ((input.takeWhile context.isPlain).map .raw) ++ rest := by
  rw [Spelling.text_raw, ← h, List.takeWhile_append_dropWhile]

theorem wellFormed_run (input : Bytes) (next : Option UInt8) :
    Spelling.WellFormed context ((input.takeWhile context.isPlain).map .raw) next :=
  Spelling.wellFormed_raw fun _ => List.mem_takeWhile_imp

theorem spelling_of_read (input : Bytes) :
    ∀ {template rest}, Template.read context input = .done template rest →
      ∃ spelling : Spelling, input = spelling.text ++ rest ∧
        spelling.WellFormed context rest.head? ∧ Ends context rest.head? ∧
        spelling.template = template := by
  fun_induction Template.read context input with
  | case1 | case3 | case4 => simp
  | case2 input text hrest =>
      rename_i path
      intro _ _ h
      cases h
      refine ⟨_, eq_run_append hrest, wellFormed_run input _, ?_, ?_⟩
      · cases context with
        | value => exact absurd rfl path
        | path => rfl
      · exact Spelling.template_raw _
  | case5 input text behind parts middle hescape more left hread hrest =>
      rename_i ih
      intro _ _ h
      cases h
      obtain ⟨spelling, rfl, valid, ends, rfl⟩ := ih hread
      obtain ⟨token, escapes, same, first, before, rfl⟩ := token_of_readEscape context hescape
      refine ⟨(input.takeWhile context.isPlain).map .raw ++ token :: spelling, ?_, ?_, ends, ?_⟩
      · rw [Spelling.text_append, List.append_assoc, Spelling.text_cons, List.append_assoc, ← same,
          ← eq_run_append hrest]
      · rw [List.head?_append] at before
        exact Spelling.WellFormed.append.2
          ⟨wellFormed_run input _, first, before, valid⟩
      · rw [Spelling.template, Spelling.collect_raw, Spelling.collect_escape escapes]
        rfl
  | case6 input text b tail hrest =>
      rename_i dollar
      intro _ _ h
      cases h
      refine ⟨_, eq_run_append hrest, wellFormed_run input _, ?_, ?_⟩
      · have stops := stops_dropWhile context.isPlain input
        simpa [hrest, Context.isPlain, dollar, Ends] using stops
      · exact Spelling.template_raw _

/-- Reading takes exactly the texts that spell a template, up to a byte that ends it. -/
theorem read_eq_done_iff {input rest : Bytes} {template : Template} :
    Template.read context input = .done template rest ↔
      ∃ spelling : Spelling, input = spelling.text ++ rest ∧
        spelling.WellFormed context rest.head? ∧ Ends context rest.head? ∧
        spelling.template = template := by
  constructor
  · exact spelling_of_read input
  · intro h
    obtain ⟨spelling, rfl, valid, ends, rfl⟩ := h
    have plain : ∀ b ∈ ([] : Bytes), context.isPlain b = true := by simp
    exact read_text plain valid ends

end Reading

end BuildFile.Written
