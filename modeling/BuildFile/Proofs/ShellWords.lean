import BuildFile.Proofs.Written.Lexeme
import BuildFile.Proofs.Evaluation
import Mathlib.Data.FinEnum

/-! # Paths as words of a command

A shell takes a text apart into pieces: separators, bytes that stand alone or behind a backslash,
and what stands between single quotes. The pieces between two separators make a word. The text
that paths are written as is taken for just these paths, and nothing in it stands outside of
quotes that means more to a shell than itself.
-/

namespace BuildFile.Shell

/-- A piece of a text, as a shell sees it. -/
inductive Lexeme where
  /-- A byte that ends a word. -/
  | separator (b : UInt8)
  /-- A byte outside of quotes. -/
  | bare (b : UInt8)
  /-- A byte behind a backslash. -/
  | escaped (b : UInt8)
  /-- What stands between two single quotes. -/
  | quoted (text : Bytes)
  deriving Repr, DecidableEq

namespace Lexeme

def text : Lexeme → Bytes
  | .separator b | .bare b => [b]
  | .escaped b => [Byte.backslash, b]
  | .quoted text => Byte.quote :: (text ++ [Byte.quote])

/-- What a piece adds to the word it stands in. -/
def content? : Lexeme → Option Bytes
  | .separator _ => none
  | .bare b | .escaped b => some [b]
  | .quoted text => some text

end Lexeme

def isSeparator (b : UInt8) : Bool :=
  b == Byte.space || b == Byte.newline

/-- The piece that starts with a byte, and the bytes behind it. A single quote must be closed, and
    there is something behind a backslash. -/
def firstLexeme? (b : UInt8) (rest : Bytes) : Option (Lexeme × Bytes) :=
  if b = Byte.quote then
    match rest.dropWhile (· != Byte.quote) with
    | [] => none
    | _ :: behind => some (.quoted (rest.takeWhile (· != Byte.quote)), behind)
  else if b = Byte.backslash then
    match rest with
    | [] => none
    | c :: behind => some (.escaped c, behind)
  else if isSeparator b then some (.separator b, rest)
  else some (.bare b, rest)

theorem text_of_firstLexeme? {b : UInt8} {rest behind : Bytes} {lexeme : Lexeme}
    (h : firstLexeme? b rest = some (lexeme, behind)) : lexeme.text ++ behind = b :: rest := by
  unfold firstLexeme? at h
  split at h
  · next quote =>
    split at h
    · cases h
    · next c tail closed =>
      cases h
      have stops := Written.stops_dropWhile (· != Byte.quote) rest
      simp only [closed, List.head?_cons, Written.stops_some, bne_eq_false_iff_eq] at stops
      have parts := List.takeWhile_append_dropWhile (p := (· != Byte.quote)) (l := rest)
      rw [closed, stops] at parts
      rw [Lexeme.text, quote, List.cons_append, List.append_assoc, List.singleton_append, parts]
  · split at h
    · next backslash =>
      split at h <;> cases h
      rw [backslash]
      rfl
    · split at h <;> cases h <;> rfl

theorem length_lt_of_firstLexeme? {b : UInt8} {rest behind : Bytes} {lexeme : Lexeme}
    (h : firstLexeme? b rest = some (lexeme, behind)) : behind.length < (b :: rest).length := by
  rw [← text_of_firstLexeme? h]
  cases lexeme
  all_goals
    simp only [Lexeme.text, List.length_append, List.length_cons, List.length_nil]
    omega

/-- Take a text apart. -/
def lexemes? : Bytes → Option (List Lexeme)
  | [] => some []
  | b :: rest =>
      match _hfirst : firstLexeme? b rest with
      | none => none
      | some (lexeme, behind) => (lexemes? behind).map (lexeme :: ·)
termination_by text => text.length
decreasing_by exact length_lt_of_firstLexeme? _hfirst

/-- Taking a text apart loses none of it. -/
theorem text_of_lexemes? {text : Bytes} {lexemes : List Lexeme} (h : lexemes? text = some lexemes) :
    lexemes.flatMap Lexeme.text = text := by
  fun_induction lexemes? text generalizing lexemes with
  | case1 =>
      cases h
      rfl
  | case2 => cases h
  | case3 b rest lexeme behind hfirst ih =>
      obtain ⟨others, hothers, rfl⟩ := Option.map_eq_some_iff.1 h
      rw [List.flatMap_cons, ih hothers, text_of_firstLexeme? hfirst]

/-- The words that pieces make, behind a word that may have begun. -/
def wordsFrom (begun : Option Bytes) : List Lexeme → List Bytes
  | [] => begun.toList
  | lexeme :: rest =>
      match lexeme.content? with
      | none => begun.toList ++ wordsFrom none rest
      | some text => wordsFrom (some (begun.getD [] ++ text)) rest

/-- The words that pieces make: what stands between separators, joined. -/
def words (lexemes : List Lexeme) : List Bytes := wordsFrom none lexemes

/-- The bytes that stand in commands outside of quotes. -/
def bareBytes : Bytes :=
  ascii "ABCDEFGHIJKLMNOPQRSTUVWXYZabcdefghijklmnopqrstuvwxyz0123456789_+-./"

theorem isSafe_iff (b : UInt8) : isSafe b = true ↔ b ∈ bareBytes := by
  revert b
  decide +kernel

theorem not_special_of_isSafe {b : UInt8} (safe : isSafe b = true) :
    b ≠ Byte.quote ∧ b ≠ Byte.backslash ∧ isSeparator b = false := by
  revert b
  decide +kernel

theorem not_special_of_isSeparator {b : UInt8} (h : isSeparator b = true) :
    b ≠ Byte.quote ∧ b ≠ Byte.backslash := by
  revert b
  decide +kernel

theorem lexemes?_cons {b : UInt8} {rest behind : Bytes} {lexeme : Lexeme}
    (h : firstLexeme? b rest = some (lexeme, behind)) :
    lexemes? (b :: rest) = (lexemes? behind).map (lexeme :: ·) := by
  rw [lexemes?]
  split <;> simp_all

theorem lexemes?_bare {b : UInt8} (safe : isSafe b = true) (rest : Bytes) :
    lexemes? (b :: rest) = (lexemes? rest).map (.bare b :: ·) := by
  obtain ⟨quote, backslash, separator⟩ := not_special_of_isSafe safe
  exact lexemes?_cons (by simp [firstLexeme?, quote, backslash, separator])

theorem lexemes?_separator {b : UInt8} (h : isSeparator b = true) (rest : Bytes) :
    lexemes? (b :: rest) = (lexemes? rest).map (.separator b :: ·) := by
  obtain ⟨quote, backslash⟩ := not_special_of_isSeparator h
  exact lexemes?_cons (by simp [firstLexeme?, quote, backslash, h])

theorem lexemes?_escaped (b : UInt8) (rest : Bytes) :
    lexemes? (Byte.backslash :: b :: rest) = (lexemes? rest).map (.escaped b :: ·) :=
  lexemes?_cons rfl

theorem lexemes?_quoted {run : Bytes} (within : Byte.quote ∉ run) (rest : Bytes) :
    lexemes? (Byte.quote :: (run ++ Byte.quote :: rest)) =
      (lexemes? rest).map (.quoted run :: ·) := by
  have inside : ∀ b ∈ run, (b != Byte.quote) = true := by
    intro b member
    rw [bne_iff_ne]
    rintro rfl
    exact within member
  have stops : Written.Stops (· != Byte.quote) (Byte.quote :: rest).head? := by simp
  apply lexemes?_cons
  simp only [firstLexeme?, if_true, Written.dropWhile_append_of_stops inside stops,
    Written.takeWhile_append_of_stops inside stops]

/-- The pieces of quoted text, behind a run that is still open. -/
def quotedLexemes (run : Bytes) : Bytes → List Lexeme
  | [] => [.quoted run]
  | b :: rest =>
      if b = Byte.quote then .quoted run :: .escaped b :: quotedLexemes [] rest
      else quotedLexemes (run ++ [b]) rest

/-- The pieces of a path that is written as one word. -/
def pathLexemes (path : Bytes) : List Lexeme :=
  if path ≠ [] ∧ ∀ b ∈ path, isSafe b = true then path.map .bare else quotedLexemes [] path

theorem lexemes?_quotedLexemes {run : Bytes} (within : Byte.quote ∉ run) (path rest : Bytes) :
    lexemes? (Byte.quote :: (run ++ (path.flatMap quoteByte ++ Byte.quote :: rest))) =
      (lexemes? rest).map (quotedLexemes run path ++ ·) := by
  induction path generalizing run with
  | nil => exact lexemes?_quoted within rest
  | cons b path ih =>
      rw [List.flatMap_cons, quotedLexemes]
      by_cases h : b = Byte.quote
      · -- The quote ends the run, stands for itself behind a backslash, and opens a new run.
        subst h
        have hmore := @ih [] (by simp)
        rw [List.nil_append] at hmore
        rw [if_pos rfl, quoteByte, if_pos rfl]
        simp only [List.cons_append, List.nil_append]
        rw [lexemes?_quoted within, lexemes?_escaped, hmore, Option.map_map, Option.map_map]
        rfl
      · have hmore := @ih (run ++ [b]) (by simp [within, Ne.symm h])
        rw [if_neg h, quoteByte, if_neg h]
        simpa using hmore

theorem lexemes?_bareLexemes {path : Bytes} (safe : ∀ b ∈ path, isSafe b = true) (rest : Bytes) :
    lexemes? (path ++ rest) = (lexemes? rest).map (path.map .bare ++ ·) := by
  induction path with
  | nil => simp
  | cons b path ih =>
      obtain ⟨first, others⟩ := List.forall_mem_cons.1 safe
      rw [List.cons_append, lexemes?_bare first, ih others, Option.map_map]
      rfl

theorem lexemes?_quote (path rest : Bytes) :
    lexemes? (quote path ++ rest) = (lexemes? rest).map (pathLexemes path ++ ·) := by
  unfold pathLexemes
  split
  · next safe =>
    rw [quote_of_safe safe]
    exact lexemes?_bareLexemes safe.2 rest
  · next special =>
    have quoted := @lexemes?_quotedLexemes [] (by simp) path rest
    rw [quote_of_not_safe special]
    simpa using quoted

theorem wordsFrom_quotedLexemes (begun : Option Bytes) (run path : Bytes) (rest : List Lexeme) :
    wordsFrom begun (quotedLexemes run path ++ rest) =
      wordsFrom (some (begun.getD [] ++ run ++ path)) rest := by
  induction path generalizing begun run with
  | nil => simp [quotedLexemes, wordsFrom, Lexeme.content?]
  | cons b path ih =>
      rw [quotedLexemes]
      split <;> simp [wordsFrom, Lexeme.content?, ih]

theorem wordsFrom_bareLexemes (word path : Bytes) (rest : List Lexeme) :
    wordsFrom (some word) (path.map .bare ++ rest) = wordsFrom (some (word ++ path)) rest := by
  induction path generalizing word with
  | nil => simp
  | cons b path ih => simp [wordsFrom, Lexeme.content?, ih]

/-- The pieces of a path make the path, also if it is empty. -/
theorem wordsFrom_pathLexemes (path : Bytes) (rest : List Lexeme) :
    wordsFrom none (pathLexemes path ++ rest) = wordsFrom (some path) rest := by
  unfold pathLexemes
  split
  · next safe =>
    cases path with
    | nil => exact absurd rfl safe.1
    | cons b path =>
        have joined := wordsFrom_bareLexemes [b] path rest
        simpa [wordsFrom, Lexeme.content?] using joined
  · simpa using wordsFrom_quotedLexemes none [] path rest

/-- Outside of quotes a piece is a separator, a byte that means only itself, or a single quote
    behind a backslash. -/
def Lexeme.IsHarmless : Lexeme → Prop
  | .separator _ | .quoted _ => True
  | .bare b => b ∈ bareBytes
  | .escaped b => b = Byte.quote

theorem isHarmless_of_mem_quotedLexemes {run path : Bytes} {lexeme : Lexeme}
    (h : lexeme ∈ quotedLexemes run path) : lexeme.IsHarmless := by
  induction path generalizing run with
  | nil =>
      obtain rfl := List.mem_singleton.1 h
      trivial
  | cons b path ih =>
      rw [quotedLexemes] at h
      split at h
      · next quote =>
        obtain rfl | h := List.mem_cons.1 h
        · trivial
        · obtain rfl | h := List.mem_cons.1 h
          · exact quote
          · exact ih h
      · exact ih h

theorem isHarmless_of_mem_pathLexemes {path : Bytes} {lexeme : Lexeme}
    (h : lexeme ∈ pathLexemes path) : lexeme.IsHarmless := by
  unfold pathLexemes at h
  split at h
  · next safe =>
    obtain ⟨b, member, rfl⟩ := List.mem_map.1 h
    exact (isSafe_iff b).1 (safe.2 b member)
  · exact isHarmless_of_mem_quotedLexemes h

/-- A shell takes a text for words, and there is nothing outside of quotes for it to act on. -/
def Spells (text : Bytes) (spelled : List Bytes) : Prop :=
  ∃ lexemes, lexemes? text = some lexemes ∧ lexemes.flatMap Lexeme.text = text ∧
    words lexemes = spelled ∧ ∀ lexeme ∈ lexemes, lexeme.IsHarmless

/-- The pieces of paths with a separator between them. -/
def joinLexemes (separator : UInt8) (paths : List Bytes) : List Lexeme :=
  [.separator separator].intercalate (paths.map pathLexemes)

theorem join_cons_cons (separator : UInt8) (first second : Bytes) (rest : List Bytes) :
    join separator (first :: second :: rest) =
      quote first ++ separator :: join separator (second :: rest) := by
  simp [join, List.intercalate_cons_of_ne_nil]

theorem joinLexemes_cons_cons (separator : UInt8) (first second : Bytes) (rest : List Bytes) :
    joinLexemes separator (first :: second :: rest) =
      pathLexemes first ++ .separator separator :: joinLexemes separator (second :: rest) := by
  simp [joinLexemes, List.intercalate_cons_of_ne_nil]

theorem lexemes?_join {separator : UInt8} (h : isSeparator separator = true) (paths : List Bytes) :
    lexemes? (join separator paths) = some (joinLexemes separator paths) := by
  have ended : lexemes? [] = some [] := by rw [lexemes?]
  match paths with
  | [] => simpa [join, joinLexemes] using ended
  | [path] =>
      have single := lexemes?_quote path []
      rw [ended] at single
      simpa [join, joinLexemes] using single
  | first :: second :: rest =>
      rw [join_cons_cons, lexemes?_quote, lexemes?_separator h, lexemes?_join h (second :: rest),
        joinLexemes_cons_cons]
      rfl

theorem words_joinLexemes (separator : UInt8) (paths : List Bytes) :
    words (joinLexemes separator paths) = paths := by
  match paths with
  | [] => rfl
  | [path] =>
      have single := wordsFrom_pathLexemes path []
      rw [List.append_nil] at single
      simpa [words, joinLexemes, wordsFrom] using single
  | first :: second :: rest =>
      rw [joinLexemes_cons_cons, words, wordsFrom_pathLexemes]
      exact congrArg (first :: ·) (words_joinLexemes separator (second :: rest))

theorem isHarmless_of_mem_joinLexemes {separator : UInt8} {paths : List Bytes} {lexeme : Lexeme}
    (h : lexeme ∈ joinLexemes separator paths) : lexeme.IsHarmless := by
  match paths with
  | [] => simp [joinLexemes] at h
  | [path] => exact isHarmless_of_mem_pathLexemes (by simpa [joinLexemes] using h)
  | first :: second :: rest =>
      rw [joinLexemes_cons_cons, List.mem_append, List.mem_cons] at h
      obtain h | rfl | h := h
      · exact isHarmless_of_mem_pathLexemes h
      · trivial
      · exact isHarmless_of_mem_joinLexemes h

theorem spells_join {separator : UInt8} (h : isSeparator separator = true) (paths : List Bytes) :
    Spells (join separator paths) paths :=
  ⟨_, lexemes?_join h paths, text_of_lexemes? (lexemes?_join h paths),
    words_joinLexemes separator paths, fun _ => isHarmless_of_mem_joinLexemes⟩

end BuildFile.Shell

namespace BuildFile.Scope

/-- The paths of an edge are expanded to texts that a shell takes for just these paths. Writing a
    path leaves what stands in front of it alone. -/
theorem edge_paths_spelled :
    (∀ (inputs outputs : List Bytes) (block : Environment) (rule : List Binding)
        (globals : Environment),
      let scope := ofEdge inputs outputs block rule globals
      (∃ text, scope.expandName Keyword.inputs = .ok text ∧ Shell.Spells text inputs) ∧
      (∃ text, scope.expandName Keyword.outputs = .ok text ∧ Shell.Spells text outputs) ∧
      ∃ text, scope.expandName Keyword.inputLines = .ok text ∧ Shell.Spells text inputs) ∧
    ∀ text path, Shell.push text path = text ++ Shell.quote path := by
  refine ⟨fun inputs outputs block rule globals => ⟨?_, ?_, ?_⟩, Shell.push_eq_append⟩
  · exact ⟨_, expandName_paths rfl, Shell.spells_join rfl inputs⟩
  · exact ⟨_, expandName_paths rfl, Shell.spells_join rfl outputs⟩
  · exact ⟨_, expandName_paths rfl, Shell.spells_join rfl inputs⟩

end BuildFile.Scope
