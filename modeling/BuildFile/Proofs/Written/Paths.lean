import BuildFile.Proofs.Written.Spelling

/-! # How a list of paths is written

Each path goes up to a byte that ends it, with any number of spaces in front. Behind the
last path there may be more spaces, and line continuations that lead to no further path.
-/

namespace BuildFile.Written

/-- Paths with the number of spaces in front of each, and what stands behind the last one. -/
inductive PathList where
  | tail (gap : Nat) (folds : List Nat)
  | path (gap : Nat) (spelling : Spelling) (more : PathList)
  deriving Repr, DecidableEq

namespace PathList

def text : PathList → Bytes
  | .tail gap folds => spaces gap ++ Spelling.text (folds.map .fold)
  | .path gap spelling more => spaces gap ++ (spelling.text ++ more.text)

def templates : PathList → List Template
  | .tail _ _ => []
  | .path _ spelling more => spelling.template :: more.templates

/-- Every path has content, and goes up to a byte that ends it. -/
def WellFormed (next : Option UInt8) : PathList → Prop
  | .tail _ _ => True
  | .path _ spelling more =>
      ¬ spelling.IsBlank ∧ spelling.WellFormed .path (more.text.head?.or next) ∧
        Ends .path (more.text.head?.or next) ∧ more.WellFormed next

end PathList

/-- A list of paths ends before this byte: no path starts with it. -/
def Delimits (next : Option UInt8) : Prop :=
  Ends .path next ∧ Stops Byte.isSpace next

theorem delimits_iff {next : Option UInt8} :
    Delimits next ↔
      next = none ∨ next = some Byte.newline ∨ next = some Byte.colon ∨ next = some Byte.pipe := by
  cases next with
  | none => simp [Delimits, Ends]
  | some b =>
      simp only [Delimits, Ends, Template.Context.ends, Byte.isSpace, stops_some, Bool.or_eq_true,
        beq_iff_eq, beq_eq_false_iff_ne, reduceCtorEq, Option.some.injEq, false_or]
      constructor
      · intro h
        obtain ⟨((rfl | rfl) | rfl) | rfl, other⟩ := h
        · exact .inl rfl
        · exact absurd rfl other
        · exact .inr (.inl rfl)
        · exact .inr (.inr rfl)
      · rintro (rfl | rfl | rfl) <;> decide

theorem stops_isSpace_text {spelling : Spelling} {next : Option UInt8}
    (valid : spelling.WellFormed .path next) (nonempty : spelling ≠ []) (after : Bytes) :
    Stops Byte.isSpace (spelling.text ++ after).head? := by
  cases spelling with
  | nil => exact absurd rfl nonempty
  | cons token rest =>
      cases token with
      | raw b =>
          have plain : Template.Context.path.isPlain b = true := valid.1
          have other : b ≠ Byte.space := by
            rintro rfl
            exact absurd plain (by decide)
          simpa [Token.text, Byte.isSpace] using other
      | escape | braced | bare | fold => simp [Token.text]; decide

theorem wellFormed_folds (folds : List Nat) {next : Option UInt8}
    (stops : Stops Byte.isSpace next) : Spelling.WellFormed .path (folds.map .fold) next := by
  induction folds with
  | nil => trivial
  | cons n rest ih =>
      refine ⟨trivial, ?_, ih⟩
      cases rest with
      | nil => exact stops
      | cons m more => simp [Token.EndsBefore, Token.text]; decide

theorem stops_of_wellFormed_folds {folds : List Nat} {next : Option UInt8}
    (valid : Spelling.WellFormed .path (folds.map .fold) next) (nonempty : folds ≠ []) :
    Stops Byte.isSpace next := by
  induction folds with
  | nil => exact absurd rfl nonempty
  | cons n rest ih =>
      cases rest with
      | nil => exact valid.2.1
      | cons m more => exact ih valid.2.2 (by simp)

theorem exists_folds_of_isBlank {spelling : Spelling} (blank : spelling.IsBlank) :
    ∃ folds : List Nat, spelling = folds.map .fold := by
  induction spelling with
  | nil => exact ⟨[], rfl⟩
  | cons token rest ih =>
      obtain ⟨folds, rfl⟩ := ih fun other member => blank other (by simp [member])
      cases token with
      | fold n => exact ⟨n :: folds, rfl⟩
      | raw | escape | braced | bare =>
          exact absurd (blank _ List.mem_cons_self) (by simp [Token.isFold])

theorem isBlank_folds (folds : List Nat) : Spelling.IsBlank (folds.map .fold) := by
  intro token member
  obtain ⟨n, -, rfl⟩ := List.mem_map.1 member
  rfl

theorem readPaths_of_read {input rest : Bytes} {path : Template}
    (h : Template.read .path (input.dropWhile Byte.isSpace) = .done path rest) :
    Template.readPaths input =
      if path = [] then .done [] rest
      else
        match Template.readPaths rest with
        | .failed expected rest => .failed expected rest
        | .done paths rest => .done (path :: paths) rest := by
  rw [Template.readPaths]
  split
  · next hread =>
    rw [h] at hread
    cases hread
  · next hread =>
    rw [h] at hread
    cases hread
    split
    · rfl
    · cases Template.readPaths rest <;> rfl

theorem readPaths_of_failed {input rest : Bytes} {expected : Expected}
    (h : Template.read .path (input.dropWhile Byte.isSpace) = .failed expected rest) :
    Template.readPaths input = .failed expected rest := by
  rw [Template.readPaths]
  split
  · next hread =>
    rw [h] at hread
    cases hread
    rfl
  · next hread =>
    rw [h] at hread
    cases hread

/-- One step of reading paths. -/
theorem readPaths_eq :
    Template.readPaths = (do
      Scan.spaces
      let path ← (Template.read .path : Scan Template)
      if path = [] then return []
      else
        let paths ← (Template.readPaths : Scan (List Template))
        return path :: paths : Scan (List Template)) := by
  funext input
  have skipped : Scan.spaces input = .done () (input.dropWhile Byte.isSpace) := rfl
  rw [Scan.bind_of_done skipped]
  cases hread : Template.read .path (input.dropWhile Byte.isSpace) with
  | failed expected rest =>
      exact (readPaths_of_failed hread).trans (Scan.bind_of_failed hread _).symm
  | done path rest =>
      refine (readPaths_of_read hread).trans (Eq.trans ?_ (Scan.bind_of_done hread _).symm)
      split
      · rfl
      · let join (paths : List Template) : Scan (List Template) := return path :: paths
        cases hpaths : Template.readPaths rest with
        | done paths left => exact (Scan.bind_of_done hpaths join).symm
        | failed expected left => exact (Scan.bind_of_failed hpaths join).symm

theorem readPaths_tail (gap : Nat) (folds : List Nat) {rest : Bytes}
    (delimits : Delimits rest.head?) :
    Template.readPaths ((PathList.tail gap folds).text ++ rest) = .done [] rest := by
  have valid := wellFormed_folds folds delimits.2
  have stops : Stops Byte.isSpace (Spelling.text (folds.map .fold) ++ rest).head? := by
    cases folds with
    | nil => simpa using delimits.2
    | cons n more => exact stops_isSpace_text valid (by simp) rest
  have hread := read_eq_done_iff.2 ⟨_, rfl, valid, delimits.1, rfl⟩
  rw [PathList.text, List.append_assoc, readPaths_of_read (by rwa [dropWhile_spaces _ stops]),
    if_pos (Spelling.template_eq_nil_iff.2 (isBlank_folds _))]

theorem readPaths_text {list : PathList} {rest : Bytes} (valid : list.WellFormed rest.head?)
    (delimits : Delimits rest.head?) :
    Template.readPaths (list.text ++ rest) = .done list.templates rest := by
  induction list with
  | tail gap folds => exact readPaths_tail gap folds delimits
  | path gap spelling more ih =>
      obtain ⟨content, first, ends, others⟩ := valid
      rw [← List.head?_append] at first ends
      have nonempty := Spelling.ne_nil_of_not_isBlank content
      have stops := stops_isSpace_text first nonempty (more.text ++ rest)
      have hread := read_eq_done_iff.2 ⟨_, rfl, first, ends, rfl⟩
      rw [PathList.text, List.append_assoc, List.append_assoc,
        readPaths_of_read (by rwa [dropWhile_spaces _ stops]),
        if_neg (Spelling.template_eq_nil_iff.not.2 content), ih others]
      rfl

theorem pathList_of_readPaths (input : Bytes) :
    ∀ {templates rest}, Template.readPaths input = .done templates rest →
      ∃ list : PathList, input = list.text ++ rest ∧ list.WellFormed rest.head? ∧
        Delimits rest.head? ∧ list.templates = templates := by
  have split (input : Bytes) {tail : Bytes} (h : input.dropWhile Byte.isSpace = tail) :
      ∃ n, input = spaces n ++ tail := h ▸ exists_spaces input
  fun_induction Template.readPaths input with
  | case1 | case3 => simp
  | case2 input rest hread =>
      intro _ _ h
      cases h
      obtain ⟨spelling, same, valid, ends, blank⟩ := read_eq_done_iff.1 hread
      obtain ⟨folds, rfl⟩ := exists_folds_of_isBlank (Spelling.template_eq_nil_iff.1 blank)
      obtain ⟨n, split⟩ := split input same
      refine ⟨.tail n folds, ?_, trivial, ⟨ends, ?_⟩, rfl⟩
      · rw [PathList.text, List.append_assoc, ← split]
      · cases folds with
        | nil =>
            have stops := stops_dropWhile Byte.isSpace input
            rwa [same] at stops
        | cons m more => exact stops_of_wellFormed_folds valid (by simp)
  | case4 input path rest hread content paths left hpaths ih =>
      intro _ _ h
      cases h
      obtain ⟨spelling, same, first, ends, rfl⟩ := read_eq_done_iff.1 hread
      obtain ⟨more, rfl, others, delimits, rfl⟩ := ih hpaths
      obtain ⟨n, split⟩ := split input same
      rw [List.head?_append] at first ends
      refine ⟨.path n spelling more, ?_, ⟨?_, first, ends, others⟩, delimits, rfl⟩
      · rw [PathList.text, List.append_assoc, List.append_assoc, ← split]
      · exact Spelling.template_eq_nil_iff.not.1 content

/-- Paths are read up to the first byte that no path and no space starts with. -/
theorem readPaths_eq_done_iff {input rest : Bytes} {templates : List Template} :
    Template.readPaths input = .done templates rest ↔
      ∃ list : PathList, input = list.text ++ rest ∧ list.WellFormed rest.head? ∧
        Delimits rest.head? ∧ list.templates = templates := by
  constructor
  · exact pathList_of_readPaths input
  · intro h
    obtain ⟨list, rfl, valid, delimits, rfl⟩ := h
    exact readPaths_text valid delimits

/-- Spaces in front of a list of paths do not count. -/
theorem readPaths_dropWhile (input : Bytes) :
    Template.readPaths (input.dropWhile Byte.isSpace) = Template.readPaths input := by
  have idempotent := dropWhile_spaces 0 (stops_dropWhile Byte.isSpace input)
  rw [spaces_zero, List.nil_append] at idempotent
  cases h : Template.read .path (input.dropWhile Byte.isSpace) with
  | done path rest => rw [readPaths_of_read h, readPaths_of_read (by rwa [idempotent])]
  | failed expected rest => rw [readPaths_of_failed h, readPaths_of_failed (by rwa [idempotent])]

end BuildFile.Written
