import BuildFile.Proofs.CyclicExpansion
import BuildFile.Proofs.Written.Canonical

/-! # Writing a template and reading it back

Every escape that is read becomes a literal of its own, so a template comes back with its literals
cut at other places. Nothing that is done with a template depends on these places: where two
templates are the same after neighbouring literals are joined, they have the same values and are
written in the same way.
-/

namespace BuildFile

open Template (Context)
open Written (Ends IsName IsReadable PartIsReadable Spelling read_eq_done_iff)

namespace Template

theorem evaluate_joinText (text : Bytes) (template : Template) (env : Environment) :
    (joinText text template).evaluate env = text ++ template.evaluate env := by
  cases template with
  | nil => rfl
  | cons part rest =>
      cases part with
      | literal more => simp [joinText, evaluate, evaluatePart]
      | reference name => rfl

@[simp]
theorem evaluate_merge (template : Template) (env : Environment) :
    template.merge.evaluate env = template.evaluate env := by
  induction template with
  | nil => rfl
  | cons part rest ih =>
      cases part with
      | literal text => rw [merge, evaluate_joinText, ih]; rfl
      | reference name => exact congrArg (env.value name ++ ·) ih

end Template

namespace Scope

variable {scope : Scope} {active : List Name}

theorem expandWithin_literal (text : Bytes) (rest : Template) :
    scope.expandWithin active (.literal text :: rest) =
      (scope.expandWithin active rest).map (text ++ ·) := by
  rw [expandWithin]
  cases scope.expandWithin active rest <;> rfl

theorem expandWithin_joinText (text : Bytes) (template : Template) :
    scope.expandWithin active (template.joinText text) =
      (scope.expandWithin active template).map (text ++ ·) := by
  cases template with
  | nil => exact expandWithin_literal text []
  | cons part rest =>
      cases part with
      | literal more =>
          rw [Template.joinText, expandWithin_literal, expandWithin_literal]
          cases scope.expandWithin active rest <;> simp [Except.map]
      | reference name => exact expandWithin_literal text _

/-- A cut has no effect on the expansion, also where it fails. -/
@[simp]
theorem expandWithin_merge (template : Template) :
    scope.expandWithin active template.merge = scope.expandWithin active template := by
  induction template with
  | nil => rfl
  | cons part rest ih =>
      cases part with
      | literal text => rw [Template.merge, expandWithin_joinText, ih, expandWithin_literal]
      | reference name => rw [Template.merge, expandWithin_reference, ih, expandWithin_reference]

end Scope

namespace Template

variable {first second : Template}

theorem evaluate_eq_of_merge (same : first.merge = second.merge) (env : Environment) :
    first.evaluate env = second.evaluate env := by
  rw [← evaluate_merge, same, evaluate_merge]

theorem expand_eq_of_merge (same : first.merge = second.merge) (scope : Scope) :
    scope.expand first = scope.expand second := by
  rw [Scope.expand, ← Scope.expandWithin_merge, same, Scope.expandWithin_merge, Scope.expand]

theorem write_eq_of_merge (same : first.merge = second.merge) : first.write = second.write := by
  rw [← write_merge, same, write_merge]

end Template

/-- A reference needs a name. Text must not hold a byte that ends the template and that has no
    escape. -/
def Part.Fits (context : Context) : Part → Prop
  | .literal text => Byte.newline ∉ text ∧ (context = .path → Byte.pipe ∉ text)
  | .reference name => IsName name

instance (context : Context) : DecidablePred (Part.Fits context)
  | .literal text =>
      inferInstanceAs (Decidable (Byte.newline ∉ text ∧ (context = .path → Byte.pipe ∉ text)))
  | .reference name => inferInstanceAs (Decidable (IsName name))

/-- The template is what pushing some parts gives. -/
def Template.IsPushed (template : Template) : Prop :=
  ∃ parts, template = ofParts parts

theorem Template.isPushed_iff {template : Template} :
    template.IsPushed ↔ ∀ part ∈ template, part.isEmpty = false := by
  constructor
  · rintro ⟨parts, rfl⟩ part member
    rw [ofParts_eq_filter] at member
    simpa using (List.mem_filter.1 member).2
  · intro nonempty
    refine ⟨template, ?_⟩
    rw [ofParts_eq_filter, List.filter_eq_self.2]
    simpa using nonempty

theorem Template.Context.isPlain_or_needsEscape_iff {context : Context} {b : UInt8} :
    context.isPlain b = true ∨ Template.needsEscape b = true ↔
      b ≠ Byte.newline ∧ (context = .path → b ≠ Byte.pipe) := by
  have dollar : Byte.dollar ≠ Byte.newline ∧ Byte.dollar ≠ Byte.pipe := by decide
  have space : Byte.space ≠ Byte.newline ∧ Byte.space ≠ Byte.pipe := by decide
  have colon : Byte.colon ≠ Byte.newline ∧ Byte.colon ≠ Byte.pipe := by decide
  cases context with
  | value =>
      simp only [isPlain, ends, Template.needsEscape, Bool.and_eq_true, Bool.not_eq_true',
        beq_eq_false_iff_ne, bne_iff_ne, Bool.or_eq_true, beq_iff_eq]
      grind
  | path =>
      simp only [isPlain, ends, Template.needsEscape, Bool.and_eq_true, Bool.not_eq_true',
        Bool.or_eq_false_iff, beq_eq_false_iff_ne, bne_iff_ne, Bool.or_eq_true, beq_iff_eq]
      grind

theorem Part.isReadable_iff {context : Context} {part : Part} :
    PartIsReadable context part ↔ part.isEmpty = false ∧ part.Fits context := by
  cases part with
  | literal text =>
      simp only [PartIsReadable, Context.isPlain_or_needsEscape_iff, isEmpty, Fits,
        List.isEmpty_eq_false_iff]
      grind
  | reference name =>
      constructor
      · intro isName
        exact ⟨List.isEmpty_eq_false_iff.2 isName.1, isName⟩
      · exact fun h => h.2

theorem Template.isReadable_iff {context : Context} {template : Template} :
    IsReadable context template ↔ template.IsPushed ∧ ∀ part ∈ template, part.Fits context := by
  rw [isPushed_iff]
  simp only [IsReadable, Part.isReadable_iff]
  exact ⟨fun h => ⟨fun part member => (h part member).1, fun part member => (h part member).2⟩,
    fun h part member => ⟨h.1 part member, h.2 part member⟩⟩

namespace Template

/-- What is written for a template is read, and no more than that. -/
theorem exists_read_write {context : Context} {template : Template} {rest : Bytes}
    (readable : IsReadable context template) (ends : Ends context rest.head?) :
    ∃ again, read context (template.write ++ rest) = .done again rest ∧
      again.merge = template.merge := by
  have spelled := Spelling.wellFormed_ofTemplate rest.head? readable
  refine ⟨(Spelling.ofTemplate template).template, read_eq_done_iff.2 ⟨Spelling.ofTemplate template,
    ?_, spelled, ends, rfl⟩, Spelling.merge_template_ofTemplate readable⟩
  rw [Spelling.text_ofTemplate]

theorem isReadable_of_read {context : Context} {template : Template} {input rest : Bytes}
    (h : read context input = .done template rest) : IsReadable context template := by
  obtain ⟨spelling, -, valid, -, rfl⟩ := read_eq_done_iff.1 h
  exact Spelling.isReadable_template valid

/-- A template that has been built of parts that fit, written in front of a byte that ends it,
    is read back up to where its literals are cut. All templates that are read are such ones. -/
theorem write_reads_back (context : Context) :
    (∀ (parts : List Part) (rest : Bytes), (∀ part ∈ ofParts parts, part.Fits context) →
      Ends context rest.head? →
        ∃ again, read context ((ofParts parts).write ++ rest) = .done again rest ∧
          again.merge = (ofParts parts).merge ∧
          (∀ env, again.evaluate env = (ofParts parts).evaluate env) ∧
          (∀ scope : Scope, scope.expand again = scope.expand (ofParts parts)) ∧
          again.write = (ofParts parts).write) ∧
    (∀ (input rest : Bytes) (template : Template), read context input = .done template rest →
      template.IsPushed ∧ ∀ part ∈ template, part.Fits context) := by
  constructor
  · intro parts rest fits ends
    have readable : IsReadable context (ofParts parts) := isReadable_iff.2 ⟨⟨parts, rfl⟩, fits⟩
    obtain ⟨again, done, same⟩ := exists_read_write readable ends
    exact ⟨again, done, same, evaluate_eq_of_merge same, expand_eq_of_merge same,
      write_eq_of_merge same⟩
  · intro input rest template h
    exact isReadable_iff.1 (isReadable_of_read h)

/-- A reference between two texts, of which the first needs escapes. -/
def escapedParts : List Part :=
  [.literal (ascii " a$b:"), .reference (ascii "x"), .literal (ascii "y")]

/-- One literal comes back as five. -/
theorem write_reads_back_cut :
    (∀ part ∈ ofParts escapedParts, part.Fits .path) ∧ Ends .path (ascii ": r").head? ∧
    (ofParts escapedParts).write = ascii "$ a$$b$:${x}y" ∧
    ∃ again, read .path ((ofParts escapedParts).write ++ ascii ": r") = .done again (ascii ": r") ∧
      again.merge = escapedParts ∧ again.write = (ofParts escapedParts).write ∧ again.length = 7 := by
  have fits : ∀ part ∈ ofParts escapedParts, part.Fits .path := by decide
  have ends : Ends .path (ascii ": r").head? := rfl
  obtain ⟨again, done, same, -, -, written⟩ := (write_reads_back .path).1 _ _ fits ends
  have cut : read .path ((ofParts escapedParts).write ++ ascii ": r") =
      .done [.literal (ascii " "), .literal (ascii "a"), .literal (ascii "$"), .literal (ascii "b"),
        .literal (ascii ":"), .reference (ascii "x"), .literal (ascii "y")] (ascii ": r") := by
    decide +kernel
  refine ⟨fits, ends, by decide, again, done, same.trans (by decide), written, ?_⟩
  rw [cut] at done
  cases done
  rfl

end Template

end BuildFile
