import BuildFile.Proofs.Written.Spelling
import Mathlib.Data.List.Basic

/-! # The spelling that writing chooses

A template can be spelled in many ways. Writing it spells special bytes as escapes, all other
text as it is, and references in braces. Each escape is read as a literal of its own, so what
is read back is the template up to where its literals are cut.
-/

namespace BuildFile

namespace Template

/-- Put text in front of a template, as part of the literal that comes first, if one does. -/
def joinText (text : Bytes) : Template → Template
  | .literal more :: rest => .literal (text ++ more) :: rest
  | template => .literal text :: template

/-- Join neighbouring literals. -/
def merge : Template → Template
  | [] => []
  | .literal text :: rest => joinText text (merge rest)
  | .reference name :: rest => .reference name :: merge rest

theorem joinText_joinText (first second : Bytes) (template : Template) :
    joinText first (joinText second template) = joinText (first ++ second) template := by
  cases template with
  | nil => rfl
  | cons part rest =>
      cases part with
      | literal more => simp [joinText]
      | reference name => rfl

/-- Templates that differ only in where their literals are cut do so behind a common front too. -/
theorem merge_append_congr (front : Template) {first second : Template}
    (h : merge first = merge second) : merge (front ++ first) = merge (front ++ second) := by
  induction front with
  | nil => exact h
  | cons part front ih => cases part <;> simp [merge, ih]

theorem ofText_append_of_ne_nil {text : Bytes} (h : text ≠ []) (template : Template) :
    ofText text ++ template = .literal text :: template := by
  simp [ofText, h]

/-- A literal can be cut anywhere. -/
theorem merge_ofText_append (first second : Bytes) (template : Template) :
    merge (ofText (first ++ second) ++ template) =
      merge (ofText first ++ (ofText second ++ template)) := by
  by_cases left : first = []
  · rw [left]
    rfl
  · by_cases right : second = []
    · rw [right, List.append_nil]
      rfl
    · have nonempty : first ++ second ≠ [] := by simp [left]
      rw [ofText_append_of_ne_nil nonempty, ofText_append_of_ne_nil left,
        ofText_append_of_ne_nil right]
      exact (joinText_joinText first second _).symm

theorem escapeText_append (first second : Bytes) :
    escapeText (first ++ second) = escapeText first ++ escapeText second :=
  List.flatMap_append

theorem write_joinText (text : Bytes) (template : Template) :
    write (joinText text template) = escapeText text ++ write template := by
  cases template with
  | nil => rfl
  | cons part rest =>
      cases part with
      | literal more => simp [joinText, write, writePart, escapeText_append]
      | reference name => rfl

/-- What is written does not show where literals are cut. -/
@[simp]
theorem write_merge (template : Template) : template.merge.write = template.write := by
  induction template with
  | nil => rfl
  | cons part rest ih =>
      cases part with
      | literal text => rw [merge, write_joinText, ih]; rfl
      | reference name => exact congrArg (writePart (.reference name) ++ ·) ih

end Template

namespace Written

open Template (Context needsEscape ofText merge merge_append_congr merge_ofText_append
  ofText_append_of_ne_nil)

/-- A part that can be read: its text is not empty, and each byte of it stands for itself or
    has an escape. -/
def PartIsReadable (context : Context) : Part → Prop
  | .literal text => text ≠ [] ∧ ∀ b ∈ text, context.isPlain b = true ∨ needsEscape b = true
  | .reference name => IsName name

/-- A template that can be read consists of parts that can. -/
def IsReadable (context : Context) (template : Template) : Prop :=
  ∀ part ∈ template, PartIsReadable context part

theorem IsReadable.append {context : Context} {first second : Template}
    (h : IsReadable context first) (k : IsReadable context second) :
    IsReadable context (first ++ second) :=
  List.forall_mem_append.2 ⟨h, k⟩

theorem isReadable_ofText {context : Context} {text : Bytes}
    (h : ∀ b ∈ text, context.isPlain b = true ∨ needsEscape b = true) :
    IsReadable context (ofText text) := by
  intro part member
  cases text with
  | nil => simp [ofText] at member
  | cons b rest =>
      obtain rfl : part = .literal (b :: rest) := by simpa [ofText] using member
      exact ⟨by simp, h⟩

theorem Token.isReadable_parts {context : Context} {token : Token} (valid : token.IsValid context)
    (escapes : token.isRaw = false) : IsReadable context token.parts := by
  intro part member
  cases token with
  | raw b => cases escapes
  | escape b =>
      obtain rfl := List.mem_singleton.1 member
      have special : needsEscape b = true := valid
      exact ⟨by simp, by simp [special]⟩
  | braced name | bare name =>
      obtain rfl := List.mem_singleton.1 member
      exact valid
  | fold n => cases member

namespace Spelling

theorem isReadable_collect {context : Context} {spelling : Spelling} {next : Option UInt8}
    {run : Bytes} (plain : ∀ b ∈ run, context.isPlain b = true)
    (valid : spelling.WellFormed context next) : IsReadable context (spelling.collect run) := by
  induction spelling generalizing run with
  | nil => exact isReadable_ofText fun b member => .inl (plain b member)
  | cons token rest ih =>
      obtain ⟨first, -, others⟩ := valid
      cases escapes : token.isRaw with
      | true =>
          cases token with
          | raw b =>
              have one : ∀ c ∈ [b], context.isPlain c = true := List.forall_mem_singleton.2 first
              exact ih (List.forall_mem_append.2 ⟨plain, one⟩) others
          | escape | braced | bare | fold => cases escapes
      | false =>
          rw [collect_escape escapes]
          have before := isReadable_ofText fun b member => .inl (plain b member)
          exact (before.append (Token.isReadable_parts first escapes)).append
            (ih (by simp) others)

/-- Whatever is spelled can be read. -/
theorem isReadable_template {context : Context} {spelling : Spelling} {next : Option UInt8}
    (valid : spelling.WellFormed context next) : IsReadable context spelling.template :=
  isReadable_collect (by simp) valid

/-- How one byte of text is spelled. -/
def tokenOf (b : UInt8) : Token := if needsEscape b then .escape b else .raw b

/-- How a part is spelled. -/
def ofPart : Part → Spelling
  | .literal text => text.map tokenOf
  | .reference name => [.braced name]

/-- How a template is spelled when it is written. -/
def ofTemplate (template : Template) : Spelling := template.flatMap ofPart

theorem text_map_tokenOf (text : Bytes) :
    Spelling.text (text.map tokenOf) = Template.escapeText text := by
  rw [Spelling.text, List.flatMap_map]
  refine List.flatMap_congr fun b _ => ?_
  unfold tokenOf
  split <;> rfl

theorem text_ofTemplate (template : Template) : (ofTemplate template).text = template.write := by
  rw [Spelling.text, ofTemplate, List.flatMap_assoc]
  refine List.flatMap_congr fun part _ => ?_
  cases part with
  | literal text => exact text_map_tokenOf text
  | reference name => simp [ofPart, Token.text, Template.writePart]

theorem wellFormed_ofPart {context : Context} {part : Part} {next : Option UInt8}
    (h : PartIsReadable context part) : (ofPart part).WellFormed context next := by
  cases part with
  | reference name => exact ⟨h, trivial, trivial⟩
  | literal text =>
      obtain ⟨-, bytes⟩ := h
      induction text with
      | nil => trivial
      | cons b rest ih =>
          obtain ⟨first, others⟩ := List.forall_mem_cons.1 bytes
          have more := ih others
          simp only [ofPart, List.map_cons, tokenOf] at more ⊢
          split
          · next special => exact ⟨special, trivial, more⟩
          · next other => exact ⟨first.resolve_right other, trivial, more⟩

theorem wellFormed_ofTemplate {context : Context} {template : Template} (next : Option UInt8)
    (h : IsReadable context template) : (ofTemplate template).WellFormed context next := by
  induction template with
  | nil => trivial
  | cons part rest ih =>
      obtain ⟨first, others⟩ := List.forall_mem_cons.1 h
      exact WellFormed.append.2 ⟨wellFormed_ofPart first, ih others⟩

/-- A literal that is spelled behind a run of text goes on where the run stops. -/
theorem merge_collect_text {spelling : Spelling} {template : Template}
    (h : ∀ run, merge (spelling.collect run) = merge (ofText run ++ template))
    (run text : Bytes) :
    merge (collect run (text.map tokenOf ++ spelling)) =
      merge (ofText (run ++ text) ++ template) := by
  induction text generalizing run with
  | nil =>
      rw [List.append_nil]
      exact h run
  | cons b text ih =>
      rw [List.map_cons, List.cons_append, tokenOf]
      split
      · calc merge (ofText run ++ ofText [b] ++ collect [] (text.map tokenOf ++ spelling))
          _ = merge (ofText run ++ (ofText [b] ++ (ofText text ++ template))) := by
              rw [List.append_assoc]
              exact merge_append_congr _ (merge_append_congr _ (ih []))
          _ = merge (ofText run ++ (ofText ([b] ++ text) ++ template)) :=
              merge_append_congr _ (merge_ofText_append _ _ _).symm
          _ = merge (ofText (run ++ b :: text) ++ template) :=
              (merge_ofText_append _ _ _).symm
      · rw [collect, ih, List.append_assoc]
        rfl

theorem merge_collect_ofTemplate {context : Context} {template : Template}
    (h : IsReadable context template) (run : Bytes) :
    merge (collect run (ofTemplate template)) = merge (ofText run ++ template) := by
  induction template generalizing run with
  | nil => simp [ofTemplate, collect]
  | cons part rest ih =>
      obtain ⟨first, others⟩ := List.forall_mem_cons.1 h
      cases part with
      | literal text =>
          have spelled : ofTemplate (.literal text :: rest) =
              text.map tokenOf ++ ofTemplate rest := rfl
          rw [spelled, merge_collect_text (ih others), merge_ofText_append,
            ofText_append_of_ne_nil first.1]
      | reference name =>
          have more := merge_append_congr [.reference name] (ih others [])
          calc merge (ofText run ++ [.reference name] ++ collect [] (ofTemplate rest))
            _ = merge (ofText run ++ .reference name :: rest) := by
                rw [List.append_assoc]
                exact merge_append_congr _ more

/-- What is written is read back, up to where literals are cut. -/
theorem merge_template_ofTemplate {context : Context} {template : Template}
    (h : IsReadable context template) : merge (ofTemplate template).template = merge template :=
  merge_collect_ofTemplate h []

end Spelling

end Written

end BuildFile
