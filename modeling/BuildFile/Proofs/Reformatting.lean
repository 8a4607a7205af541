import BuildFile.Proofs.Grammar
import BuildFile.Proofs.Insertion
import Mathlib.Data.List.Forall2
import Mathlib.Logic.Relation

/-! # Formatting does not change what a file says

A reference may get braces, spaces that only set things apart may become more or fewer, and lines
that do not count may be inserted where they do not end a block. What is written stays well formed
and says the same, so that the text is still accepted with the same manifest, however often it is
reformatted.
-/

namespace BuildFile.Written

open Template (Context)

theorem head?_append_congr {first second other further : Bytes}
    (h : other.head? = first.head?) (k : further.head? = second.head?) :
    (other ++ further).head? = (first ++ second).head? := by
  rw [List.head?_append, List.head?_append, h, k]

/-- A name gets braces, or the line that a value or a path goes on with gets another indentation. -/
inductive Token.Reformats : Token → Token → Prop where
  | refl (token : Token) : Reformats token token
  | braces (name : Name) : Reformats (.bare name) (.braced name)
  | indent (before after : Nat) : Reformats (.fold before) (.fold after)

namespace Token.Reformats

variable {token other : Token}

theorem head?_append (h : token.Reformats other) (rest further : Bytes) :
    (other.text ++ further).head? = (token.text ++ rest).head? := by
  cases h with
  | refl token => cases token <;> rfl
  | braces | indent => rfl

theorem isValid {context : Context} (h : token.Reformats other) (valid : token.IsValid context) :
    other.IsValid context := by
  cases h <;> exact valid

theorem endsBefore {next : Option UInt8} (h : token.Reformats other)
    (ends : token.EndsBefore next) : other.EndsBefore next := by
  cases h with
  | refl | indent => exact ends
  | braces => trivial

end Token.Reformats

def Spelling.Reformats (spelling other : Spelling) : Prop :=
  List.Forall₂ Token.Reformats spelling other

namespace Spelling.Reformats

variable {spelling other : Spelling}

theorem refl (spelling : Spelling) : spelling.Reformats spelling :=
  List.forall₂_same.2 fun token _ => .refl token

theorem head?_text (h : spelling.Reformats other) : other.text.head? = spelling.text.head? := by
  cases h with
  | nil => rfl
  | cons first _ => exact first.head?_append _ _

theorem wellFormed {context : Context} {next : Option UInt8} (h : spelling.Reformats other)
    (valid : spelling.WellFormed context next) : other.WellFormed context next := by
  induction h with
  | nil => trivial
  | cons first more ih =>
      obtain ⟨isValid, ends, others⟩ := valid
      -- A token sees the next byte only, and that one is the same.
      rw [← head?_text more] at ends
      exact ⟨first.isValid isValid, first.endsBefore ends, ih others⟩

theorem collect_eq (h : spelling.Reformats other) (run : Bytes) :
    other.collect run = spelling.collect run := by
  induction h generalizing run with
  | nil => rfl
  | @cons token _ _ _ first _ ih =>
      cases first with
      | refl =>
          cases token with
          | raw b => exact ih (run ++ [b])
          | escape | braced | bare | fold => exact congrArg (_ ++ ·) (ih [])
      | braces | indent => exact congrArg (_ ++ ·) (ih [])

theorem template_eq (h : spelling.Reformats other) : other.template = spelling.template :=
  h.collect_eq []

theorem not_isBlank (h : spelling.Reformats other) (content : ¬ spelling.IsBlank) :
    ¬ other.IsBlank := by
  rwa [← template_eq_nil_iff, h.template_eq, template_eq_nil_iff]

theorem trim (h : spelling.Reformats other) : spelling.trim.Reformats other.trim := by
  induction h with
  | nil => exact .nil
  | @cons token _ _ _ first more ih =>
      cases first with
      | refl =>
          cases token with
          | raw b =>
              rw [Spelling.trim, Spelling.trim]
              split
              · exact ih
              · exact .cons (.refl _) more
          | escape | braced | bare | fold => exact .cons (.refl _) more
      | braces name => exact .cons (.braces name) more
      | indent before after => exact .cons (.indent before after) more

end Spelling.Reformats

/-- The spaces around the `=` may be any. -/
structure Assignment.Reformats (defined other : Assignment) : Prop where
  name : other.name = defined.name
  value : defined.value.Reformats other.value

namespace Assignment.Reformats

variable {defined other : Assignment}

theorem refl (defined : Assignment) : defined.Reformats defined := ⟨rfl, .refl _⟩

theorem wellFormed (h : defined.Reformats other) (valid : defined.WellFormed) : other.WellFormed :=
  ⟨h.name ▸ valid.1, h.value.wellFormed valid.2⟩

theorem binding_eq (h : defined.Reformats other) : other.binding = defined.binding := by
  rw [Assignment.binding, Assignment.binding, h.name, h.value.trim.template_eq]

end Assignment.Reformats

inductive PathList.Reformats : PathList → PathList → Prop where
  | tail (gap : Nat) (folds : List Nat) : Reformats (.tail gap folds) (.tail gap folds)
  | path (gap : Nat) {spelling other : Spelling} {more further : PathList}
      (first : spelling.Reformats other) (others : Reformats more further) :
      Reformats (.path gap spelling more) (.path gap other further)

namespace PathList.Reformats

variable {list other : PathList}

theorem refl (list : PathList) : list.Reformats list := by
  induction list with
  | tail gap folds => exact .tail gap folds
  | path gap spelling more ih => exact .path gap (.refl spelling) ih

theorem head?_text (h : list.Reformats other) : other.text.head? = list.text.head? := by
  induction h with
  | tail => rfl
  | path gap first _ ih => exact head?_append_congr rfl (head?_append_congr first.head?_text ih)

theorem templates_eq (h : list.Reformats other) : other.templates = list.templates := by
  induction h with
  | tail => rfl
  | path gap first _ ih => rw [PathList.templates, PathList.templates, first.template_eq, ih]

theorem wellFormed {next : Option UInt8} (h : list.Reformats other)
    (valid : list.WellFormed next) : other.WellFormed next := by
  induction h with
  | tail => trivial
  | path gap first others ih =>
      obtain ⟨content, spelled, ends, more⟩ := valid
      rw [← others.head?_text] at spelled ends
      exact ⟨first.not_isBlank content, first.wellFormed spelled, ends, ih more⟩

end PathList.Reformats

/-- The mark of a list stays where it is. -/
def ReformatsMarked : Option PathList → Option PathList → Prop :=
  Option.Rel PathList.Reformats

namespace ReformatsMarked

variable {list other : Option PathList}

theorem refl (list : Option PathList) : ReformatsMarked list list := by
  cases list with
  | none => exact .none
  | some list => exact .some (.refl list)

theorem head?_marked (h : ReformatsMarked list other) (mark : Bytes) :
    (marked mark other).head? = (marked mark list).head? := by
  cases h with
  | none => rfl
  | some paths => exact head?_append_congr rfl paths.head?_text

theorem templates_eq (h : ReformatsMarked list other) :
    markedTemplates other = markedTemplates list := by
  cases h with
  | none => rfl
  | some paths => exact paths.templates_eq

/-- Whatever holds of a list and of all its reformattings also holds behind its mark. -/
theorem forall_mem {p q : PathList → Prop} (h : ReformatsMarked list other)
    (keeps : ∀ paths further : PathList, paths.Reformats further → p paths → q further)
    (all : ∀ paths ∈ list, p paths) : ∀ paths ∈ other, q paths := by
  cases h with
  | none => simp
  | some paths => simpa using keeps _ _ paths (all _ rfl)

end ReformatsMarked

structure BuildLine.Reformats (line other : BuildLine) : Prop where
  outputs : line.outputs.Reformats other.outputs
  gap : other.gap = line.gap
  rule : other.rule = line.rule
  inputs : line.inputs.Reformats other.inputs
  implicit : ReformatsMarked line.implicit other.implicit
  orderOnly : ReformatsMarked line.orderOnly other.orderOnly

namespace BuildLine.Reformats

variable {line other : BuildLine}

theorem refl (line : BuildLine) : line.Reformats line :=
  ⟨.refl _, rfl, rfl, .refl _, .refl _, .refl _⟩

theorem content_eq (h : line.Reformats other) : other.content = line.content := by
  rw [BuildLine.content, BuildLine.content, h.rule, h.outputs.templates_eq, h.inputs.templates_eq,
    h.implicit.templates_eq, h.orderOnly.templates_eq]

theorem head?_orderOnlyText (h : line.Reformats other) :
    other.orderOnlyText.head? = line.orderOnlyText.head? :=
  head?_append_congr (h.orderOnly.head?_marked _) rfl

theorem head?_implicitText (h : line.Reformats other) :
    other.implicitText.head? = line.implicitText.head? :=
  head?_append_congr (h.implicit.head?_marked _) h.head?_orderOnlyText

theorem head?_text (h : line.Reformats other) : other.text.head? = line.text.head? :=
  head?_append_congr h.outputs.head?_text rfl

theorem wellFormed (h : line.Reformats other) (valid : line.WellFormed) : other.WellFormed where
  outputs := h.outputs.wellFormed valid.outputs
  rule := h.rule ▸ valid.rule
  rule_stops := by
    rw [head?_append_congr h.inputs.head?_text h.head?_implicitText]
    exact valid.rule_stops
  inputs := by
    rw [h.head?_implicitText]
    exact h.inputs.wellFormed valid.inputs
  implicit := by
    refine h.implicit.forall_mem (fun paths further same wellFormed => ?_) valid.implicit
    rw [head?_append_congr same.head?_text h.head?_orderOnlyText, h.head?_orderOnlyText]
    exact ⟨wellFormed.1, same.wellFormed wellFormed.2⟩
  orderOnly := h.orderOnly.forall_mem (fun _ _ same => same.wellFormed) valid.orderOnly

end BuildLine.Reformats

inductive Statement.Reformats : Statement → Statement → Prop where
  | assignment {defined other : Assignment} (same : defined.Reformats other) :
      Reformats (.assignment defined) (.assignment other)
  | rule (gap : Nat) (name : Name) (after : Nat) :
      Reformats (.rule gap name after) (.rule gap name after)
  | default (gap : Nat) {path other : Spelling} (same : path.Reformats other) (after : Nat) :
      Reformats (.default gap path after) (.default gap other after)
  | build {line other : BuildLine} (same : line.Reformats other) :
      Reformats (.build line) (.build other)

namespace Statement.Reformats

variable {statement other : Statement}

theorem refl (statement : Statement) : statement.Reformats statement := by
  cases statement with
  | assignment defined => exact .assignment (.refl defined)
  | rule gap name after => exact .rule gap name after
  | default gap path after => exact .default gap (.refl path) after
  | build line => exact .build (.refl line)

theorem content_eq (h : statement.Reformats other) : other.content = statement.content := by
  cases h with
  | assignment same => exact congrArg BuildFile.Statement.assignment same.binding_eq
  | rule => rfl
  | default gap same => exact congrArg BuildFile.Statement.default same.template_eq
  | build same => exact congrArg BuildFile.Statement.build same.content_eq

theorem wellFormed (h : statement.Reformats other) (valid : statement.WellFormed) :
    other.WellFormed := by
  cases h with
  | assignment same => exact ⟨same.wellFormed valid.1, same.name ▸ valid.2⟩
  | rule => exact valid
  | default gap same =>
      obtain ⟨stops, content, spelled⟩ := valid
      refine ⟨?_, same.not_isBlank content, same.wellFormed spelled⟩
      rwa [head?_append_congr rfl same.head?_text]
  | build same =>
      obtain ⟨stops, line⟩ := valid
      exact ⟨by rwa [same.head?_text], same.wellFormed line⟩

end Statement.Reformats

/-- All indentations may be any, as long as there is one. -/
inductive BlockLine.Reformats : BlockLine → BlockLine → Prop where
  | blank (before after : Nat) : Reformats (.blank before) (.blank after)
  | comment (before after : Nat) (remark : Bytes) :
      Reformats (.comment before remark) (.comment after remark)
  | binding (before after : Nat) {defined other : Assignment} (same : defined.Reformats other) :
      Reformats (.binding before defined) (.binding after other)

namespace BlockLine.Reformats

variable {line other : BlockLine}

theorem refl (line : BlockLine) : line.Reformats line := by
  cases line with
  | blank indent => exact .blank indent indent
  | comment indent remark => exact .comment indent indent remark
  | binding indent defined => exact .binding indent indent (.refl defined)

theorem wellFormed (h : line.Reformats other) (valid : line.WellFormed) : other.WellFormed := by
  cases h with
  | blank | comment => exact valid
  | binding before after same => exact same.wellFormed valid

theorem binding?_eq (h : line.Reformats other) : other.binding? = line.binding? := by
  cases h with
  | blank | comment => rfl
  | binding before after same => exact congrArg some same.binding_eq

end BlockLine.Reformats

/-- A line that defines nothing. -/
def BlockLine.IsExtra (line : BlockLine) : Prop := line.WellFormed ∧ line.binding? = none

/-- Lines that define nothing may be inserted anywhere in a block. -/
def Block.Reformats : Block → Block → Prop :=
  Inserts BlockLine.Reformats BlockLine.IsExtra

namespace Block.Reformats

variable {block other : Block}

theorem refl (block : Block) : block.Reformats block :=
  Inserts.refl BlockLine.Reformats.refl block

theorem wellFormed (h : block.Reformats other) (valid : block.WellFormed) : other.WellFormed :=
  h.forall_mem (·.wellFormed) (·.1) valid

theorem bindings_eq (h : block.Reformats other) : other.bindings = block.bindings :=
  h.filterMap_eq (·.binding?_eq) (·.2)

end Block.Reformats

/-- Lines are inserted into the block of a statement only if it opens one. -/
inductive Element.Reformats : Element → Element → Prop where
  | blank : Reformats .blank .blank
  | comment (remark : Bytes) : Reformats (.comment remark) (.comment remark)
  | declaration {statement other : Statement} {block further : Block}
      (same : statement.Reformats other) (lines : block.Reformats further)
      (opens : statement.content.opensBlock = false → further = []) :
      Reformats (.declaration statement block) (.declaration other further)

namespace Element.Reformats

variable {element other : Element}

theorem refl {element : Element} (valid : element.WellFormed) : element.Reformats element := by
  cases element with
  | blank => exact .blank
  | comment remark => exact .comment remark
  | declaration statement block => exact .declaration (.refl statement) (.refl block) valid.2.2

theorem wellFormed (h : element.Reformats other) (valid : element.WellFormed) :
    other.WellFormed := by
  cases h with
  | blank | comment => exact valid
  | declaration same lines opens =>
      refine ⟨same.wellFormed valid.1, lines.wellFormed valid.2.1, ?_⟩
      rwa [same.content_eq]

theorem declaration?_eq (h : element.Reformats other) :
    other.declaration? = element.declaration? := by
  cases h with
  | blank | comment => rfl
  | declaration same lines =>
      rw [Element.declaration?, Element.declaration?, same.content_eq, lines.bindings_eq]

end Element.Reformats

/-- A blank line or a comment. -/
def Element.IsExtra (element : Element) : Prop :=
  element.WellFormed ∧ element.declaration? = none

/-- Blank lines and comments may be inserted in front of every element, and at the end. -/
def File.Reformats : File → File → Prop :=
  Inserts Element.Reformats Element.IsExtra

namespace File.Reformats

variable {file other : File}

theorem wellFormed (h : file.Reformats other) (valid : file.WellFormed) : other.WellFormed :=
  h.forall_mem (·.wellFormed) (·.1) valid

theorem declarations_eq (h : file.Reformats other) : other.declarations = file.declarations :=
  h.filterMap_eq (·.declaration?_eq) (·.2)

end File.Reformats

end BuildFile.Written

namespace BuildFile.Manifest

open Written

/-- The first text is written in some way that can be reformatted to the second one: by braces, by
    other numbers of spaces around `=` and in front of the lines of blocks, and by blank lines and
    comments, which are indented within a block and are not between the elements of a file. -/
def Reformats (text other : Bytes) : Prop :=
  ∃ file further : File, file.WellFormed ∧ file.text = text ∧ file.Reformats further ∧
    further.text = other

theorem extend_file {file : File} (valid : file.WellFormed) (manifest : Manifest) :
    manifest.extend file.text = .ok (manifest.append (ofEntries
      (Declaration.evaluateAll manifest.globals file.declarations))) :=
  extend_eq_ok_iff.2 ⟨file, valid, rfl, rfl⟩

theorem Reformats.extend_eq {text other : Bytes} (h : Reformats text other) (manifest : Manifest) :
    manifest.extend other = manifest.extend text := by
  obtain ⟨file, further, valid, rfl, same, rfl⟩ := h
  rw [extend_file valid, extend_file (same.wellFormed valid), same.declarations_eq]

/-- However often an accepted text is reformatted, it is accepted with the same manifest. -/
theorem parse_of_reformats {text other : Bytes} {manifest : Manifest}
    (h : Relation.ReflTransGen Reformats text other) (accepted : parse text = .ok manifest) :
    parse other = .ok manifest := by
  induction h with
  | refl => exact accepted
  | tail _ last ih => exact (last.extend_eq {}).trans ih

/-- A file with as few spaces and braces as it can have. -/
def denseFile : File :=
  [.declaration (.assignment ⟨ascii "v", 0, 0, [.raw Byte.slash, .bare (ascii "a")]⟩) [],
    .declaration (.rule 0 (ascii "cc") 0)
      [.binding 0 ⟨ascii "command", 0, 0, [.bare (ascii "v"), .fold 0, .bare (ascii "in")]⟩],
    .declaration (.default 1 [.bare (ascii "v")] 0) []]

/-- The same with braces, and with spaces where there may be some. -/
def spacedFile : File :=
  [.declaration (.assignment ⟨ascii "v", 1, 1, [.raw Byte.slash, .braced (ascii "a")]⟩) [],
    .declaration (.rule 0 (ascii "cc") 0)
      [.binding 3 ⟨ascii "command", 1, 2, [.braced (ascii "v"), .fold 4, .bare (ascii "in")]⟩],
    .declaration (.default 1 [.braced (ascii "v")] 0) []]

/-- The same with lines that do not count. -/
def commentedFile : File :=
  [.comment (ascii "x"),
    .declaration (.assignment ⟨ascii "v", 1, 1, [.raw Byte.slash, .braced (ascii "a")]⟩) [],
    .declaration (.rule 0 (ascii "cc") 0)
      [.comment 1 (ascii "y"),
        .binding 3 ⟨ascii "command", 1, 2, [.braced (ascii "v"), .fold 4, .bare (ascii "in")]⟩,
        .blank 0],
    .declaration (.default 1 [.braced (ascii "v")] 0) [], .blank]

theorem wellFormed_denseFile : denseFile.WellFormed := by
  have rule : IsName (ascii "cc") := by decide
  have command : Assignment.WellFormed
      ⟨ascii "command", 0, 0, [.bare (ascii "v"), .fold 0, .bare (ascii "in")]⟩ :=
    ⟨by decide, by decide⟩
  refine List.forall_mem_cons.2 ⟨⟨⟨⟨by decide, by decide⟩, by decide⟩, nofun, fun _ => rfl⟩, ?_⟩
  refine List.forall_mem_cons.2 ⟨⟨rule, List.forall_mem_singleton.2 command, nofun⟩, ?_⟩
  exact List.forall_mem_singleton.2 ⟨⟨by decide, by decide, by decide⟩, nofun, fun _ => rfl⟩

theorem reformats_spacedFile : denseFile.Reformats spacedFile := by
  refine .keep (.declaration (.assignment ⟨rfl, ?_⟩) .nil fun _ => rfl) (.keep
    (.declaration (.rule ..) (.keep (.binding _ _ ⟨rfl, ?_⟩) .nil) nofun)
    (.keep (.declaration (.default _ ?_ _) .nil fun _ => rfl) .nil))
  · exact .cons (.refl _) (.cons (.braces _) .nil)
  · exact .cons (.braces _) (.cons (.indent ..) (.cons (.refl _) .nil))
  · exact .cons (.braces _) .nil

theorem reformats_commentedFile (valid : spacedFile.WellFormed) :
    spacedFile.Reformats commentedFile := by
  refine .insert ⟨?_, rfl⟩ (.keep (.refl (valid _ (by simp [spacedFile]))) (.keep
    (.declaration (.refl _)
      (.insert ⟨?_, rfl⟩ (.keep (.refl _) (.insert ⟨trivial, rfl⟩ .nil))) nofun)
    (.keep (.refl (valid _ (by simp [spacedFile]))) (.insert ⟨trivial, rfl⟩ .nil))))
  · exact (by decide : Byte.newline ∉ ascii "x")
  · exact (by decide : Byte.newline ∉ ascii "y")

theorem parse_of_reformats_commented :
    ascii "v=/$a\nrule cc\n command=$v$\n$in\ndefault $v\n" = denseFile.text ∧
      Relation.ReflTransGen Reformats denseFile.text commentedFile.text ∧
      parse commentedFile.text = .ok {
        globals := [(ascii "v", ascii "/")]
        rules := [⟨ascii "cc",
          [⟨ascii "command", [.reference (ascii "v"), .reference (ascii "in")]⟩]⟩]
        defaults := [ascii "/"] } := by
  have dense := wellFormed_denseFile
  have spaced := reformats_spacedFile.wellFormed dense
  have first : Reformats denseFile.text spacedFile.text :=
    ⟨_, _, dense, rfl, reformats_spacedFile, rfl⟩
  have second : Reformats spacedFile.text commentedFile.text :=
    ⟨_, _, spaced, rfl, reformats_commentedFile spaced, rfl⟩
  have both := Relation.ReflTransGen.tail (.single first) second
  exact ⟨by decide, both, parse_of_reformats both (extend_file dense {})⟩

end BuildFile.Manifest
