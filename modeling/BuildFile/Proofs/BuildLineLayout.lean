import BuildFile.Proofs.StatementMoves
import BuildFile.Proofs.TemplateRoundTrip
import BuildFile.Proofs.Viability
import Mathlib.Tactic.MkIffOfInductiveProp

/-! # The lists of a build line

A build line has four lists of paths, of which only the marks between them tell where one ends and
the next one starts. Any line is taken apart again into the lists it was written from, wherever
there are spaces that need not be there, and wherever there are none that need not be there.
-/

namespace BuildFile

open Written

instance : DecidablePred Template.IsPushed := fun _ =>
  decidable_of_iff' _ Template.isPushed_iff

/-- A template that can stand as a path: it has content, and all of it can be written. -/
@[mk_iff]
structure Template.IsPath (template : Template) : Prop where
  nonempty : template ≠ []
  pushed : template.IsPushed
  fits : ∀ part ∈ template, part.Fits .path

instance : DecidablePred Template.IsPath := fun path =>
  decidable_of_iff' _ (Template.isPath_iff path)

theorem Template.IsPath.isReadable {path : Template} (h : path.IsPath) : IsReadable .path path :=
  isReadable_iff.2 ⟨h.pushed, h.fits⟩

theorem Template.joinText_ne_nil (text : Bytes) (template : Template) :
    joinText text template ≠ [] := by
  cases template with
  | nil => simp [joinText]
  | cons first rest => cases first <;> simp [joinText]

theorem Template.merge_eq_nil_iff {template : Template} : template.merge = [] ↔ template = [] := by
  cases template with
  | nil => simp [merge]
  | cons part rest => cases part <;> simp [merge, joinText_ne_nil]

theorem Template.IsPath.not_isBlank {path : Template} (h : path.IsPath) :
    ¬ (Spelling.ofTemplate path).IsBlank := by
  intro blank
  have nothing := Spelling.merge_template_ofTemplate h.isReadable
  rw [Spelling.template_eq_nil_iff.2 blank] at nothing
  exact h.nonempty (merge_eq_nil_iff.1 nothing.symm)

/-- No template starts with a byte that ends it. -/
theorem Written.stops_ends_text {context : Template.Context} {spelling : Spelling}
    {next : Option UInt8} (valid : spelling.WellFormed context next) (nonempty : spelling ≠ [])
    (after : Bytes) : Stops context.ends (spelling.text ++ after).head? := by
  cases spelling with
  | nil => exact absurd rfl nonempty
  | cons token rest =>
      cases token with
      | raw b =>
          have plain : context.isPlain b = true := valid.1
          simp only [Template.Context.isPlain, Bool.and_eq_true, Bool.not_eq_true'] at plain
          exact stops_some.2 plain.1
      | escape | braced | bare | fold => cases context <;> exact stops_some.2 rfl

/-- Paths with the number of spaces in front of each, and that of the spaces behind the last. -/
structure SpacedPaths where
  paths : List (Nat × Template)
  after : Nat
  deriving Repr, DecidableEq

namespace SpacedPaths

def templates (list : SpacedPaths) : List Template := list.paths.map Prod.snd

def text (list : SpacedPaths) : Bytes :=
  list.paths.flatMap (fun (gap, path) => spaces gap ++ path.write) ++ spaces list.after

/-- The text behind a mark, which stands there only if there are paths. -/
def markedText (mark : Bytes) (list : SpacedPaths) : Bytes :=
  if list.paths = [] then [] else mark ++ list.text

/-- There are spaces between the paths. -/
@[mk_iff]
structure WellFormed (list : SpacedPaths) : Prop where
  isPath : ∀ path ∈ list.templates, path.IsPath
  apart : ∀ entry ∈ list.paths.tail, 0 < entry.1

/-- There are spaces in front of the first path, if there is one. -/
def StartsApart (list : SpacedPaths) : Prop := ∀ entry ∈ list.paths.head?, 0 < entry.1

instance : DecidablePred WellFormed := fun list =>
  decidable_of_iff' _ (wellFormed_iff list)

instance : DecidablePred StartsApart := fun list =>
  inferInstanceAs (Decidable (∀ entry ∈ list.paths.head?, 0 < entry.1))

end SpacedPaths

/-- The line with neighbouring literals joined in every path. -/
def BuildLine.merge (line : BuildLine) : BuildLine where
  rule := line.rule
  outputs := line.outputs.map Template.merge
  explicitInputs := line.explicitInputs.map Template.merge
  implicitInputs := line.implicitInputs.map Template.merge
  orderOnlyInputs := line.orderOnlyInputs.map Template.merge

/-- A build line with all the spaces in it. Those in front of a mark or of the newline stand behind
    the list that comes before. -/
structure BuildLine.Layout where
  outputs : SpacedPaths
  gap : Nat
  rule : Name
  explicitInputs : SpacedPaths
  implicitInputs : SpacedPaths
  orderOnlyInputs : SpacedPaths
  deriving Repr, DecidableEq

namespace BuildLine.Layout

def text (line : Layout) : Bytes :=
  Keyword.build ++ (line.outputs.text ++ Byte.colon :: (spaces line.gap ++ (line.rule ++
    (line.explicitInputs.text ++ (line.implicitInputs.markedText [Byte.pipe] ++
      (line.orderOnlyInputs.markedText [Byte.pipe, Byte.pipe] ++ [Byte.newline]))))))

/-- What the line says. -/
def content (line : Layout) : BuildLine where
  rule := line.rule
  outputs := line.outputs.templates
  explicitInputs := line.explicitInputs.templates
  implicitInputs := line.implicitInputs.templates
  orderOnlyInputs := line.orderOnlyInputs.templates

/-- A path behind a word or another path has a space in front of it. All other spaces may be
    missing. -/
@[mk_iff]
structure WellFormed (line : Layout) : Prop where
  outputs : line.outputs.WellFormed
  behind_keyword : line.outputs.StartsApart
  rule : IsName line.rule
  explicitInputs : line.explicitInputs.WellFormed
  behind_rule : line.explicitInputs.StartsApart
  implicitInputs : line.implicitInputs.WellFormed
  orderOnlyInputs : line.orderOnlyInputs.WellFormed

instance : DecidablePred WellFormed := fun line =>
  decidable_of_iff' _ (wellFormed_iff line)

end BuildLine.Layout

namespace SpacedPaths

/-- The paths as they are spelled when they are written. -/
def spelled (after : Nat) : List (Nat × Template) → PathList
  | [] => .tail after []
  | (gap, path) :: rest => .path gap (Spelling.ofTemplate path) (spelled after rest)

def pathList (list : SpacedPaths) : PathList := spelled list.after list.paths

/-- The paths of a list that stands behind a mark, and none if there is no mark. -/
def pathList? (list : SpacedPaths) : Option PathList :=
  if list.paths = [] then none else some list.pathList

theorem text_pathList (list : SpacedPaths) : list.pathList.text = list.text := by
  obtain ⟨paths, after⟩ := list
  induction paths with
  | nil => simp [pathList, spelled, PathList.text, text]
  | cons entry rest ih =>
      rw [pathList, spelled, PathList.text, Spelling.text_ofTemplate]
      simp only [pathList] at ih
      simp [ih, text]

theorem marked_pathList? (mark : Bytes) (list : SpacedPaths) :
    marked mark list.pathList? = list.markedText mark := by
  unfold pathList? markedText
  split
  · rfl
  · rw [marked, text_pathList]

/-- What is read are the paths of the list, up to where their literals are cut. -/
theorem merge_templates_pathList {list : SpacedPaths}
    (isPath : ∀ path ∈ list.templates, path.IsPath) :
    list.pathList.templates.map Template.merge = list.templates.map Template.merge := by
  obtain ⟨paths, after⟩ := list
  induction paths with
  | nil => rfl
  | cons entry rest ih =>
      obtain ⟨first, others⟩ := List.forall_mem_cons.1 isPath
      simp only [pathList, spelled, PathList.templates, templates, List.map_cons]
      rw [Spelling.merge_template_ofTemplate first.isReadable]
      exact congrArg (_ :: ·) (ih others)

theorem merge_markedTemplates {list : SpacedPaths} (isPath : ∀ path ∈ list.templates, path.IsPath) :
    (markedTemplates list.pathList?).map Template.merge = list.templates.map Template.merge := by
  unfold pathList?
  split
  · next empty => simp [markedTemplates, templates, empty]
  · exact merge_templates_pathList isPath

theorem head?_of_startsApart {list : SpacedPaths} (apart : list.StartsApart) (next : Option UInt8) :
    list.text.head?.or next = some Byte.space ∨ list.text.head?.or next = next := by
  obtain ⟨paths, after⟩ := list
  cases paths with
  | nil => cases after <;> simp [text, spaces_succ]
  | cons entry rest =>
      obtain ⟨gap, same⟩ := Nat.exists_eq_add_one.2 (apart entry rfl)
      simp [text, same, spaces_succ]

/-- A word goes on neither into spaces nor into what follows the list. -/
theorem stops_of_startsApart {list : SpacedPaths} (apart : list.StartsApart) {after : Bytes}
    (stops : Stops Byte.isIdentifier after.head?) :
    Stops Byte.isIdentifier (list.pathList.text ++ after).head? := by
  rw [text_pathList, List.head?_append]
  obtain same | same := head?_of_startsApart apart after.head?
  · rw [same]
    exact stops_some.2 rfl
  · rwa [same]

theorem wellFormed_pathList {list : SpacedPaths} (valid : list.WellFormed) {next : Option UInt8}
    (delimits : Delimits next) : list.pathList.WellFormed next := by
  obtain ⟨paths, after⟩ := list
  obtain ⟨isPath, apart⟩ := valid
  induction paths with
  | nil => trivial
  | cons entry rest ih =>
      obtain ⟨first, others⟩ := List.forall_mem_cons.1 isPath
      let more : SpacedPaths := ⟨rest, after⟩
      have startsApart : more.StartsApart := fun entry member =>
        apart entry (List.mem_of_mem_head? member)
      have ends : Ends .path (more.pathList.text.head?.or next) := by
        rw [text_pathList]
        obtain same | same := head?_of_startsApart startsApart next
        · rw [same]
          rfl
        · rw [same]
          exact delimits.1
      refine ⟨?_, Spelling.wellFormed_ofTemplate _ first.isReadable, ends, ?_⟩
      · exact first.not_isBlank
      · exact ih others fun entry member => apart entry (List.mem_of_mem_tail member)

theorem wellFormed_of_mem_pathList? {list : SpacedPaths} (valid : list.WellFormed)
    {next : Option UInt8} (delimits : Delimits next) :
    ∀ other ∈ list.pathList?, other.WellFormed next := by
  intro other member
  unfold pathList? at member
  split at member
  · cases member
  · cases member
    exact wellFormed_pathList valid delimits

/-- No path starts with a mark, so one behind a single `|` does not make it look like two. -/
theorem stops_pipe_of_mem_pathList? {list : SpacedPaths}
    (isPath : ∀ path ∈ list.templates, path.IsPath) (after : Bytes) :
    ∀ other ∈ list.pathList?, Stops (· == Byte.pipe) (other.text ++ after).head? := by
  obtain ⟨paths, gap⟩ := list
  intro other member
  cases paths with
  | nil => cases member
  | cons entry rest =>
      cases member
      obtain ⟨first, path⟩ := entry
      have here : path.IsPath := isPath path List.mem_cons_self
      rw [pathList, spelled, PathList.text, List.append_assoc, List.append_assoc]
      cases first with
      | zero =>
          have valid := Spelling.wellFormed_ofTemplate none here.isReadable
          have inside := stops_ends_text valid (Spelling.ne_nil_of_not_isBlank here.not_isBlank)
          intro b next
          have open' := inside ((spelled gap rest).text ++ after) b next
          simp only [beq_eq_false_iff_ne]
          rintro rfl
          cases open'
      | succ n =>
          simp only [spaces_succ, List.cons_append, List.head?_cons, stops_some]
          rfl

end SpacedPaths

namespace BuildLine.Layout

variable {line : Layout}

/-- The line as it is spelled. -/
def written (line : Layout) : Written.BuildLine where
  outputs := line.outputs.pathList
  gap := line.gap
  rule := line.rule
  inputs := line.explicitInputs.pathList
  implicit := line.implicitInputs.pathList?
  orderOnly := line.orderOnlyInputs.pathList?

theorem text_written (line : Layout) : (Written.Statement.build line.written).text = line.text := by
  simp only [Written.Statement.text, Written.BuildLine.text, Written.BuildLine.implicitText,
    Written.BuildLine.orderOnlyText, written, SpacedPaths.text_pathList,
    SpacedPaths.marked_pathList?]
  rfl

theorem wellFormed_written (valid : line.WellFormed) :
    (Written.Statement.build line.written).WellFormed := by
  have implicitDelimits := delimits_implicitText line.written
  have orderOnlyDelimits := delimits_orderOnlyText line.written
  constructor
  · exact SpacedPaths.stops_of_startsApart valid.behind_keyword (stops_some.2 rfl)
  · exact {
      outputs := SpacedPaths.wellFormed_pathList valid.outputs delimits_colon
      rule := valid.rule
      rule_stops :=
        SpacedPaths.stops_of_startsApart valid.behind_rule implicitDelimits.stops_isIdentifier
      inputs := SpacedPaths.wellFormed_pathList valid.explicitInputs implicitDelimits
      implicit := fun list member =>
        ⟨SpacedPaths.stops_pipe_of_mem_pathList? valid.implicitInputs.isPath _ list member,
          SpacedPaths.wellFormed_of_mem_pathList? valid.implicitInputs orderOnlyDelimits list
            member⟩
      orderOnly :=
        SpacedPaths.wellFormed_of_mem_pathList? valid.orderOnlyInputs delimits_newline }

theorem merge_content_written (valid : line.WellFormed) :
    line.written.content.merge = line.content.merge := by
  simp only [BuildLine.merge, Written.BuildLine.content, written, content,
    SpacedPaths.merge_templates_pathList valid.outputs.isPath,
    SpacedPaths.merge_templates_pathList valid.explicitInputs.isPath,
    SpacedPaths.merge_markedTemplates valid.implicitInputs.isPath,
    SpacedPaths.merge_markedTemplates valid.orderOnlyInputs.isPath]

theorem readNext_text (valid : line.WellFormed) (rest : Bytes) :
    ∃ content : BuildLine, content.merge = line.content.merge ∧
      Statement.readNext (line.text ++ rest) = .done (some (.build content)) rest := by
  refine ⟨line.written.content, merge_content_written valid, ?_⟩
  rw [← text_written]
  exact readStatement_next (wellFormed_written valid) rest

end BuildLine.Layout

namespace Parser

/-- Every path of a build line is read into the list that it was written in, in the same order and
    up to where its literals are cut, and the parser is left behind the newline. -/
theorem build_line_keeps_lists (line : BuildLine.Layout) (valid : line.WellFormed)
    (parser : Parser) (rest : Bytes) (here : parser.cursor.rest = line.text ++ rest) :
    ∃ (content : BuildLine) (after : Parser),
      parser.nextStatement = (.ok (some (.build content)), after) ∧
      Reading.nextStatement parser.cursor = .done (some (.build content)) after.cursor ∧
      content.merge = line.content.merge ∧
      after.cursor.text = parser.cursor.text ∧ after.cursor.rest = rest ∧
      after.position = parser.position + line.text.length := by
  obtain ⟨content, same, found⟩ := BuildLine.Layout.readNext_text valid rest
  rw [← here] at found
  refine ⟨content, ⟨parser.cursor.moveTo rest⟩, ?_, ?_, same, rfl, Cursor.rest_moveTo_tail here,
    Cursor.position_moveTo here⟩
  · rw [nextStatement, step, found]
  · rw [Reading.follows_nextStatement.eq, Reading.ofScan_of_done found]

/-- A line of all four lists with as few spaces as there can be. -/
def denseLine : BuildLine.Layout where
  outputs := ⟨[(1, [.literal (ascii "a:b")])], 0⟩
  gap := 0
  rule := ascii "cc"
  explicitInputs := ⟨[(1, [.reference (ascii "x")]), (2, [.literal (ascii "c d")])], 0⟩
  implicitInputs := ⟨[(0, [.literal (ascii "e")])], 0⟩
  orderOnlyInputs := ⟨[(0, [.literal (ascii "f"), .reference (ascii "y")])], 0⟩

theorem build_line_keeps_lists_dense :
    denseLine.WellFormed ∧ denseLine.text = ascii "build a$:b:cc ${x}  c$ d|e||f${y}\n" ∧
    ∃ (content : BuildLine) (after : Parser),
      (Parser.start (denseLine.text ++ ascii "  v = 1\n")).nextStatement =
        (.ok (some (.build content)), after) ∧
      content.merge = denseLine.content ∧ after.position = 34 := by
  have valid : denseLine.WellFormed := by decide
  obtain ⟨content, after, found, -, same, -, -, place⟩ := build_line_keeps_lists denseLine valid
    (Parser.start (denseLine.text ++ ascii "  v = 1\n")) (ascii "  v = 1\n") rfl
  exact ⟨valid, by decide, content, after, found, same.trans (by decide), place.trans (by decide)⟩

end Parser

end BuildFile
