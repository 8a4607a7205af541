import BuildFile.OutputIndex
import Mathlib.Data.List.Infix
import Mathlib.Order.Bounds.Basic

/-! # First producers

The index is filled by going through the outputs of all edges, in the order in which they stand.
At each point of the way it lists the outputs that have been met, in the order in which they were
met first, and the edge where that was. So it leads from each output to the first edge that makes
it, and more edges behind the others change nothing of what is listed.
-/

namespace BuildFile.OutputIndex

/-- The outputs that are listed, in order. -/
def keys (index : OutputIndex) : List Bytes := index.map (·.1)

/-- The numbers of the edges that outputs are listed with, in order. -/
def numbers (index : OutputIndex) : List Nat := index.map (·.2)

@[simp]
theorem keys_append (first second : OutputIndex) :
    keys (first ++ second) = first.keys ++ second.keys := List.map_append

@[simp]
theorem keys_singleton (entry : Bytes × Nat) : keys [entry] = [entry.1] := rfl

@[simp]
theorem producer?_nil (output : Bytes) : producer? [] output = none := rfl

theorem producer?_cons (entry : Bytes × Nat) (index : OutputIndex) (output : Bytes) :
    producer? (entry :: index) output =
      if entry.1 = output then some entry.2 else index.producer? output := by
  by_cases h : entry.1 = output <;> simp [producer?, h]

theorem producer?_append (first second : OutputIndex) (output : Bytes) :
    producer? (first ++ second) output = (first.producer? output).or (second.producer? output) := by
  simp [producer?, List.find?_append, Option.map_or]

theorem isSome_producer?_iff {index : OutputIndex} {output : Bytes} :
    (index.producer? output).isSome ↔ output ∈ index.keys := by
  simp [producer?, keys]

theorem producer?_eq_some_iff_of_nodup {index : OutputIndex} (nodup : index.keys.Nodup)
    {output : Bytes} {edge : Nat} :
    index.producer? output = some edge ↔ (output, edge) ∈ index := by
  induction index with
  | nil => simp
  | cons entry index ih =>
      obtain ⟨fresh, others⟩ := List.nodup_cons.1 nodup
      rw [producer?_cons, List.mem_cons]
      by_cases same : entry.1 = output
      · have unlisted : (output, edge) ∉ index := by
          intro member
          exact fresh (List.mem_map.2 ⟨_, member, same.symm⟩)
        simp [Prod.ext_iff, same, unlisted, eq_comm]
      · simp [Prod.ext_iff, same, Ne.symm same, ih others]

/-- Where the numbers of edges do not go down, an output is found with the least of its numbers. -/
theorem producer?_eq_some_iff_isLeast {met : List (Bytes × Nat)}
    (inOrder : met.Pairwise fun entry later => entry.2 ≤ later.2) {output : Bytes} {edge : Nat} :
    producer? met output = some edge ↔ IsLeast {i | (output, i) ∈ met} edge := by
  induction met with
  | nil => simp [IsLeast]
  | cons entry met ih =>
      obtain ⟨first, others⟩ := List.pairwise_cons.1 inOrder
      rw [producer?_cons]
      by_cases same : entry.1 = output
      · subst same
        have least : IsLeast {i | (entry.1, i) ∈ entry :: met} entry.2 := by
          refine ⟨List.mem_cons_self, fun i member => ?_⟩
          obtain same | later := List.mem_cons.1 member
          · exact (congrArg Prod.snd same).ge
          · exact first _ later
        rw [if_pos rfl, Option.some_inj]
        exact ⟨fun h => h ▸ least, fun h => least.unique h⟩
      · rw [if_neg same, ih others]
        simp [Prod.ext_iff, Ne.symm same]

theorem note_of_mem {index : OutputIndex} {output : Bytes} (known : output ∈ index.keys)
    (edge : Nat) : index.note output edge = index := by
  simp [note, isSome_producer?_iff, known]

theorem note_of_notMem {index : OutputIndex} {output : Bytes} (fresh : output ∉ index.keys)
    (edge : Nat) : index.note output edge = index ++ [(output, edge)] := by
  simp [note, isSome_producer?_iff, fresh]

/-- Noting an output adds at most one entry, behind the others. -/
theorem prefix_note (index : OutputIndex) (output : Bytes) (edge : Nat) :
    index <+: index.note output edge := by
  by_cases known : output ∈ index.keys
  · simp [note_of_mem known]
  · simp [note_of_notMem known]

/-- Note one output after another. -/
def noteAll (index : OutputIndex) (met : List (Bytes × Nat)) : OutputIndex :=
  met.foldl (fun index entry => index.note entry.1 entry.2) index

theorem noteAll_cons (index : OutputIndex) (entry : Bytes × Nat) (met : List (Bytes × Nat)) :
    index.noteAll (entry :: met) = (index.note entry.1 entry.2).noteAll met := rfl

theorem noteAll_append (index : OutputIndex) (met further : List (Bytes × Nat)) :
    index.noteAll (met ++ further) = (index.noteAll met).noteAll further := List.foldl_append

theorem prefix_noteAll (index : OutputIndex) (met : List (Bytes × Nat)) :
    index <+: index.noteAll met := by
  induction met generalizing index with
  | nil => exact List.prefix_rfl
  | cons entry met ih => exact (prefix_note index entry.1 entry.2).trans (ih _)

/-- Of two texts, one occurs before the other one does. -/
def OccursBefore (texts : List Bytes) (first second : Bytes) : Prop :=
  texts.idxOf first < texts.idxOf second

/-- An index of what has been met: its entries are met in this order, an output is listed before
    those that occur later, and it has the edge that it was met with first. -/
structure Lists (met : List (Bytes × Nat)) (index : OutputIndex) : Prop where
  sublist : index.Sublist met
  ordered : index.keys.Pairwise (OccursBefore (keys met))
  producer?_eq : ∀ output, index.producer? output = producer? met output

theorem lists_nil : Lists [] [] :=
  ⟨List.Sublist.refl _, List.Pairwise.nil, fun _ => rfl⟩

section Lists

variable {met : List (Bytes × Nat)} {index : OutputIndex}

theorem Lists.mem_keys_iff (h : Lists met index) {output : Bytes} :
    output ∈ index.keys ↔ output ∈ keys met := by
  rw [← isSome_producer?_iff, h.producer?_eq, isSome_producer?_iff]

theorem Lists.nodup (h : Lists met index) : index.keys.Nodup :=
  h.ordered.imp fun before => by
    rintro rfl
    exact lt_irrefl _ before

/-- Outputs that have been met keep their order. -/
theorem Lists.ordered_concat (h : Lists met index) (output : Bytes) (edge : Nat) :
    index.keys.Pairwise (OccursBefore (keys (met ++ [(output, edge)]))) := by
  apply h.ordered.imp_of_mem
  intro first second inFirst inSecond before
  rw [h.mem_keys_iff] at inFirst inSecond
  simpa only [OccursBefore, keys_append, List.idxOf_append_of_mem inFirst,
    List.idxOf_append_of_mem inSecond] using before

/-- An output that was met before keeps its entry. -/
theorem Lists.again (h : Lists met index) {output : Bytes} (known : output ∈ index.keys)
    (edge : Nat) : Lists (met ++ [(output, edge)]) index := by
  refine ⟨h.sublist.trans (List.sublist_append_left _ _), h.ordered_concat output edge, ?_⟩
  intro other
  rw [producer?_append, ← h.producer?_eq]
  by_cases same : output = other
  · subst same
    obtain ⟨first, found⟩ := Option.isSome_iff_exists.1 (isSome_producer?_iff.2 known)
    simp [found]
  · simp [producer?_cons, same]

/-- An output that is met for the first time comes behind all others. -/
theorem Lists.concat (h : Lists met index) {output : Bytes} (fresh : output ∉ index.keys)
    (edge : Nat) : Lists (met ++ [(output, edge)]) (index ++ [(output, edge)]) := by
  refine ⟨h.sublist.append (List.Sublist.refl _), ?_, ?_⟩
  · rw [keys_append index, List.pairwise_append]
    refine ⟨h.ordered_concat output edge, List.pairwise_singleton _ _, ?_⟩
    simp only [keys_singleton, List.mem_singleton]
    rintro first inFirst _ rfl
    rw [h.mem_keys_iff] at inFirst fresh
    have within : (keys met).idxOf first < (keys met).length := List.idxOf_lt_length_of_mem inFirst
    simp only [OccursBefore, keys_append, List.idxOf_append_of_mem inFirst,
      List.idxOf_append_of_notMem fresh]
    omega
  · intro other
    rw [producer?_append, producer?_append, h.producer?_eq]

theorem Lists.note (h : Lists met index) (output : Bytes) (edge : Nat) :
    Lists (met ++ [(output, edge)]) (index.note output edge) := by
  by_cases known : output ∈ index.keys
  · rw [note_of_mem known]
    exact h.again known edge
  · rw [note_of_notMem known]
    exact h.concat known edge

theorem Lists.noteAll (h : Lists met index) (further : List (Bytes × Nat)) :
    Lists (met ++ further) (index.noteAll further) := by
  induction further generalizing met index with
  | nil => rwa [List.append_nil]
  | cons entry further ih =>
      rw [noteAll_cons, List.append_cons]
      exact ih (h.note entry.1 entry.2)

/-- An output is looked up at its entry, since it has no other one. -/
theorem Lists.mem_iff (h : Lists met index) {output : Bytes} {edge : Nat} :
    (output, edge) ∈ index ↔ producer? met output = some edge := by
  rw [← h.producer?_eq, producer?_eq_some_iff_of_nodup h.nodup]

end Lists

/-- All outputs in order, each with the number of its edge. The first edge has a given number. -/
def numberedFrom (first : Nat) (outputs : List (List Bytes)) : List (Bytes × Nat) :=
  (outputs.zipIdx first).flatMap fun (made, edge) => made.map (·, edge)

theorem numberedFrom_cons (first : Nat) (made : List Bytes) (outputs : List (List Bytes)) :
    numberedFrom first (made :: outputs) =
      made.map (·, first) ++ numberedFrom (first + 1) outputs := by
  simp [numberedFrom]

theorem numberedFrom_append (first : Nat) (outputs further : List (List Bytes)) :
    numberedFrom first (outputs ++ further) =
      numberedFrom first outputs ++ numberedFrom (first + outputs.length) further := by
  simp [numberedFrom, List.zipIdx_append]

theorem keys_numberedFrom (first : Nat) (outputs : List (List Bytes)) :
    keys (numberedFrom first outputs) = outputs.flatten := by
  induction outputs generalizing first with
  | nil => rfl
  | cons made outputs ih =>
      rw [numberedFrom_cons, keys_append, ih, List.flatten_cons]
      simp [keys, Function.comp_def]

theorem mem_numberedFrom_iff {first edge : Nat} {output : Bytes} {outputs : List (List Bytes)} :
    (output, edge) ∈ numberedFrom first outputs ↔
      first ≤ edge ∧ ∃ made, outputs[edge - first]? = some made ∧ output ∈ made := by
  simp [numberedFrom, List.mk_mem_zipIdx_iff_le_and_getElem?_sub, and_assoc]

theorem pairwise_numberedFrom (first : Nat) (outputs : List (List Bytes)) :
    (numberedFrom first outputs).Pairwise fun entry other => entry.2 ≤ other.2 := by
  induction outputs generalizing first with
  | nil => exact .nil
  | cons made outputs ih =>
      rw [numberedFrom_cons, List.pairwise_append]
      refine ⟨List.pairwise_map.2 (List.pairwise_of_forall fun _ _ => Nat.le_refl _), ih _, ?_⟩
      rintro ⟨output, edge⟩ inFirst ⟨other, later⟩ inLater
      have := (mem_numberedFrom_iff.1 inLater).1
      simp at inFirst ⊢
      omega

theorem ofOutputs_eq (outputs : List (List Bytes)) :
    ofOutputs outputs = noteAll [] (numberedFrom 0 outputs) := by
  simp [ofOutputs, noteAll, numberedFrom, List.foldl_flatMap, List.foldl_map]

theorem lists_ofOutputs (outputs : List (List Bytes)) :
    Lists (numberedFrom 0 outputs) (ofOutputs outputs) := by
  rw [ofOutputs_eq]
  exact lists_nil.noteAll _

/-- An output leads to the first edge that makes it. -/
theorem producer?_ofOutputs_eq_some_iff {outputs : List (List Bytes)} {output : Bytes}
    {edge : Nat} :
    (ofOutputs outputs).producer? output = some edge ↔
      IsLeast {i | ∃ made, outputs[i]? = some made ∧ output ∈ made} edge := by
  rw [(lists_ofOutputs outputs).producer?_eq,
    producer?_eq_some_iff_isLeast (pairwise_numberedFrom 0 outputs)]
  simp only [mem_numberedFrom_iff, Nat.zero_le, true_and, Nat.sub_zero]

theorem exists_producer?_ofOutputs_iff {outputs : List (List Bytes)} {output : Bytes} :
    (∃ edge, (ofOutputs outputs).producer? output = some edge) ↔
      ∃ made ∈ outputs, output ∈ made := by
  rw [← Option.isSome_iff_exists, isSome_producer?_iff, (lists_ofOutputs outputs).mem_keys_iff,
    keys_numberedFrom, List.mem_flatten]

/-- The index lists every output once, in the order in which outputs occur first, and with the
    first edge that makes it. The numbers of these edges do not go down, and more edges behind the
    others only lead to more entries behind the others. -/
theorem lists_first_producers (edges : List Edge) :
    (ofEdges edges).keys.Nodup ∧
      (∀ output, output ∈ (ofEdges edges).keys ↔ ∃ edge ∈ edges, output ∈ edge.outputs) ∧
      (ofEdges edges).keys.Pairwise (OccursBefore (edges.flatMap (·.outputs))) ∧
      (∀ output number, (output, number) ∈ ofEdges edges ↔
        IsLeast {i | ∃ edge, edges[i]? = some edge ∧ output ∈ edge.outputs} number) ∧
      (ofEdges edges).numbers.Pairwise (· ≤ ·) ∧
      ∀ further, ofEdges edges <+: ofEdges (edges ++ further) := by
  have lists : Lists (numberedFrom 0 (edges.map (·.outputs))) (ofEdges edges) := lists_ofOutputs _
  have inOrder := pairwise_numberedFrom 0 (edges.map (·.outputs))
  have met : keys (numberedFrom 0 (edges.map (·.outputs))) = edges.flatMap (·.outputs) :=
    keys_numberedFrom 0 _
  refine ⟨lists.nodup, fun output => ?_, ?_, fun output number => ?_, ?_, fun further => ?_⟩
  · rw [lists.mem_keys_iff, met, List.mem_flatMap]
  · rw [← met]
    exact lists.ordered
  · rw [lists.mem_iff, producer?_eq_some_iff_isLeast inOrder]
    simp [mem_numberedFrom_iff]
  · exact List.pairwise_map.2 (inOrder.sublist lists.sublist)
  · simp only [ofEdges, ofOutputs_eq, List.map_append, numberedFrom_append, noteAll_append]
    exact prefix_noteAll _ _

/-- An output that is made twice, in one edge and in two. -/
example : ofOutputs [[ascii "a", ascii "b", ascii "a"], [ascii "c", ascii "b"], [ascii "a"]] =
    [(ascii "a", 0), (ascii "b", 0), (ascii "c", 1)] := by decide

end BuildFile.OutputIndex
