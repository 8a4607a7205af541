import BuildFile.Bytes

/-! # Items put between others

A list may be changed item by item, with further items put in front of, between and behind those
that it has. What only depends on the items that count is then the same.
-/

namespace BuildFile

/-- Each item becomes one that is `same`, in the same order, and `extra` items are put anywhere. -/
inductive Inserts {α : Type} (same : α → α → Prop) (extra : α → Prop) : List α → List α → Prop where
  | nil : Inserts same extra [] []
  | keep {item other : α} {items others : List α} (first : same item other)
      (rest : Inserts same extra items others) :
    Inserts same extra (item :: items) (other :: others)
  | insert {item : α} {items others : List α} (added : extra item)
      (rest : Inserts same extra items others) : Inserts same extra items (item :: others)

namespace Inserts

variable {α β : Type} {same : α → α → Prop} {extra : α → Prop} {items others : List α}

theorem refl (reflexive : ∀ item, same item item) (items : List α) :
    Inserts same extra items items := by
  induction items with
  | nil => exact .nil
  | cons item items ih => exact .keep (reflexive item) ih

theorem forall_mem {p : α → Prop} (h : Inserts same extra items others)
    (keeps : ∀ {item other}, same item other → p item → p other)
    (adds : ∀ {item}, extra item → p item) (all : ∀ item ∈ items, p item) :
    ∀ item ∈ others, p item := by
  induction h with
  | nil => exact all
  | keep first _ ih =>
      obtain ⟨holds, more⟩ := List.forall_mem_cons.1 all
      exact List.forall_mem_cons.2 ⟨keeps first holds, ih more⟩
  | insert added _ ih => exact List.forall_mem_cons.2 ⟨adds added, ih all⟩

theorem filterMap_eq {f : α → Option β} (h : Inserts same extra items others)
    (keeps : ∀ {item other}, same item other → f other = f item)
    (adds : ∀ {item}, extra item → f item = none) : others.filterMap f = items.filterMap f := by
  induction h with
  | nil => rfl
  | keep first _ ih => rw [List.filterMap_cons, List.filterMap_cons, keeps first, ih]
  | insert added _ ih => rw [List.filterMap_cons_none (adds added), ih]

end Inserts

end BuildFile
