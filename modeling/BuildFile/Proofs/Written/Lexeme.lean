import BuildFile.Scan
import Mathlib.Data.List.TakeWhile

/-! # How the smallest pieces of a file are written

Names, runs of spaces, line ends and comments. Each reader is tied to the texts it takes:
it succeeds on exactly those, and leaves what follows. A run ends where the next byte does
not continue it, so what may follow is said of the next byte only, `none` being the end of
the file.
-/

namespace BuildFile.Written

open Scan

/-- The same as `bind_eq_done_iff`, for a scan that is given as a function of the input. -/
theorem bind_reader_eq_done_iff {α β : Type} {read : Bytes → Result α} {next : α → Scan β}
    {input rest : Bytes} {result : β} :
    (Bind.bind (m := Scan) read next) input = .done result rest ↔
      ∃ value middle, read input = .done value middle ∧ next value middle = .done result rest :=
  bind_eq_done_iff

theorem bind_reader_congr {α β : Type} {read other : Bytes → Result α} {next : α → Scan β}
    {first second : Bytes} (h : read first = other second) :
    (Bind.bind (m := Scan) read next) first = (Bind.bind (m := Scan) other next) second := by
  cases same : other second with
  | done value rest => exact (bind_of_done (h.trans same) next).trans (bind_of_done same next).symm
  | failed expected rest =>
      exact (bind_of_failed (h.trans same) next).trans (bind_of_failed same next).symm

/-- Two scans in a row fail if the first does, or the second behind it. -/
theorem bind_eq_failed_iff {α β : Type} {scan : Scan α} {next : α → Scan β}
    {input rest : Bytes} {expected : Expected} :
    (scan >>= next) input = .failed expected rest ↔
      scan input = .failed expected rest ∨
        ∃ value middle, scan input = .done value middle ∧
          next value middle = .failed expected rest := by
  rw [bind_apply]
  cases scan input with
  | failed => simp
  | done value middle =>
      constructor
      · intro h
        exact .inr ⟨value, middle, rfl, h⟩
      · intro h
        obtain h | ⟨_, _, same, h⟩ := h
        · cases h
        · cases same
          exact h

theorem bind_reader_eq_failed_iff {α β : Type} {read : Bytes → Result α} {next : α → Scan β}
    {input rest : Bytes} {expected : Expected} :
    (Bind.bind (m := Scan) read next) input = .failed expected rest ↔
      read input = .failed expected rest ∨
        ∃ value middle, read input = .done value middle ∧
          next value middle = .failed expected rest :=
  bind_eq_failed_iff

theorem map_eq_failed_iff {α β : Type} {f : α → β} {scan : Scan α} {input rest : Bytes}
    {expected : Expected} :
    (f <$> scan) input = .failed expected rest ↔ scan input = .failed expected rest := by
  have mapped : (f <$> scan) input = (scan >>= fun value => pure (f value)) input := rfl
  simp [mapped, bind_eq_failed_iff]

theorem map_eq_done_iff {α β : Type} {f : α → β} {scan : Scan α} {input rest : Bytes} {result : β} :
    (f <$> scan) input = .done result rest ↔
      ∃ value, scan input = .done value rest ∧ f value = result := by
  have mapped : (f <$> scan) input = (scan >>= fun value => pure (f value)) input := rfl
  simp [mapped, bind_eq_done_iff]

/-- The next byte does not continue a run of such bytes. -/
def Stops (p : UInt8 → Bool) (next : Option UInt8) : Prop :=
  ∀ b ∈ next, p b = false

@[simp]
theorem stops_none (p : UInt8 → Bool) : Stops p none := by simp [Stops]

@[simp]
theorem stops_some {p : UInt8 → Bool} {b : UInt8} : Stops p (some b) ↔ p b = false := by
  simp [Stops]

instance (p : UInt8 → Bool) : DecidablePred (Stops p)
  | none => isTrue (stops_none p)
  | some _ => decidable_of_iff' _ stops_some

theorem takeWhile_append_of_stops {p : UInt8 → Bool} {run after : Bytes}
    (inside : ∀ b ∈ run, p b = true) (stops : Stops p after.head?) :
    (run ++ after).takeWhile p = run := by
  rw [List.takeWhile_append_of_pos inside]
  cases after with
  | nil => simp
  | cons b rest =>
      simp only [List.head?_cons, stops_some] at stops
      simp [stops]

theorem dropWhile_append_of_stops {p : UInt8 → Bool} {run after : Bytes}
    (inside : ∀ b ∈ run, p b = true) (stops : Stops p after.head?) :
    (run ++ after).dropWhile p = after := by
  rw [List.dropWhile_append_of_pos inside]
  cases after with
  | nil => rfl
  | cons b rest =>
      simp only [List.head?_cons, stops_some] at stops
      simp [stops]

theorem stops_dropWhile (p : UInt8 → Bool) (input : Bytes) :
    Stops p (input.dropWhile p).head? := by
  intro b member
  have := List.head?_dropWhile_not p input
  rw [Option.mem_def] at member
  simpa [member] using this

def spaces (n : Nat) : Bytes := List.replicate n Byte.space

@[simp]
theorem spaces_zero : spaces 0 = [] := rfl

theorem spaces_succ (n : Nat) : spaces (n + 1) = Byte.space :: spaces n := rfl

theorem isSpace_of_mem_spaces {n : Nat} {b : UInt8} (h : b ∈ spaces n) : Byte.isSpace b = true := by
  rw [List.eq_of_mem_replicate h]
  rfl

theorem eq_spaces {run : Bytes} (h : ∀ b ∈ run, Byte.isSpace b = true) :
    run = spaces run.length :=
  List.eq_replicate_iff.2 ⟨rfl, fun b member => by simpa [Byte.isSpace] using h b member⟩

theorem dropWhile_spaces (n : Nat) {after : Bytes} (stops : Stops Byte.isSpace after.head?) :
    (spaces n ++ after).dropWhile Byte.isSpace = after :=
  dropWhile_append_of_stops (fun _ => isSpace_of_mem_spaces) stops

theorem dropWhile_spaces_append (n : Nat) (after : Bytes) :
    (spaces n ++ after).dropWhile Byte.isSpace = after.dropWhile Byte.isSpace :=
  List.dropWhile_append_of_pos fun _ => isSpace_of_mem_spaces

/-- Every text starts with some number of spaces and goes on with something else. -/
theorem exists_spaces (input : Bytes) :
    ∃ n, input = spaces n ++ input.dropWhile Byte.isSpace :=
  ⟨(input.takeWhile Byte.isSpace).length, by
    rw [← eq_spaces (fun _ => List.mem_takeWhile_imp), List.takeWhile_append_dropWhile]⟩

theorem spaces_eq_done_iff {input rest : Bytes} {value : Unit} :
    Scan.spaces input = .done value rest ↔
      ∃ n, input = spaces n ++ rest ∧ Stops Byte.isSpace rest.head? := by
  constructor
  · intro h
    cases h
    obtain ⟨n, same⟩ := exists_spaces input
    exact ⟨n, same, stops_dropWhile _ _⟩
  · intro h
    obtain ⟨n, rfl, stops⟩ := h
    simp only [Scan.spaces, dropWhile_spaces n stops]

theorem spaces_ne_failed {input rest : Bytes} {expected : Expected} :
    Scan.spaces input ≠ .failed expected rest := by
  simp [Scan.spaces]

theorem byte_eq_done_iff {wanted : UInt8} {expected : Expected} {input rest : Bytes}
    {value : Unit} : byte wanted expected input = .done value rest ↔ input = wanted :: rest := by
  cases input with
  | nil => simp [byte]
  | cons b tail =>
      by_cases h : b = wanted <;> simp [byte, h]

theorem byte_eq_failed_iff {wanted : UInt8} {wants expected : Expected} {input rest : Bytes} :
    byte wanted wants input = .failed expected rest ↔
      expected = wants ∧ rest = input ∧ input.head? ≠ some wanted := by
  cases input with
  | nil => simp [byte, eq_comm]
  | cons b tail =>
      by_cases h : b = wanted
      · simp [byte, h]
      · rw [byte, if_neg h, Result.failed.injEq, eq_comm, eq_comm (b := rest)]
        simp [h]

theorem endOfLine_eq_failed_iff {input rest : Bytes} {expected : Expected} :
    endOfLine input = .failed expected rest ↔
      expected = .endOfLine ∧ rest = input ∧ input.head? ≠ some Byte.newline :=
  byte_eq_failed_iff

theorem endOfLine_eq_done_iff {input rest : Bytes} {value : Unit} :
    endOfLine input = .done value rest ↔ input = Byte.newline :: rest :=
  byte_eq_done_iff

/-- Names are never empty, and consist of letters, digits, `_` and `-`. -/
def IsName (name : Name) : Prop :=
  name ≠ [] ∧ ∀ b ∈ name, Byte.isIdentifier b = true

instance (name : Name) : Decidable (IsName name) :=
  decidable_of_iff ((!name.isEmpty && name.all Byte.isIdentifier) = true) (by simp [IsName])

theorem IsName.notMem_newline {name : Name} (h : IsName name) : Byte.newline ∉ name :=
  fun member => absurd (h.2 Byte.newline member) (by decide)

theorem identifier_eq_done_iff {input rest : Bytes} {name : Name} :
    identifier input = .done name rest ↔
      input = name ++ rest ∧ IsName name ∧ Stops Byte.isIdentifier rest.head? := by
  constructor
  · intro h
    simp only [identifier] at h
    split at h
    · cases h
    · next nonempty =>
      cases h
      have valid : IsName (input.takeWhile Byte.isIdentifier) :=
        ⟨by simpa using nonempty, fun _ => List.mem_takeWhile_imp⟩
      exact ⟨List.takeWhile_append_dropWhile.symm, valid, stops_dropWhile _ _⟩
  · intro h
    obtain ⟨rfl, ⟨nonempty, inside⟩, stops⟩ := h
    simp only [identifier, takeWhile_append_of_stops inside stops,
      dropWhile_append_of_stops inside stops]
    simp [nonempty]

/-- A text that does not start with a name starts with no byte of a name at all. -/
theorem identifier_eq_failed_iff {input rest : Bytes} {expected : Expected} :
    identifier input = .failed expected rest ↔
      expected = .identifier ∧ rest = input ∧ Stops Byte.isIdentifier input.head? := by
  cases input with
  | nil => simp [identifier, eq_comm]
  | cons b tail =>
      by_cases h : Byte.isIdentifier b = true <;> simp [identifier, h, eq_comm]

theorem IsName.head? {name : Name} (h : IsName name) :
    ∃ b, name.head? = some b ∧ Byte.isIdentifier b = true := by
  cases name with
  | nil => exact absurd rfl h.1
  | cons b rest => exact ⟨b, rfl, h.2 b (by simp)⟩

theorem isWithin_of_notMem {text : Bytes} (within : Byte.newline ∉ text) :
    ∀ b ∈ text, (b != Byte.newline) = true := by
  intro b member
  rw [bne_iff_ne]
  rintro rfl
  exact within member

theorem comment_eq_done_iff {input rest : Bytes} {value : Unit} :
    comment input = .done value rest ↔
      ∃ text, Byte.newline ∉ text ∧ input = text ++ Byte.newline :: rest := by
  constructor
  · intro h
    simp only [comment] at h
    split at h
    · cases h
    · next b tail hdrop =>
      cases h
      have stops := stops_dropWhile (· != Byte.newline) input
      simp only [hdrop, List.head?_cons, stops_some, bne_eq_false_iff_eq] at stops
      subst stops
      refine ⟨input.takeWhile (· != Byte.newline), ?_, ?_⟩
      · intro member
        simpa using List.mem_takeWhile_imp member
      · rw [← hdrop, List.takeWhile_append_dropWhile]
  · intro h
    obtain ⟨text, within, rfl⟩ := h
    have ends : Stops (· != Byte.newline) (Byte.newline :: rest).head? := by simp
    simp only [comment, dropWhile_append_of_stops (isWithin_of_notMem within) ends]

theorem comment_eq_failed_iff {input rest : Bytes} {expected : Expected} :
    comment input = .failed expected rest ↔
      expected = .comment ∧ rest = [] ∧ Byte.newline ∉ input := by
  by_cases within : Byte.newline ∈ input
  · obtain ⟨text, tail, same, first⟩ := List.eq_append_cons_of_mem within
    have hdone : comment input = .done () tail := comment_eq_done_iff.2 ⟨text, first, same⟩
    simp [hdone, within]
  · have hdrop := List.dropWhile_eq_nil_iff.2 (isWithin_of_notMem within)
    simp [comment, hdrop, within, eq_comm]

end BuildFile.Written
