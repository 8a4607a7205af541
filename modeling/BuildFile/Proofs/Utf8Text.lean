import BuildFile.Text.Utf8
import Mathlib.Data.List.Basic

/-! # Text in UTF-8

A byte string that is the encoding of characters is shown as it is. Its ASCII bytes are characters
of their own, so it can be cut at each of them, and put together again.
-/

namespace BuildFile.Utf8

/-- The bytes of some characters. -/
def IsText (bytes : Bytes) : Prop :=
  ∃ characters : List Char, bytes = characters.flatMap String.utf8EncodeChar

/-- A byte that goes on with a character. -/
def Continues (b : UInt8) : Prop := 0x80 ≤ b ∧ b ≤ 0xbf

theorem takeFollowing_of_forall {low high : UInt8} {more : Bytes}
    (first : ∀ b ∈ more.head?, low ≤ b ∧ b ≤ high)
    (others : ∀ b ∈ more.tail, Continues b) (rest : Bytes) :
    takeFollowing more.length low high (more ++ rest) = (more, rest) := by
  induction more generalizing low high with
  | nil => simp [takeFollowing]
  | cons b more ih =>
      have within : low ≤ b ∧ b ≤ high := first b rfl
      have continued := @ih 0x80 0xbf
        (fun c head => others c (List.mem_of_mem_head? head))
        (fun c member => others c (List.mem_of_mem_tail member))
      simp [takeFollowing, within, continued]

theorem firstPiece_of_following? {b : UInt8} {next : Following} {more : Bytes}
    (h : following? b = some next) (count : more.length = next.count)
    (first : ∀ b ∈ more.head?, next.low ≤ b ∧ b ≤ next.high)
    (others : ∀ b ∈ more.tail, Continues b) (rest : Bytes) :
    firstPiece b (more ++ rest) = (.character (b :: more), rest) := by
  have taken := takeFollowing_of_forall first others rest
  rw [count] at taken
  simp [firstPiece, h, taken, count]

theorem following?_ofNat {n : Nat} (h : n < 256) :
    following? (UInt8.ofNat n) =
      if n < 0x80 then some ⟨0, 0x80, 0xbf⟩
      else if n < 0xc2 then none
      else if n < 0xe0 then some ⟨1, 0x80, 0xbf⟩
      else if n = 0xe0 then some ⟨2, 0xa0, 0xbf⟩
      else if n = 0xed then some ⟨2, 0x80, 0x9f⟩
      else if n < 0xf0 then some ⟨2, 0x80, 0xbf⟩
      else if n = 0xf0 then some ⟨3, 0x90, 0xbf⟩
      else if n < 0xf4 then some ⟨3, 0x80, 0xbf⟩
      else if n = 0xf4 then some ⟨3, 0x80, 0x8f⟩
      else none := by
  unfold following?
  simp only [UInt8.lt_iff_toNat_lt, ← UInt8.toNat_inj, UInt8.toNat_ofNat', Nat.mod_eq_of_lt h]
  rfl

theorem ofNat_between {low n high : Nat} (least : low ≤ n) (most : n ≤ high) (small : high < 256) :
    UInt8.ofNat low ≤ UInt8.ofNat n ∧ UInt8.ofNat n ≤ UInt8.ofNat high := by
  simp only [UInt8.le_iff_toNat_le, UInt8.toNat_ofNat']
  omega

/-- The last six bits of a number make a byte that continues a character. -/
theorem continues_ofNat (n : Nat) : Continues (UInt8.ofNat (n % 64 + 128)) :=
  @ofNat_between 0x80 _ 0xbf (by omega) (by omega) (by decide)

/-- A first byte announces how many bytes follow it, and admits the second byte. -/
def Announces (b : UInt8) (count : Nat) (second : UInt8) : Prop :=
  ∃ next, following? b = some next ∧ next.count = count ∧ next.low ≤ second ∧ second ≤ next.high

theorem firstPiece_of_announces {b c : UInt8} {more : Bytes} (h : Announces b (more.length + 1) c)
    (others : ∀ d ∈ more, Continues d) (rest : Bytes) :
    firstPiece b (c :: more ++ rest) = (.character (b :: c :: more), rest) := by
  obtain ⟨next, start, count, second⟩ := h
  have length : (c :: more).length = next.count := count.symm
  refine firstPiece_of_following? start length ?_ others rest
  rintro d head
  cases head
  exact second

theorem announces_two {v : Nat} (least : 0x80 ≤ v) (most : v < 0x800) :
    Announces (UInt8.ofNat (v / 64 % 32 + 192)) 1 (UInt8.ofNat (v % 64 + 128)) := by
  refine ⟨⟨1, 0x80, 0xbf⟩, ?_, rfl, continues_ofNat v⟩
  rw [following?_ofNat (by omega), if_neg (by omega), if_neg (by omega), if_pos (by omega)]

/-- Behind 0xe0 the second byte is bounded from below, since shorter forms are not allowed, and
    behind 0xed from above, since surrogates are no characters. -/
theorem announces_three {v : Nat} (least : 0x800 ≤ v) (most : v < 0x10000)
    (valid : v < 0xd800 ∨ 0xdfff < v) :
    Announces (UInt8.ofNat (v / 4096 % 16 + 224)) 2 (UInt8.ofNat (v / 64 % 64 + 128)) := by
  unfold Announces
  rw [following?_ofNat (by omega), if_neg (by omega), if_neg (by omega), if_neg (by omega)]
  split
  · exact ⟨_, rfl, rfl, @ofNat_between 0xa0 _ 0xbf (by omega) (by omega) (by decide)⟩
  · split
    · exact ⟨_, rfl, rfl, @ofNat_between 0x80 _ 0x9f (by omega) (by omega) (by decide)⟩
    · rw [if_pos (by omega)]
      exact ⟨_, rfl, rfl, continues_ofNat _⟩

/-- Behind 0xf0 the second byte is bounded from below in the same way, and behind 0xf4 from above
    by the greatest character. -/
theorem announces_four {v : Nat} (least : 0x10000 ≤ v) (most : v < 0x110000) :
    Announces (UInt8.ofNat (v / 262144 % 8 + 240)) 3 (UInt8.ofNat (v / 4096 % 64 + 128)) := by
  unfold Announces
  rw [following?_ofNat (by omega), if_neg (by omega), if_neg (by omega), if_neg (by omega),
    if_neg (by omega), if_neg (by omega), if_neg (by omega)]
  split
  · exact ⟨_, rfl, rfl, @ofNat_between 0x90 _ 0xbf (by omega) (by omega) (by decide)⟩
  · split
    · exact ⟨_, rfl, rfl, continues_ofNat _⟩
    · rw [if_pos (by omega)]
      exact ⟨_, rfl, rfl, @ofNat_between 0x80 _ 0x8f (by omega) (by omega) (by decide)⟩

/-- The bytes of a character are one piece, whatever follows them. -/
theorem exists_firstPiece_utf8EncodeChar (c : Char) :
    ∃ b more, String.utf8EncodeChar c = b :: more ∧
      ∀ rest, firstPiece b (more ++ rest) = (.character (b :: more), rest) := by
  have valid : c.val.toNat < 0xd800 ∨ 0xdfff < c.val.toNat ∧ c.val.toNat < 0x110000 := c.valid
  unfold String.utf8EncodeChar
  dsimp only
  generalize c.val.toNat = v at valid
  split
  · next one =>
    have start : following? (UInt8.ofNat v) = some ⟨0, 0x80, 0xbf⟩ := by
      rw [following?_ofNat (by omega), if_pos (by omega)]
    exact ⟨_, [], rfl, firstPiece_of_following? start rfl (by simp) (by simp)⟩
  · split
    · have start := @announces_two v (by omega) (by omega)
      exact ⟨_, [_], rfl, firstPiece_of_announces start (by simp)⟩
    · split
      · have start := @announces_three v (by omega) (by omega) (by omega)
        have last : ∀ d ∈ [_], Continues d := List.forall_mem_singleton.2 (continues_ofNat v)
        exact ⟨_, [_, _], rfl, firstPiece_of_announces start last⟩
      · have start := @announces_four v (by omega) (by omega)
        have last : ∀ d ∈ [_], Continues d := List.forall_mem_singleton.2 (continues_ofNat v)
        have others := List.forall_mem_cons.2 ⟨continues_ofNat (v / 64), last⟩
        exact ⟨_, [_, _, _], rfl, firstPiece_of_announces start others⟩

theorem not_ascii_ofNat {n : Nat} (least : 0x80 ≤ n) (most : n < 256) : ¬ UInt8.ofNat n < 0x80 := by
  rw [UInt8.lt_iff_toNat_lt, UInt8.toNat_ofNat', Nat.mod_eq_of_lt most]
  exact Nat.not_lt.2 least

/-- A byte below 0x80 is a character of its own, and no part of another. -/
theorem utf8EncodeChar_eq_singleton {c : Char} {b : UInt8} (ascii : b < 0x80)
    (member : b ∈ String.utf8EncodeChar c) : String.utf8EncodeChar c = [b] := by
  unfold String.utf8EncodeChar at member ⊢
  dsimp only at member ⊢
  generalize c.val.toNat = v at member ⊢
  split at member
  · next one =>
    rw [List.mem_singleton] at member
    rw [if_pos one, member]
  · exfalso
    split at member
    · simp only [List.mem_cons, List.not_mem_nil, or_false] at member
      obtain rfl | rfl := member
      all_goals exact not_ascii_ofNat (by omega) (by omega) ascii
    · split at member
      all_goals simp only [List.mem_cons, List.not_mem_nil, or_false] at member
      · obtain rfl | rfl | rfl := member
        all_goals exact not_ascii_ofNat (by omega) (by omega) ascii
      · obtain rfl | rfl | rfl | rfl := member
        all_goals exact not_ascii_ofNat (by omega) (by omega) ascii

theorem exists_utf8EncodeChar {b : UInt8} (ascii : b < 0x80) :
    ∃ c, String.utf8EncodeChar c = [b] := by
  have size : b.toNat < 0x80 := UInt8.lt_iff_toNat_lt.1 ascii
  have value : (Char.ofUInt8 b).val.toNat = b.toNat := UInt8.toNat_toUInt32 b
  refine ⟨Char.ofUInt8 b, ?_⟩
  unfold String.utf8EncodeChar
  dsimp only
  rw [value, if_pos (by omega), UInt8.ofNat_toNat]

theorem isText_iff_isValidUTF8 {bytes : Bytes} :
    IsText bytes ↔ bytes.toByteArray.IsValidUTF8 := by
  constructor
  · rintro ⟨characters, rfl⟩
    exact .intro characters rfl
  · rintro ⟨characters, same⟩
    exact ⟨characters, List.toByteArray_inj.1 same⟩

theorem IsText.nil : IsText [] :=
  ⟨[], rfl⟩

theorem isText_utf8EncodeChar (c : Char) : IsText (String.utf8EncodeChar c) :=
  ⟨[c], by simp⟩

theorem IsText.append {first second : Bytes} (h : IsText first) (k : IsText second) :
    IsText (first ++ second) := by
  obtain ⟨characters, rfl⟩ := h
  obtain ⟨more, rfl⟩ := k
  exact ⟨characters ++ more, List.flatMap_append.symm⟩

theorem isText_of_ascii {bytes : Bytes} (ascii : ∀ b ∈ bytes, b < 0x80) : IsText bytes := by
  induction bytes with
  | nil => exact .nil
  | cons b bytes ih =>
      obtain ⟨first, others⟩ := List.forall_mem_cons.1 ascii
      obtain ⟨c, encoded⟩ := exists_utf8EncodeChar first
      have one : IsText [b] := encoded ▸ isText_utf8EncodeChar c
      exact one.append (ih others)

theorem isText_of_all {bytes : Bytes} (ascii : bytes.all (· < 0x80) = true) : IsText bytes :=
  isText_of_ascii (by simpa using ascii)

/-- Text can be cut at an ASCII byte. -/
theorem isText_append_cons_iff {first second : Bytes} {b : UInt8} (ascii : b < 0x80) :
    IsText (first ++ b :: second) ↔ IsText first ∧ IsText second := by
  constructor
  · rintro ⟨characters, same⟩
    induction characters generalizing first with
    | nil => simp at same
    | cons c characters ih =>
        rw [List.flatMap_cons, List.append_eq_append_iff] at same
        obtain ⟨more, encoded, same⟩ | ⟨more, rfl, same⟩ := same
        · -- The byte stands in the first character, or is the first byte of the next one.
          cases more with
          | nil =>
              obtain ⟨-, behind⟩ := @ih [] same
              rw [List.append_nil] at encoded
              exact ⟨encoded ▸ isText_utf8EncodeChar c, behind⟩
          | cons d more =>
              obtain ⟨rfl, rfl⟩ := List.cons.inj same
              have single := utf8EncodeChar_eq_singleton (c := c) ascii (by simp [encoded])
              rw [single, eq_comm, List.append_eq_singleton_iff] at encoded
              obtain ⟨rfl, same⟩ | ⟨-, same⟩ := encoded
              · obtain rfl := (List.cons.inj same).2
                exact ⟨.nil, characters, rfl⟩
              · cases same
        · obtain ⟨before, behind⟩ := ih same.symm
          exact ⟨(isText_utf8EncodeChar c).append before, behind⟩
  · rintro ⟨before, behind⟩
    have single : IsText [b] := isText_of_ascii (by simpa using ascii)
    exact before.append (single.append behind)

/-- Text falls into two texts on the sides of ASCII bytes. -/
theorem IsText.around {first middle last : Bytes} (nonempty : middle ≠ [])
    (ascii : ∀ b ∈ middle, b < 0x80) (h : IsText (first ++ (middle ++ last))) :
    IsText first ∧ IsText last := by
  induction middle generalizing first with
  | nil => exact absurd rfl nonempty
  | cons b middle ih =>
      obtain ⟨one, others⟩ := List.forall_mem_cons.1 ascii
      obtain ⟨before, behind⟩ := (isText_append_cons_iff one).1 h
      cases middle with
      | nil => exact ⟨before, behind⟩
      | cons c middle => exact ⟨before, (@ih [] (by simp) others behind).2⟩

theorem pieces_utf8EncodeChar (c : Char) (rest : Bytes) :
    pieces (String.utf8EncodeChar c ++ rest) =
      .character (String.utf8EncodeChar c) :: pieces rest := by
  obtain ⟨b, more, encoded, first⟩ := exists_firstPiece_utf8EncodeChar c
  rw [encoded, List.cons_append, pieces, first]

/-- Text is shown as it is. -/
theorem IsText.shown_eq {bytes : Bytes} (h : IsText bytes) : shown bytes = bytes := by
  obtain ⟨characters, rfl⟩ := h
  unfold shown
  induction characters with
  | nil => rw [List.flatMap_nil, pieces]; rfl
  | cons c characters ih =>
      rw [List.flatMap_cons, pieces_utf8EncodeChar, List.flatMap_cons, ih]
      rfl

end BuildFile.Utf8
