import BuildFile.Bytes

/-! # UTF-8 in byte strings that need not be UTF-8

Byte strings are shown as text. Where they are well formed UTF-8 they are shown as they
are; every longest piece that starts a character but does not complete it, and every byte
that starts none, is ill formed on its own and is shown as one replacement character.
-/

namespace BuildFile

namespace Utf8

/-- What may follow the first byte of a character. -/
structure Following where
  /-- How many bytes follow. -/
  count : Nat
  /-- The least value of the first of them. -/
  low : UInt8
  /-- The greatest value of the first of them. -/
  high : UInt8
  deriving Repr, DecidableEq

/-- What has to follow a given first byte, if it can be one. The bounds leave out
    characters that are written too long, surrogates, and numbers that are too large. -/
def following? (b : UInt8) : Option Following :=
  if b < 0x80 then some ⟨0, 0x80, 0xbf⟩
  else if b < 0xc2 then none
  else if b < 0xe0 then some ⟨1, 0x80, 0xbf⟩
  else if b = 0xe0 then some ⟨2, 0xa0, 0xbf⟩
  else if b = 0xed then some ⟨2, 0x80, 0x9f⟩
  else if b < 0xf0 then some ⟨2, 0x80, 0xbf⟩
  else if b = 0xf0 then some ⟨3, 0x90, 0xbf⟩
  else if b < 0xf4 then some ⟨3, 0x80, 0xbf⟩
  else if b = 0xf4 then some ⟨3, 0x80, 0x8f⟩
  else none

/-- Take up to `count` bytes that continue a character, the first of them within the given
    bounds. The second component is what is left. -/
def takeFollowing : Nat → UInt8 → UInt8 → Bytes → Bytes × Bytes
  | 0, _, _, rest => ([], rest)
  | _ + 1, _, _, [] => ([], [])
  | count + 1, low, high, b :: rest =>
      if low ≤ b ∧ b ≤ high then
        let (taken, left) := takeFollowing count 0x80 0xbf rest
        (b :: taken, left)
      else ([], b :: rest)

theorem takeFollowing_append (count : Nat) (low high : UInt8) (input : Bytes) :
    (takeFollowing count low high input).1 ++ (takeFollowing count low high input).2 = input := by
  fun_induction takeFollowing count low high input with
  | case1 | case2 => rfl
  | case3 count low high b rest _ taken left same ih =>
      rw [same] at ih
      simpa using ih
  | case4 => rfl

/-- A part of a byte string. -/
inductive Piece where
  /-- The bytes of one character. -/
  | character (bytes : Bytes)
  /-- Bytes that form no character. -/
  | illFormed (bytes : Bytes)
  deriving Repr, DecidableEq

/-- The bytes of a piece. -/
def Piece.bytes : Piece → Bytes
  | .character bytes | .illFormed bytes => bytes

/-- The piece that starts with a given byte, and the bytes behind it. -/
def firstPiece (b : UInt8) (rest : Bytes) : Piece × Bytes :=
  match following? b with
  | none => (.illFormed [b], rest)
  | some next =>
      let (taken, left) := takeFollowing next.count next.low next.high rest
      if taken.length = next.count then (.character (b :: taken), left)
      else (.illFormed (b :: taken), left)

/-- Nothing is lost between a piece and the bytes behind it. -/
theorem firstPiece_append (b : UInt8) (rest : Bytes) :
    (firstPiece b rest).1.bytes ++ (firstPiece b rest).2 = b :: rest := by
  unfold firstPiece
  split
  · rfl
  · next next _ =>
    have same := takeFollowing_append next.count next.low next.high rest
    dsimp only
    split <;> simp [Piece.bytes, same]

theorem length_firstPiece_le (b : UInt8) (rest : Bytes) :
    (firstPiece b rest).2.length ≤ rest.length := by
  unfold firstPiece
  split
  · exact Nat.le_refl _
  · next next _ =>
    have same := congrArg List.length (takeFollowing_append next.count next.low next.high rest)
    rw [List.length_append] at same
    dsimp only
    split <;> (dsimp only; omega)

/-- Cut a byte string into characters and ill formed pieces. -/
def pieces : Bytes → List Piece
  | [] => []
  | b :: rest =>
      let first := firstPiece b rest
      first.1 :: pieces first.2
termination_by input => input.length
decreasing_by exact Nat.lt_succ_of_le (length_firstPiece_le b rest)

/-- The pieces of a byte string make it up. -/
theorem flatMap_bytes_pieces (input : Bytes) : (pieces input).flatMap Piece.bytes = input := by
  fun_induction pieces input with
  | case1 => rfl
  | case2 b rest first ih =>
      rw [List.flatMap_cons, ih]
      exact firstPiece_append b rest

/-- The replacement character. -/
def replacement : Bytes := [0xef, 0xbf, 0xbd]

/-- The text that a piece is shown as. -/
def Piece.shown : Piece → Bytes
  | .character bytes => bytes
  | .illFormed _ => replacement

/-- The text that a byte string is shown as. -/
def shown (input : Bytes) : Bytes :=
  (pieces input).flatMap Piece.shown

/-- The number of a character, from its bytes. The first byte carries fewer bits the more
    bytes follow it. -/
def codePoint : Bytes → Nat
  | [a] => a.toNat
  | [a, b] => (a.toNat % 0x20) * 0x40 + b.toNat % 0x40
  | [a, b, c] => ((a.toNat % 0x10) * 0x40 + b.toNat % 0x40) * 0x40 + c.toNat % 0x40
  | [a, b, c, d] =>
      (((a.toNat % 0x08) * 0x40 + b.toNat % 0x40) * 0x40 + c.toNat % 0x40) * 0x40
        + d.toNat % 0x40
  | _ => 0

end Utf8

end BuildFile
