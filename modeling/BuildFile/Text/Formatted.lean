import BuildFile.Bytes

/-! # Formatted texts

A text is formatted piece by piece. The padding in front of a piece is limited, and to ask for
more of it crashes the program. What has been written before the crash stands.
-/

namespace BuildFile

/-- What comes of formatting a text. -/
inductive Formatted where
  /-- The whole text. -/
  | whole (text : Bytes)
  /-- The part in front of a padding that is too wide, where the program crashes. -/
  | broken (written : Bytes)
  deriving Repr, DecidableEq

namespace Formatted

/-- The widest padding that there can be, in bytes: widths have 16 bits. -/
def widest : Nat := 0xffff

/-- A text with spaces in front. -/
def indented (width : Nat) (text : Bytes) : Formatted :=
  if width ≤ widest then .whole (List.replicate width Byte.space ++ text) else .broken []

/-- Put a text in front of what is formatted. -/
def behind (front : Bytes) : Formatted → Formatted
  | .whole text => .whole (front ++ text)
  | .broken written => .broken (front ++ written)

theorem exists_behind_eq_whole_iff {front : Bytes} {formatted : Formatted} :
    (∃ text, formatted.behind front = .whole text) ↔ ∃ text, formatted = .whole text := by
  cases formatted <;> simp [behind]

end Formatted

end BuildFile
