import BuildFile.Bytes

/-! # Words of a shell command

Paths are put into commands as words of a shell. A path that a shell takes literally is
left as it is; any other stands between single quotes, where all but the single quote is
literal.
-/

namespace BuildFile

namespace Shell

/-- Whether a byte means nothing but itself to a shell. -/
def isSafe (b : UInt8) : Bool :=
  Byte.isAlphanumeric b || b == Byte.underscore || b == Byte.plus || b == Byte.hyphen
    || b == Byte.dot || b == Byte.slash

/-- Write a byte between single quotes. A single quote ends the quoted part, follows behind
    a backslash, and starts a new part. -/
def quoteByte (b : UInt8) : Bytes :=
  if b = Byte.quote then [Byte.quote, Byte.backslash, Byte.quote, Byte.quote] else [b]

/-- Put a path behind a text, as one word. The empty path needs quotes, to be a word at all. -/
def push (text path : Bytes) : Bytes :=
  if path ≠ [] ∧ path.all isSafe then text ++ path
  else path.foldl (fun text b => text ++ quoteByte b) (text ++ [Byte.quote]) ++ [Byte.quote]

/-- Write a path as one word. -/
def quote (path : Bytes) : Bytes := push [] path

/-- A path is only put behind a text, and written in the same way behind every text. -/
theorem push_eq_append (text path : Bytes) : push text path = text ++ quote path := by
  unfold quote push
  split <;> simp

theorem quote_of_safe {path : Bytes} (safe : path ≠ [] ∧ ∀ b ∈ path, isSafe b = true) :
    quote path = path := by
  rw [quote, push, if_pos ⟨safe.1, List.all_eq_true.2 safe.2⟩]
  rfl

theorem quote_of_not_safe {path : Bytes} (h : ¬ (path ≠ [] ∧ ∀ b ∈ path, isSafe b = true)) :
    quote path = Byte.quote :: (path.flatMap quoteByte ++ [Byte.quote]) := by
  rw [← List.all_eq_true] at h
  rw [quote, push, if_neg h, List.foldl_append_eq_append]
  rfl

/-- Write paths as words with a separator between them. -/
def join (separator : UInt8) (paths : List Bytes) : Bytes :=
  [separator].intercalate (paths.map quote)

end Shell

end BuildFile
