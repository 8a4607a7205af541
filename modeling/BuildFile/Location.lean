import BuildFile.Bytes

/-! # Locations

A location says where in a text an offset is: in which line, and at which byte of it.
Offsets beyond the end count as the end of the text. Lines and columns that are too large for
32 bits are given as the largest number that fits.
-/

namespace BuildFile

/-- A place in a text. Lines and columns are counted from one, and columns count bytes. -/
structure Location where
  line : Nat
  column : Nat
  deriving Repr, DecidableEq

namespace Location

/-- The place of the first byte. -/
def start : Location := ⟨1, 1⟩

/-- Whether a byte belongs to a line. -/
def isWithinLine (b : UInt8) : Bool :=
  b != Byte.newline

/-- The bytes of the line that stand before an offset. -/
def lineBefore (text : Bytes) (offset : Nat) : Bytes :=
  ((text.take offset).reverse.takeWhile isWithinLine).reverse

/-- The bytes of the line from an offset on. -/
def lineFrom (text : Bytes) (offset : Nat) : Bytes :=
  (text.drop offset).takeWhile isWithinLine

/-- The largest line or column that a location can give. -/
def limit : Nat := 0xffffffff

/-- The location of an offset. -/
def of (text : Bytes) (offset : Nat) : Location where
  line := min ((text.take offset).count Byte.newline + 1) limit
  column := min ((lineBefore text offset).length + 1) limit

/-- The whole line that an offset is in, without its newline. -/
def lineAt (text : Bytes) (offset : Nat) : Bytes :=
  lineBefore text offset ++ lineFrom text offset

/-- Write a location as `line:column`. -/
def write (location : Location) : Bytes :=
  decimal location.line ++ ascii ":" ++ decimal location.column

end Location

end BuildFile
