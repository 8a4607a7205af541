/-! # Byte strings

Build files, the values they define and the paths they name are strings of bytes in no
particular encoding. Names and messages are byte strings too, so that every text of the
library can be joined with every other.
-/

namespace BuildFile

/-- A string of bytes, in no particular encoding. -/
abbrev Bytes := List UInt8

/-- The name of a variable or of a rule. -/
abbrev Name := Bytes

/-- The bytes of a text that consists of ASCII characters only. -/
def ascii (text : String) : Bytes :=
  text.toList.map Char.toUInt8

/-- A number in decimal digits. -/
def decimal (n : Nat) : Bytes :=
  (Nat.toDigits 10 n).map Char.toUInt8

namespace Byte

abbrev tab : UInt8 := 0x09
abbrev newline : UInt8 := 0x0a
abbrev carriageReturn : UInt8 := 0x0d
abbrev space : UInt8 := 0x20
abbrev doubleQuote : UInt8 := 0x22
abbrev hash : UInt8 := 0x23
abbrev dollar : UInt8 := 0x24
abbrev quote : UInt8 := 0x27
abbrev plus : UInt8 := 0x2b
abbrev hyphen : UInt8 := 0x2d
abbrev dot : UInt8 := 0x2e
abbrev slash : UInt8 := 0x2f
abbrev colon : UInt8 := 0x3a
abbrev equals : UInt8 := 0x3d
abbrev backslash : UInt8 := 0x5c
abbrev underscore : UInt8 := 0x5f
abbrev openBrace : UInt8 := 0x7b
abbrev pipe : UInt8 := 0x7c
abbrev closeBrace : UInt8 := 0x7d

/-- An ASCII letter or digit. -/
def isAlphanumeric (b : UInt8) : Bool :=
  (0x30 ≤ b && b ≤ 0x39) || (0x41 ≤ b && b ≤ 0x5a) || (0x61 ≤ b && b ≤ 0x7a)

/-- A byte that names may consist of: a letter, a digit, `_` or `-`. -/
def isIdentifier (b : UInt8) : Bool :=
  isAlphanumeric b || b == underscore || b == hyphen

/-- The only byte that counts as blank within a line. -/
def isSpace (b : UInt8) : Bool :=
  b == space

end Byte

/-- The value of a digit below sixteen, in lower case. -/
def hexDigit (n : Nat) : UInt8 :=
  (Nat.digitChar n).toUInt8

/-- A byte as two hexadecimal digits. -/
def hexPair (b : UInt8) : Bytes :=
  [hexDigit (b.toNat / 16), hexDigit (b.toNat % 16)]

/-- A number in hexadecimal digits, without leading zeros. -/
def hexadecimal (n : Nat) : Bytes :=
  (Nat.toDigits 16 n).map Char.toUInt8

end BuildFile
