import BuildFile.Text.Printable
import BuildFile.Text.Utf8

/-! # Quoted text

In messages and in the printed form of a manifest, names and byte strings stand between
double quotes, on one line and with nothing invisible in them. Characters that could be
misread are escaped, and bytes that form no character are written as numbers.
-/

namespace BuildFile

namespace Quoted

/-- Which kind of string is quoted. The single quote is escaped in byte strings only. -/
inductive Style where
  /-- A name, or the path of a file. -/
  | text
  /-- A byte string of a build file. -/
  | bytes
  deriving Repr, DecidableEq

/-- The letter that stands for a character behind a backslash, if it has one. -/
def letter? (style : Style) (codePoint : Nat) : Option UInt8 :=
  if codePoint = 0 then some '0'.toUInt8
  else if codePoint = Byte.tab.toNat then some 't'.toUInt8
  else if codePoint = Byte.newline.toNat then some 'n'.toUInt8
  else if codePoint = Byte.carriageReturn.toNat then some 'r'.toUInt8
  else if codePoint = Byte.doubleQuote.toNat then some Byte.doubleQuote
  else if codePoint = Byte.backslash.toNat then some Byte.backslash
  else if codePoint = Byte.quote.toNat ∧ style = .bytes then some Byte.quote
  else none

/-- Write one character, given by its bytes. -/
def character (style : Style) (bytes : Bytes) : Bytes :=
  let codePoint := Utf8.codePoint bytes
  match letter? style codePoint with
  | some letter => [Byte.backslash, letter]
  | none =>
      if isPrintable codePoint then bytes
      else ascii "\\u\x7b" ++ hexadecimal codePoint ++ [Byte.closeBrace]

/-- Write one piece of a byte string. -/
def piece (style : Style) : Utf8.Piece → Bytes
  | .character bytes => character style bytes
  | .illFormed bytes => bytes.flatMap fun b => ascii "\\x" ++ hexPair b

end Quoted

/-- Write a byte string between double quotes. -/
def quoted (style : Quoted.Style) (text : Bytes) : Bytes :=
  [Byte.doubleQuote] ++ (Utf8.pieces text).flatMap (Quoted.piece style) ++ [Byte.doubleQuote]

/-- Write a list of byte strings on one line. -/
def quotedList (texts : List Bytes) : Bytes :=
  ascii "[" ++ (ascii ", ").intercalate (texts.map (quoted .bytes)) ++ ascii "]"

end BuildFile
