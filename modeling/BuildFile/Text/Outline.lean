import BuildFile.Bytes

/-! # Outlines

An outline is a value laid out over several lines: what belongs to a list or a record is
indented by four spaces, and each item of it ends with a comma.
-/

namespace BuildFile

/-- The lines of a value, without their newlines. -/
abbrev Outline := List Bytes

namespace Outline

/-- A value that fits on a line. -/
def leaf (text : Bytes) : Outline := [text]

/-- Put a text in front of the first line. -/
def label (text : Bytes) : Outline → Outline
  | [] => [text]
  | first :: rest => (text ++ first) :: rest

/-- Put a comma behind the last line. -/
def withComma : Outline → Outline
  | [] => []
  | [last] => [last ++ ascii ","]
  | line :: rest => line :: withComma rest

/-- Lay out items between two texts. If there are no items, the texts meet. -/
def enclose (opening closing : Bytes) (items : List Outline) : Outline :=
  if items.isEmpty then [opening ++ closing]
  else
    [opening] ++ (items.flatMap fun item => item.withComma.map (ascii "    " ++ ·)) ++ [closing]

/-- A list. -/
def list (items : List Outline) : Outline :=
  enclose (ascii "[") (ascii "]") items

/-- Values that belong together without names. -/
def tuple (items : List Outline) : Outline :=
  enclose (ascii "(") (ascii ")") items

/-- A value under a heading. -/
def tagged (heading : String) (item : Outline) : Outline :=
  enclose (ascii heading ++ ascii "(") (ascii ")") [item]

/-- Named values under a heading. -/
def record (heading : String) (fields : List (String × Outline)) : Outline :=
  enclose (ascii heading ++ ascii " \x7b") (ascii "\x7d")
    (fields.map fun (name, item) => item.label (ascii name ++ ascii ": "))

end Outline

end BuildFile
