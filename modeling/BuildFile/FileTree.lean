import BuildFile.Bytes

/-! # Trees of files

Build files are found by their paths. A tree of files holds them in memory, and a path is
followed through it name by name, as an operating system does, with the errors that it
gives.
-/

namespace BuildFile

/-- Why a file cannot be read. -/
inductive IoError where
  | noSuchFile
  | notADirectory
  | isADirectory
  | nameTooLong
  /-- The path holds a zero byte. -/
  | zeroInPath
  /-- Any other error of the operating system, with its number and description. -/
  | other (number : Nat) (description : Bytes)
  deriving Repr, DecidableEq

namespace IoError

/-- The description of an error behind which stands its number. -/
def numbered (description : Bytes) (number : Nat) : Bytes :=
  description ++ ascii " (os error " ++ decimal number ++ ascii ")"

def message : IoError → Bytes
  | .noSuchFile => numbered (ascii "No such file or directory") 2
  | .notADirectory => numbered (ascii "Not a directory") 20
  | .isADirectory => numbered (ascii "Is a directory") 21
  | .nameTooLong => numbered (ascii "File name too long") 36
  | .zeroInPath => ascii "file name contained an unexpected NUL byte"
  | .other number description => numbered description number

end IoError

namespace Path

/-- The longest path that can be followed, in bytes. -/
def maxLength : Nat := 4095

/-- The longest name of a file, in bytes. -/
def maxNameLength : Nat := 255

/-- The names of a path, which slashes separate. There is always one, which may be empty. -/
def names : Bytes → List Bytes
  | [] => [[]]
  | b :: rest =>
      if b = Byte.slash then [] :: names rest
      else
        match names rest with
        | [] => [[b]]
        | first :: more => (b :: first) :: more

/-- Where one name leads from the place that the names `here` lead to, without looking whether
anything is there. -/
def step (here : List Bytes) (name : Bytes) : List Bytes :=
  if name = [] ∨ name = ascii "." then here
  else if name = ascii ".." then here.dropLast
  else here ++ [name]

/-- The places that names lead to one after another. -/
def places (here : List Bytes) : List Bytes → List (List Bytes)
  | [] => []
  | name :: rest => step here name :: places (step here name) rest

end Path

/-- Files and directories under the names that lead to them from the root, which is not
listed. -/
structure FileTree where
  files : List (List Bytes × Bytes) := []
  directories : List (List Bytes) := []
  deriving Repr, DecidableEq

namespace FileTree

/-- Where a path has led to. -/
inductive Place where
  | file (content : Bytes)
  /-- A directory of the tree, by the names that lead to it. -/
  | directory (names : List Bytes)
  /-- A directory above the tree, in which no other names are known. -/
  | above
  deriving Repr, DecidableEq

/-- Put a file where a path leads to from the root, and directories on the way there. It takes
the place of a file that has been there before. -/
def add (tree : FileTree) (path content : Bytes) : FileTree where
  files := ((Path.names path).foldl Path.step [], content) :: tree.files
  directories := (Path.places [] (Path.names path)).dropLast ++ tree.directories

/-- The tree that holds each file where its path leads to. -/
def ofPaths (files : List (Bytes × Bytes)) : FileTree :=
  files.foldl (fun tree (path, content) => tree.add path content) {}

/-- What is at the end of a list of names. -/
def lookup (tree : FileTree) (names : List Bytes) : Except IoError Place :=
  match tree.files.find? (·.1 == names) with
  | some (_, content) => .ok (.file content)
  | none =>
      if tree.directories.contains names then .ok (.directory names)
      else .error .noSuchFile

/-- Follow one name. -/
def enter (tree : FileTree) (place : Place) (name : Bytes) : Except IoError Place :=
  match place with
  | .file _ => .error .notADirectory
  | .directory names =>
      if name = [] ∨ name = ascii "." then .ok place
      else if name = ascii ".." then
        if names = [] then .ok .above else .ok (.directory names.dropLast)
      else if Path.maxNameLength < name.length then .error .nameTooLong
      else tree.lookup (names ++ [name])
  | .above =>
      if name = [] ∨ name = ascii "." ∨ name = ascii ".." then .ok place
      else if Path.maxNameLength < name.length then .error .nameTooLong
      else .error .noSuchFile

/-- Follow a path from a place. A path that starts with a slash starts above the tree. -/
def follow (tree : FileTree) (start : Place) (path : Bytes) : Except IoError Place :=
  if path.contains 0 then .error .zeroInPath
  else if path = [] then .error .noSuchFile
  else if Path.maxLength < path.length then .error .nameTooLong
  else
    (Path.names path).foldlM tree.enter
      (if path.head? = some Byte.slash then .above else start)

/-- Follow a path to a directory. -/
def followToDirectory (tree : FileTree) (start : Place) (path : Bytes) : Except IoError Place := do
  match ← tree.follow start path with
  | .file _ => .error .notADirectory
  | place => .ok place

/-- The content of the file that a path leads to. -/
def read (tree : FileTree) (start : Place) (path : Bytes) : Except IoError Bytes := do
  match ← tree.follow start path with
  | .file content => .ok content
  | .directory _ | .above => .error .isADirectory

/-- The directory that holds the tree. -/
def root : Place := .directory []

end FileTree

end BuildFile
