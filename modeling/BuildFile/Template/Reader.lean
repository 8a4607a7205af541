import BuildFile.Template
import BuildFile.Scan

/-! # Reading templates

A template is read up to a byte that ends it, which stays unread. Between escapes, text is
taken in runs as long as possible, and each run becomes one literal part.
-/

namespace BuildFile

namespace Template

/-- Where a template stands, which decides where it ends. -/
inductive Context where
  /-- The right hand side of a definition: ends at the newline, which must come. -/
  | value
  /-- A path of a build or default line: also ends at a space, a `:`, a `|` or the end of
      the input. -/
  | path
  deriving Repr, DecidableEq

namespace Context

/-- Whether a byte ends a template. -/
def ends : Context → UInt8 → Bool
  | .value, b => b == Byte.newline
  | .path, b => b == Byte.newline || b == Byte.space || b == Byte.colon || b == Byte.pipe

/-- Whether a byte stands for itself within a template. -/
def isPlain (context : Context) (b : UInt8) : Bool :=
  !context.ends b && b != Byte.dollar

end Context

/-- Read a name and the brace that closes it. -/
def readBraced : Scan Template := do
  let name ← Scan.identifier
  Scan.byte Byte.closeBrace .variableReference
  return [.reference name]

/-- Read a name without braces, which ends where no more name bytes follow. -/
def readBare : Scan Template := do
  let name ← Scan.identifier
  return [.reference name]

/-- Read what comes behind a `$`. A newline and the spaces behind it stand for nothing. -/
def readEscape : Scan Template
  | [] => .failed .variableReference []
  | b :: rest =>
      if b = Byte.newline then .done [] (rest.dropWhile Byte.isSpace)
      else if needsEscape b then .done [.literal [b]] rest
      else if b = Byte.openBrace then readBraced rest
      else readBare (b :: rest)

theorem forward_readBraced : readBraced.Forward :=
  Scan.forward_identifier.bind fun _ => (Scan.forward_byte _ _).bind fun _ => Scan.forward_pure _

theorem forward_readBare : readBare.Forward :=
  Scan.forward_identifier.bind fun _ => Scan.forward_pure _

theorem forward_readEscape : readEscape.Forward := by
  intro input
  cases input with
  | nil => exact List.suffix_rfl
  | cons b rest =>
      have within := List.suffix_cons b rest
      rw [readEscape]
      split
      · exact (List.dropWhile_suffix _).trans within
      · split
        · exact within
        · split
          · exact (forward_readBraced rest).trans within
          · exact forward_readBare (b :: rest)

/-- Read a template up to the byte that ends it. -/
def read (context : Context) (input : Bytes) : Scan.Result Template :=
  let text := ofText (input.takeWhile context.isPlain)
  match _hrest : input.dropWhile context.isPlain with
  | [] => if context = .value then .failed .value [] else .done text []
  | b :: rest =>
      if b = Byte.dollar then
        match _hescape : readEscape rest with
        | .failed expected rest => .failed expected rest
        | .done parts rest =>
            match read context rest with
            | .failed expected rest => .failed expected rest
            | .done more rest => .done (text ++ parts ++ more) rest
      else .done text (b :: rest)
termination_by input.length
decreasing_by
  have escaped := forward_readEscape.length_le_of_done _hescape
  have dropped := (List.dropWhile_suffix (l := input) context.isPlain).length_le
  rw [_hrest, List.length_cons] at dropped
  omega

theorem forward_read (context : Context) : Scan.Forward (read context) := by
  intro input
  have after (input : Bytes) {b : UInt8} {rest : Bytes}
      (h : input.dropWhile context.isPlain = b :: rest) : rest <:+ input :=
    (List.suffix_cons b rest).trans (h ▸ List.dropWhile_suffix _)
  fun_induction read context input with
  | case1 | case2 => exact List.nil_suffix
  | case3 input rest expected left hescape hrest =>
      have escaped := forward_readEscape rest
      rw [hescape] at escaped
      exact escaped.trans (after input hrest)
  | case4 input rest parts middle hescape expected left hread hrest ih
  | case5 input _ rest parts middle hescape more left hread hrest ih =>
      have escaped := forward_readEscape rest
      rw [hescape] at escaped
      rw [hread] at ih
      exact (ih.trans escaped).trans (after input hrest)
  | case6 input _ b rest hrest =>
      exact hrest ▸ List.dropWhile_suffix _

/-- A template that is not empty took at least one byte. -/
theorem length_lt_of_read {context : Context} {input rest : Bytes} {template : Template}
    (h : read context input = .done template rest) (nonempty : template ≠ []) :
    rest.length < input.length := by
  have ran {input : Bytes} (h : ofText (input.takeWhile context.isPlain) ≠ []) :
      (input.dropWhile context.isPlain).length < input.length :=
    Scan.length_dropWhile_lt (by intro empty; simp [ofText, empty] at h)
  rw [read] at h
  split at h
  · next hrest =>
    split at h <;> cases h
    exact hrest ▸ ran nonempty
  · next b tail hrest =>
    have dropped := (List.dropWhile_suffix (l := input) context.isPlain).length_le
    rw [hrest, List.length_cons] at dropped
    split at h
    · split at h
      · cases h
      · next parts middle hescape =>
        have escaped := forward_readEscape.length_le_of_done hescape
        split at h <;> cases h
        next hread =>
          have more := (forward_read context).length_le_of_done hread
          omega
    · cases h
      exact hrest ▸ ran nonempty

/-- Read paths for as long as there are any, with the spaces around them. -/
def readPaths (input : Bytes) : Scan.Result (List Template) :=
  match _hread : read .path (input.dropWhile Byte.isSpace) with
  | .failed expected rest => .failed expected rest
  | .done path rest =>
      if _hpath : path = [] then .done [] rest
      else
        match readPaths rest with
        | .failed expected rest => .failed expected rest
        | .done paths rest => .done (path :: paths) rest
termination_by input.length
decreasing_by
  have shorter := length_lt_of_read _hread _hpath
  have dropped := (List.dropWhile_suffix (l := input) Byte.isSpace).length_le
  omega

theorem forward_readPaths : Scan.Forward readPaths := by
  intro input
  have start (input : Bytes) : input.dropWhile Byte.isSpace <:+ input :=
    List.dropWhile_suffix _
  fun_induction readPaths input with
  | case1 input expected rest hread | case2 input rest hread =>
      have moved := forward_read .path (input.dropWhile Byte.isSpace)
      rw [hread] at moved
      exact moved.trans (start input)
  | case3 input path rest hread _ expected left hpaths ih
  | case4 input path rest hread _ paths left hpaths ih =>
      have moved := forward_read .path (input.dropWhile Byte.isSpace)
      rw [hread] at moved
      rw [hpaths] at ih
      exact ih.trans (moved.trans (start input))

/-- Read a path that must not be missing. -/
def readTarget : Scan Template := do
  let path ← read .path
  if path = [] then Scan.fail .defaultTarget else return path

theorem forward_readTarget : readTarget.Forward := by
  refine Scan.Forward.bind (forward_read _) fun path => ?_
  split
  · exact Scan.forward_fail _
  · exact Scan.forward_pure _

end Template

end BuildFile
