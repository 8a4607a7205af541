import BuildFile.Bytes

/-! # Environments

An environment lists variables with their final values in the order of their definition.
The first definition of a name is the one in effect; later ones stay in the list but are
never found.
-/

namespace BuildFile

/-- Variables with evaluated values, in order of definition. -/
abbrev Environment := List (Name × Bytes)

namespace Environment

/-- Add a definition behind all others. -/
def define (env : Environment) (name : Name) (value : Bytes) : Environment :=
  env ++ [(name, value)]

/-- The value of the first definition of a name. -/
def value? (env : Environment) (name : Name) : Option Bytes :=
  (env.find? (·.1 == name)).map (·.2)

/-- The value of a variable, where an unknown variable is empty. -/
def value (env : Environment) (name : Name) : Bytes :=
  (env.value? name).getD []

@[simp]
theorem value?_nil (name : Name) : value? [] name = none := rfl

theorem value?_cons (name other : Name) (bound : Bytes) (env : Environment) :
    value? ((other, bound) :: env) name =
      if other = name then some bound else env.value? name := by
  by_cases h : other = name <;> simp [value?, h]

/-- Names that the first part defines are never looked up in the second. -/
theorem value?_append (first second : Environment) (name : Name) :
    value? (first ++ second) name = (first.value? name).or (second.value? name) := by
  induction first with
  | nil => simp
  | cons entry rest ih =>
      obtain ⟨other, bound⟩ := entry
      simp only [List.cons_append, value?_cons, ih]
      split <;> simp

/-- A definition is in effect exactly if its name was not defined before. -/
theorem value?_define (env : Environment) (name other : Name) (bound : Bytes) :
    (env.define other bound).value? name =
      (env.value? name).or (if other = name then some bound else none) := by
  simp [define, value?_append, value?_cons]

end Environment

end BuildFile
