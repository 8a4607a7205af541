import BuildFile.Edge

/-! # The index of outputs

The index tells for every output which edge makes it. Where several do, it is the first.
-/

namespace BuildFile

/-- Outputs with the number of the edge that makes them, in the order in which they first
    occur. No output is listed twice. -/
abbrev OutputIndex := List (Bytes × Nat)

namespace OutputIndex

/-- The edge that makes an output. -/
def producer? (index : OutputIndex) (output : Bytes) : Option Nat :=
  (index.find? (·.1 == output)).map (·.2)

/-- Note that an edge makes an output, unless an earlier one does. -/
def note (index : OutputIndex) (output : Bytes) (edge : Nat) : OutputIndex :=
  if (index.producer? output).isSome then index else index ++ [(output, edge)]

/-- Index the outputs of a list of edges. -/
def ofOutputs (outputs : List (List Bytes)) : OutputIndex :=
  outputs.zipIdx.foldl (fun index (made, edge) =>
    made.foldl (fun index output => index.note output edge) index) []

/-- Index a list of edges. -/
def ofEdges (edges : List Edge) : OutputIndex :=
  ofOutputs (edges.map (·.outputs))

end OutputIndex

end BuildFile
