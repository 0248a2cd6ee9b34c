import Interpolation.Circuit.Basic

/-!
# Cutting a circuit down to one edge

Construction leaves behind nodes that the final edge does not depend on.  Extraction makes a
fresh circuit with the nodes of the edge's cone and no others, in the order they had, and
returns the edge's counterpart there.  The copy is made by the same building operations as any
circuit, so it has every property that building ensures.
-/

namespace Interpolation
namespace Circuit

/-- A copy in the making: the circuit so far, and where each copied node went. -/
structure Copy where
  /-- The copy so far. -/
  circuit : Circuit := {}
  /-- The edge of the copy for each node copied.  The constant is there from the start. -/
  moved : NatMap Edge := NatMap.empty.insert 0 .bottom

/-- The counterpart of an edge in the copy. -/
def Copy.relocate (copy : Copy) (e : Edge) : Edge :=
  let base := (copy.moved.find? e.node).getD .bottom
  if e.negated then base.negate else base

/-- Copies the node at one position, whose children have been copied. -/
def copyNode (c : Circuit) (copy : Copy) (index : Nat) : Copy :=
  let (edge, circuit) : Edge × Circuit :=
    match c.nodes[index]? with
    | some (.input atom) => copy.circuit.input atom
    | some (.and left right) => copy.circuit.and (copy.relocate left) (copy.relocate right)
    | _ => (.bottom, copy.circuit)
  { circuit, moved := copy.moved.insert index edge }

/-- The counterpart of an edge in a circuit made of its cone alone, and that circuit. -/
def extract (c : Circuit) (e : Edge) : Edge × Circuit :=
  let copy := (c.cone e).foldl c.copyNode {}
  (copy.relocate e, copy.circuit)

end Circuit
end Interpolation
