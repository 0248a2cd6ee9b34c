import Interpolation.Circuit.Edge
import Interpolation.Cone
import Interpolation.Literal
import Interpolation.NatMap

/-!
# Circuits

A circuit is a sequence of nodes: first the constant false, then inputs and conjunctions, each
conjunction made after the two edges it joins.  Disjunction is what negated edges make of
conjunction.

No node is made that is not needed.  A conjunction with a constant, with itself or with its own
negation is folded away, the two edges of a conjunction are put in order, and a node that is
there already is shared (`Circuit.share`).  So a circuit holds each function it was asked for
under one edge, and asking again changes nothing.  Sharing looks the node up among the nodes
themselves, and the circuit needs no other memory.

Nothing keeps a circuit from having more nodes than there are edges.  Building goes on past the
limit and reports nothing, but the edge returned for a node from there on is that of an earlier
node.  A circuit is *addressable* when it has not come so far, and only then does an edge stand
for what was asked for.

* `Circuit.evaluate` --- the value of an edge, from one pass over the nodes;
* `Circuit.cone`, `Circuit.atoms` --- the nodes an edge depends on, and their variables;
* `Circuit.values_push` --- a new node has a value and changes no other.
-/

namespace Interpolation

/-- A node of a circuit. -/
inductive Node
  /-- The constant false. -/
  | bottom
  /-- The value of a variable. -/
  | input (atom : Nat)
  /-- The conjunction of two edges. -/
  | and (left right : Edge)
  deriving DecidableEq, Repr

namespace Node

/-- The value of a node, where the variables and the nodes before it have the values given. -/
def value (v : Nat → Bool) (earlier : Array Bool) : Node → Bool
  | bottom => false
  | input atom => v atom
  | and left right => left.value earlier && right.value earlier

/-- The nodes a node refers to. -/
def children : Node → List Nat
  | bottom => []
  | input _ => []
  | and left right => [left.node, right.node]

/-- The variable of an input. -/
def atom? : Node → Option Nat
  | input atom => some atom
  | _ => none

end Node

/-- A sequence of nodes, beginning with the constant false. -/
structure Circuit where
  /-- The nodes, in the order in which they were made. -/
  nodes : Array Node := #[.bottom]
  deriving DecidableEq, Repr

instance : Inhabited Circuit := ⟨{}⟩

namespace Circuit

/-! ## Building -/

/-- Where a node stands, if it is there. -/
def position? (c : Circuit) (node : Node) : Option Nat := c.nodes.toList.idxOf? node

/-- The plain edge to a node, which is made if it is not there. -/
def share (c : Circuit) (node : Node) : Edge × Circuit :=
  match c.position? node with
  | some index => (.ofNode index false, c)
  | none => (.ofNode c.nodes.size false, ⟨c.nodes.push node⟩)

/-- The edge of a variable. -/
def input (c : Circuit) (atom : Nat) : Edge × Circuit := c.share (.input atom)

/-- The edge of a literal: that of its variable, negated if the literal denies it. -/
def literal (c : Circuit) (l : Literal) : Edge × Circuit :=
  let (edge, c) := c.input l.atom
  (if l.polarity then edge else edge.negate, c)

/-- The edge of a conjunction. -/
def and (c : Circuit) (a b : Edge) : Edge × Circuit :=
  if a = .bottom ∨ b = .bottom ∨ a = b.negate then (.bottom, c)
  else if a = .top ∨ a = b then (b, c)
  else if b = .top then (a, c)
  else if a < b then c.share (.and a b)
  else c.share (.and b a)

/-- The edge of a disjunction. -/
def or (c : Circuit) (a b : Edge) : Edge × Circuit :=
  let (edge, c) := c.and a.negate b.negate
  (edge.negate, c)

/-- How many nodes there are, the constant included. -/
def size (c : Circuit) : Nat := c.nodes.size

/-- Whether the constant is the only node. -/
def isEmpty (c : Circuit) : Bool := c.size == 1

/-- Whether there are edges to all nodes of a circuit. -/
def Addressable (c : Circuit) : Prop := c.size ≤ nodeLimit

instance (c : Circuit) : Decidable c.Addressable :=
  inferInstanceAs (Decidable (c.size ≤ nodeLimit))

/-! ## Reading -/

/-- The values of all nodes, in order, where the variables have the values `v`. -/
def values (c : Circuit) (v : Nat → Bool) : Array Bool :=
  c.nodes.foldl (fun earlier node => earlier.push (node.value v earlier)) #[]

/-- The value of an edge, where the variables have the values `v`. -/
def evaluate (c : Circuit) (e : Edge) (v : Nat → Bool) : Bool := e.value (c.values v)

/-- The nodes that the node at a position refers to. -/
def children (c : Circuit) (index : Nat) : List Nat :=
  match c.nodes[index]? with
  | some node => node.children
  | none => []

/-- The positions of the nodes an edge depends on, the constant left out, in ascending order. -/
def cone (c : Circuit) (e : Edge) : List Nat :=
  (Interpolation.cone c.children e.node).filter (· != 0)

/-- The variables an edge depends on, in ascending order. -/
def atoms (c : Circuit) (e : Edge) : List Nat :=
  NatMap.ascendingOf ((c.cone e).filterMap fun index => c.nodes[index]?.bind Node.atom?)

/-! ## Sharing -/

/-- A node has no position just when it is not there. -/
theorem position?_eq_none_iff {c : Circuit} {node : Node} :
    c.position? node = none ↔ node ∉ c.nodes := by
  simp [position?]

/-! ## One more node -/

@[simp] theorem values_push (nodes : Array Node) (node : Node) (v : Nat → Bool) :
    values ⟨nodes.push node⟩ v =
      (values ⟨nodes⟩ v).push (node.value v (values ⟨nodes⟩ v)) := by
  simp [values]

@[simp] theorem size_values (c : Circuit) (v : Nat → Bool) : (c.values v).size = c.size := by
  obtain ⟨⟨nodes⟩⟩ := c
  have : ∀ (l : List Node) (acc : Array Bool),
      (l.foldl (fun earlier node => earlier.push (node.value v earlier)) acc).size
        = acc.size + l.length := by
    intro l
    induction l with
    | nil => simp
    | cons n l ih => intro acc; simp [ih]; omega
  simpa [values, size] using this nodes #[]

end Circuit

end Interpolation
