/-!
# Edges of a circuit

A circuit is a graph of conjunctions, and negation lives on its edges: an edge is the position
of a node together with a flag that says whether the node's value is to be negated.  Node zero
is the constant false, so that its two edges are the two constants.

An edge is kept in a word of 32 bits, of which the flag takes one.  So there are edges to
`nodeLimit` nodes and no more.  Where an edge is asked for to a node past the limit, the bits of
the position that do not fit are dropped, and the edge made is one to an earlier node
(`Edge.ofNode`).

Edges are ordered by node, and the plain edge of a node comes before the negated one; the code
of an edge, twice the node and one more if negated, is that order as a number.

* `Edge.node_ofNode_of_lt` --- an edge to a node below the limit leads there;
* `Edge.negate_negate` --- negating twice gives the edge back;
* `Edge.code_inj` --- an edge is determined by its code.
-/

namespace Interpolation

/-- The number of nodes that there are edges to: a position has 31 bits. -/
def nodeLimit : Nat := 2147483648

/-- A reference to a node of a circuit, negated or not. -/
@[ext] structure Edge where
  /-- The position of the node. -/
  node : Nat
  /-- Whether the value of the node is negated. -/
  negated : Bool
  /-- The position fits. -/
  lt_limit : node < nodeLimit
  deriving DecidableEq, Repr

namespace Edge

/-- The edge to a node, as far as its position fits. -/
def ofNode (node : Nat) (negated : Bool) : Edge :=
  ⟨node % nodeLimit, negated, Nat.mod_lt node (by decide)⟩

/-- The constant false. -/
def bottom : Edge := ofNode 0 false

/-- The constant true. -/
def top : Edge := ofNode 0 true

instance : Inhabited Edge := ⟨bottom⟩

/-- The constant with a value. -/
def constant (value : Bool) : Edge := ofNode 0 value

/-- The edge to the same node with the opposite value. -/
def negate (e : Edge) : Edge := { e with negated := !e.negated }

/-- Whether an edge has the same value whatever the inputs. -/
def isConstant (e : Edge) : Bool := e.node == 0

/-- The place of an edge in the order of edges. -/
def code (e : Edge) : Nat := 2 * e.node + e.negated.toNat

instance : Ord Edge := ⟨fun a b => compare a.code b.code⟩

instance : LT Edge := ⟨fun a b => a.code < b.code⟩

instance (a b : Edge) : Decidable (a < b) := inferInstanceAs (Decidable (a.code < b.code))

/-- The value of an edge, where the values of the nodes are known up to its node. -/
def value (e : Edge) (nodes : Array Bool) : Bool := nodes[e.node]?.getD false ^^ e.negated

/-- The text of an edge: a constant by its sign, any other by its node. -/
def text (e : Edge) : String :=
  match e.isConstant, e.negated with
  | true, false => "⊥"
  | true, true => "⊤"
  | false, false => "n" ++ toString e.node
  | false, true => "¬n" ++ toString e.node

/-! ## Edges to nodes -/

@[simp] theorem negated_ofNode (node : Nat) (negated : Bool) :
    (ofNode node negated).negated = negated :=
  rfl

/-- An edge to a node below the limit leads there. -/
theorem node_ofNode_of_lt {node : Nat} (h : node < nodeLimit) (negated : Bool) :
    (ofNode node negated).node = node :=
  Nat.mod_eq_of_lt h

/-- An edge never leads past the node that it was asked for. -/
theorem node_ofNode_le (node : Nat) (negated : Bool) : (ofNode node negated).node ≤ node :=
  Nat.mod_le node nodeLimit

/-- Every edge is the edge to its node. -/
theorem ofNode_node (e : Edge) : ofNode e.node e.negated = e :=
  Edge.ext (node_ofNode_of_lt e.lt_limit e.negated) rfl

@[simp] theorem node_bottom : bottom.node = 0 := rfl

@[simp] theorem negated_bottom : bottom.negated = false := rfl

@[simp] theorem node_top : top.node = 0 := rfl

@[simp] theorem negated_top : top.negated = true := rfl

@[simp] theorem negate_ofNode (node : Nat) (negated : Bool) :
    (ofNode node negated).negate = ofNode node !negated :=
  rfl

/-! ## Negation and order -/

@[simp] theorem negate_negate (e : Edge) : e.negate.negate = e := by
  cases e; simp [negate]

@[simp] theorem node_negate (e : Edge) : e.negate.node = e.node := rfl

@[simp] theorem negated_negate (e : Edge) : e.negate.negated = !e.negated := rfl

@[simp] theorem value_negate (e : Edge) (nodes : Array Bool) :
    e.negate.value nodes = !e.value nodes := by
  simp [negate, value]

@[simp] theorem isConstant_negate (e : Edge) : e.negate.isConstant = e.isConstant := rfl

/-- An edge is determined by its code. -/
theorem code_inj {a b : Edge} : a.code = b.code ↔ a = b := by
  refine ⟨fun h => ?_, fun h => h ▸ rfl⟩
  obtain ⟨m, p, hm⟩ := a
  obtain ⟨n, q, hn⟩ := b
  simp only [code] at h
  cases p <;> cases q <;> simp at h ⊢ <;> omega

end Edge

end Interpolation
