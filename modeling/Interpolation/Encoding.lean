import Interpolation.Circuit.Basic
import Interpolation.Clause
import Interpolation.Error

/-!
# Circuits as formulas

A circuit is turned into clauses by naming its nodes.  An input is named by its variable, and
each conjunction below the output by a fresh variable of its own, taken from a counter in the
order of the nodes, so that children are named before parents.  Three clauses say of a fresh
variable that it is the conjunction of the names of its children, and a last clause asserts the
name of the output.  The clauses have a model that extends a valuation of the inputs just when
the output is true there, and then the fresh variables have no choice.

A constant output needs no names: truth is the formula without clauses and falsity the formula
whose only clause is empty, and neither looks at the counter.  For any other output the counter
has to be an atom and has to lie above every variable in use; then the only thing that can still
go wrong is that the atoms run out.

* `gateClauses` --- the clauses of one conjunction;
* `encode` --- the clauses of an output, and the counter after them.
-/

namespace Interpolation
namespace Encoding

/-- What an edge is called in a formula: a literal, or the truth value of a constant edge. -/
inductive Term
  /-- The edge is called by a literal. -/
  | literal (l : Literal)
  /-- The edge is a constant. -/
  | constant (value : Bool)
  deriving DecidableEq, Repr

/-- The clause by which a gate implies one of its conjuncts, if that has to be said. -/
def impliedClause (gate : Literal) : Term → List Clause
  | .literal l => [[gate.negate, l]]
  | .constant true => []
  | .constant false => [[gate.negate]]

/-- What a conjunct adds to the clause by which the conjuncts together imply the gate. -/
def Term.denied : Term → Clause
  | .literal l => [l.negate]
  | .constant _ => []

/-- The clauses that make a gate the conjunction of two terms: the gate implies either term,
and both terms together imply the gate. -/
def gateClauses (gate : Literal) (x y : Term) : List Clause :=
  impliedClause gate x ++ impliedClause gate y ++ [gate :: (x.denied ++ y.denied)]

/-- An encoding in the making. -/
structure Naming where
  /-- The name of each node named so far. -/
  names : NatMap Literal := ∅
  /-- The clauses so far. -/
  clauses : List Clause := []
  /-- The least variable that is still fresh. -/
  next : Nat
  deriving DecidableEq, Repr

namespace Naming

/-- What an edge is called.  A node without a name is the constant. -/
def term (s : Naming) (e : Edge) : Term :=
  match s.names.find? e.node with
  | some l => .literal (if e.negated then l.negate else l)
  | none => .constant e.negated

/-- Names the node at one position, whose children have been named. -/
def addNode (c : Circuit) (s : Naming) (index : Nat) : Except InterpolationError Naming :=
  match c.nodes[index]? with
  | some (.input atom) => .ok { s with names := s.names.insert index (.ofAtom atom true) }
  | some (.and left right) =>
    if atomMax < s.next then .error .atomsExhausted
    else
      let gate := Literal.ofAtom s.next true
      let s := { s with names := s.names.insert index gate }
      .ok { s with
        clauses := s.clauses ++ gateClauses gate (s.term left) (s.term right)
        next := s.next + 1 }
  | _ => .ok s

/-- The clauses with the output asserted. -/
def assert (s : Naming) (output : Edge) : List Clause :=
  match s.term output with
  | .literal l => s.clauses ++ [[l]]
  | .constant true => s.clauses
  | .constant false => s.clauses ++ [[]]

end Naming

/-- Whether a counter can be used for an output: it is an atom, and every variable in use lies
below it. -/
def fresh (c : Circuit) (output : Edge) (next : Nat) : Bool :=
  next != 0 && next ≤ atomMax && (c.atoms output).all (· < next)

/-- The clauses of an output with fresh variables from `next`, and the least variable that is
still fresh after them. -/
def encode (c : Circuit) (output : Edge) (next : Nat) :
    Except InterpolationError (List Clause × Nat) :=
  if output.isConstant then
    .ok (if output.negated then [] else [[]], next)
  else if fresh c output next then do
    let s ← (c.cone output).foldlM (Naming.addNode c) { next }
    .ok (s.assert output, s.next)
  else
    .error (.invalidFreshVariable next)

/-- An output that is constant leaves the counter alone, whatever it is. -/
theorem encode_constant (c : Circuit) {output : Edge} (h : output.isConstant = true)
    (next : Nat) :
    encode c output next = .ok (if output.negated then [] else [[]], next) := by
  simp [encode, h]

end Encoding
end Interpolation
