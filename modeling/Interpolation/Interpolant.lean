import Interpolation.Circuit.Extract
import Interpolation.Circuit.Table
import Interpolation.Encoding
import Interpolation.Replay

/-!
# Interpolants

An interpolant of a refuted formula in two parts follows from part A, contradicts part B and
speaks only of variables the parts share.  It is kept in two forms: the circuit that replaying
the refutation led to, and the clauses that encode the circuit with fresh variables.

`interpolate` makes one from a proof and a labelling.  It looks, in this order, at whether the
system asked for is worked out, whether there is a refutation, whether that refutes the formula
itself and has a witness, and whether every premise on record is labelled, used or not;
only then does it replay the witness's cone.  Nothing that it is given is changed.

* `Interpolant.evaluate` --- the value of an interpolant on the shared variables;
* `Interpolant.dimacs` --- its clauses as text, one a line.
-/

namespace Interpolation

/-- An interpolant, as clauses and as the circuit they encode. -/
structure Interpolant where
  /-- The clauses. -/
  clauses : List Clause
  /-- The least variable that could have been used as a fresh one. -/
  first : Nat
  /-- The least variable from there on that was not. -/
  next : Nat
  /-- The circuit. -/
  circuit : Circuit
  /-- The edge of the circuit that is the interpolant. -/
  output : Edge
  deriving DecidableEq, Repr

namespace Interpolant

/-- The value of an interpolant where the shared variables have the values `v`. -/
def evaluate (i : Interpolant) (v : Nat → Bool) : Bool := i.circuit.evaluate i.output v

/-- The variables of the clauses, fresh ones included, in ascending order. -/
def atoms (i : Interpolant) : List Nat := NatMap.ascendingOf (i.clauses.flatMap Clause.atoms)

/-- The clauses as text, one a line. -/
def dimacs (i : Interpolant) : String :=
  "\n".intercalate (i.clauses.map fun c => c.dimacs true)

/-- The truth table of an interpolant, unless it has too many variables. -/
def table? (i : Interpolant) : Option (List Bool) := i.circuit.table? i.output

end Interpolant

/-- The identifier of the premise without a label that was recorded first. -/
def firstUnlabelled? (p : Proof) (labels : Labelling) : Option Nat :=
  (List.range p.size).findSome? fun key =>
    (p.record? key).bind fun record =>
      if record.source = .premise ∧ labels.partAt? key = none then some (record.id.getD 0)
      else none

/-- The witness of a refutation of the formula itself. -/
def witnessOf (p : Proof) : Except InterpolationError Nat :=
  match p.refutation with
  | none => .error .noRefutation
  | some { conclusion := .conflict, witness := some key, .. } => .ok key
  | some { conclusion := .conflict, witness := none, .. } => .error .malformedRefutation
  | some { conclusion, .. } => .error (.unsupportedConclusion conclusion)

/-- The interpolant that a refutation leads to, with fresh variables from `next`. -/
def interpolate (p : Proof) (labels : Labelling) (config : Config) (next : Nat) :
    Except InterpolationError Interpolant :=
  match config.mode.value with
  | .symmetric => .error (.unsupportedMode .symmetric)
  | .asymmetric => do
    let witness ← witnessOf p
    match firstUnlabelled? p labels with
    | some id => .error (.unknownLabel id)
    | none =>
      let replay ← Replay.visitAll p labels config (cone p.antecedentsAt witness)
      match replay.interpolants.find? witness with
      | none => .error .malformedRefutation
      | some edge =>
        let (output, circuit) := replay.circuit.extract edge
        let (clauses, following) ← Encoding.encode circuit output next
        .ok { clauses, first := next, next := following, circuit, output }

end Interpolation
