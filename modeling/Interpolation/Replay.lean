import Interpolation.Circuit.Basic
import Interpolation.Config
import Interpolation.Labelling
import Interpolation.Resolution

/-!
# Replaying a refutation

Every record that a refutation rests on is given a *partial interpolant*, an edge of one
circuit, by the asymmetric system.  Records are visited in the order of their keys, so that the
antecedents of a record have theirs before it is visited.

* A clause of part A has the disjunction of its shared literals; the local ones are left out.
* A clause of part B has truth.
* A derived clause has what resolving its antecedents makes of theirs: at each resolution the
  two are joined, by disjunction if the pivot is local to part A and by conjunction otherwise.

A variable local to one part that occurs in a clause of the other is an error, because the
labels then describe no partition.  So is a chain that cannot be read, or that leads outside the
clause it is said to derive.  The empty clause is never allowed to have been derived from a
chain that leads outside it; for other clauses that depends on the configuration.

The resolutions of a chain are worked out first, from the clauses alone, and the partial
interpolants are joined along the pivots afterwards; so what a chain proves and what is made of
it can be looked at one at a time.

* `premiseInterpolant`, `derivedInterpolant` --- the partial interpolants of the two sources;
* `Replay.visit` --- one record, and `Replay.visitAll` --- those listed, in order.
-/

namespace Interpolation

/-- How far a refutation has been replayed. -/
structure Replay where
  /-- The circuit that holds all partial interpolants. -/
  circuit : Circuit := {}
  /-- The partial interpolant of each record visited, by its key. -/
  interpolants : NatMap Edge := ∅
  deriving DecidableEq, Repr

/-! ## Premises -/

/-- The partial interpolant of a premise before any literal is looked at. -/
def startOf : Part → Edge
  | .a => .bottom
  | .b => .top

/-- Takes one literal of a premise into account. -/
def addLiteral (labels : Labelling) (part : Part) (id : Nat) (state : Edge × Circuit)
    (l : Literal) : Except InterpolationError (Edge × Circuit) :=
  match labels.scopeOf l.atom with
  | .localTo owner => if owner = part then .ok state else .error (.mislabelledVariable id l.atom)
  | .shared =>
    match part with
    | .a =>
      let (edge, circuit) := state.2.literal l
      .ok (circuit.or state.1 edge)
    | .b => .ok state

/-- The partial interpolant of a premise. -/
def premiseInterpolant (labels : Labelling) (circuit : Circuit) (part : Part) (id : Nat)
    (clause : Clause) : Except InterpolationError (Edge × Circuit) :=
  clause.foldlM (addLiteral labels part id) (startOf part, circuit)

/-! ## Derived clauses -/

/-- Joins two partial interpolants as the pivot demands.  Where an antecedent was skipped its
partial interpolant is left out. -/
def join (labels : Labelling) (state : Edge × Circuit) (step : Option Literal × Edge) :
    Edge × Circuit :=
  match step.1 with
  | none => state
  | some pivot =>
    if labels.scopeOf pivot.atom = .localTo .a then state.2.or state.1 step.2
    else state.2.and state.1 step.2

/-- The error for a derivation that does not hold up: a named clause is named in it, and the
empty clause of the conclusion stands for the refutation. -/
def malformed (record : Record) : InterpolationError :=
  match record.id with
  | some id => .malformedProof id
  | none => .malformedRefutation

/-- Whether a resolvent is acceptable as the derivation of a clause. -/
def derives (config : Config) (resolvent clause : Clause) : Bool :=
  !(config.checkDerivations.value || clause.isEmpty) || resolvent.all (· ∈ clause)

/-- The clause of an antecedent and its partial interpolant. -/
def antecedent? (p : Proof) (replay : Replay) (key : Nat) : Option (Clause × Edge) :=
  match p.record? key, replay.interpolants.find? key with
  | some record, some edge => some (record.clause, edge)
  | _, _ => none

/-- The partial interpolant of a derived clause. -/
def derivedInterpolant (p : Proof) (labels : Labelling) (config : Config) (replay : Replay)
    (record : Record) : Except InterpolationError (Edge × Circuit) :=
  match record.antecedents.reverse.mapM (antecedent? p replay) with
  | none => .error (malformed record)
  | some [] => .error (malformed record)
  | some ((last, edge) :: rest) =>
    match runChain config.strictChains.value last (rest.map (·.1)) with
    | none => .error (malformed record)
    | some run =>
      if derives config run.resolvent record.clause then
        .ok ((run.pivots.zip (rest.map (·.2))).foldl (join labels) (edge, replay.circuit))
      else .error (malformed record)

/-! ## The records in order -/

/-- The partial interpolant of a record whose antecedents have theirs. -/
def recordInterpolant (p : Proof) (labels : Labelling) (config : Config) (replay : Replay)
    (key : Nat) (record : Record) : Except InterpolationError (Edge × Circuit) :=
  match record.source with
  | .derived => derivedInterpolant p labels config replay record
  | .premise =>
    match labels.partAt? key with
    | none => .error (.unknownLabel (record.id.getD 0))
    | some part =>
      premiseInterpolant labels replay.circuit part (record.id.getD 0) record.clause

namespace Replay

/-- Visits the record at a key. -/
def visit (p : Proof) (labels : Labelling) (config : Config) (replay : Replay) (key : Nat) :
    Except InterpolationError Replay :=
  match p.record? key with
  | none => .error .malformedRefutation
  | some record => do
    let (edge, circuit) ← recordInterpolant p labels config replay key record
    .ok { circuit, interpolants := replay.interpolants.insert key edge }

/-- Visits the records at the keys listed, in that order. -/
def visitAll (p : Proof) (labels : Labelling) (config : Config) (keys : List Nat) :
    Except InterpolationError Replay :=
  keys.foldlM (visit p labels config) {}

end Replay

end Interpolation
