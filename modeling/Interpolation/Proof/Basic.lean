import Interpolation.Conclusion
import Interpolation.NatMap
import Interpolation.Proof.Record

/-!
# Proofs

A `Proof` is what has been recorded of a solver's reasoning.  The records stand in the order in
which they were made, and a record's position is its *key*, which is never used again.  Solvers
speak of clauses by identifiers, and use an identifier anew once its clause has been deleted;
so the proof keeps two maps from identifiers to keys, one of the active clauses and one of the
deleted.  An identifier with any record at all is in one of them, with its most recent record.

Derived clauses refer to keys, not to identifiers.  That is why deletion can leave every record
in place, and why the records of a proof form a graph in which every step goes to a smaller key.

* `Proof.activeKey?`, `Proof.latestKey?` --- from an identifier to the key of its clause;
* `Proof.antecedentsAt` --- the graph of derivations.
-/

namespace Interpolation

/-- How unsatisfiability was concluded. -/
structure Refutation where
  /-- In what sense there is no model. -/
  conclusion : Conclusion
  /-- The identifiers given with the conclusion. -/
  chain : List Nat
  /-- The key of the empty clause, if the formula itself was refuted and the chain says how. -/
  witness : Option Nat
  deriving DecidableEq, Repr

/-- What has been recorded of a solver's reasoning. -/
structure Proof where
  /-- Every record made, each at its key. -/
  records : Array Record := #[]
  /-- The keys of the active clauses, by identifier. -/
  active : NatMap Nat := ∅
  /-- The keys of the most recent records of deleted clauses, by identifier. -/
  deleted : NatMap Nat := ∅
  /-- The first identifier the solver said it would use, if it said so. -/
  firstId : Option Nat := none
  /-- The conclusion that there is no model, if it stands. -/
  refutation : Option Refutation := none
  deriving DecidableEq, Repr

instance : Inhabited Proof := ⟨{}⟩

namespace Proof

/-- How many records there can be: keys are words of 32 bits. -/
def capacity : Nat := 4294967296

/-- The key of the active clause with an identifier. -/
def activeKey? (p : Proof) (id : Nat) : Option Nat := p.active.find? id

/-- The key of the most recent record with an identifier, active or deleted. -/
def latestKey? (p : Proof) (id : Nat) : Option Nat := (p.activeKey? id).or (p.deleted.find? id)

/-- Whether an active clause has the identifier. -/
def contains (p : Proof) (id : Nat) : Bool := p.active.contains id

/-- The record at a key. -/
def record? (p : Proof) (key : Nat) : Option Record := p.records[key]?

/-- The record of the active clause with an identifier. -/
def get? (p : Proof) (id : Nat) : Option Record := (p.activeKey? id).bind p.record?

/-- How many records have been made. -/
def size (p : Proof) : Nat := p.records.size

/-- Whether no record has been made. -/
def isEmpty (p : Proof) : Bool := p.records.isEmpty

/-- How many clauses are active. -/
def activeCount (p : Proof) : Nat := p.active.size

/-- Whether the formula itself has been refuted, so that nothing may follow. -/
def concluded (p : Proof) : Bool :=
  match p.refutation with
  | some r => r.conclusion = .conflict
  | none => false

/-- The keys that the record at a key was derived from. -/
def antecedentsAt (p : Proof) (key : Nat) : List Nat :=
  match p.record? key with
  | some record => record.antecedents
  | none => []

end Proof

end Interpolation
