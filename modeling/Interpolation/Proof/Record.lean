import Interpolation.Clause

/-!
# Records of clauses

A record is what is kept of a clause: the identifier the solver gave it, its literals, where it
came from and, if it was derived, the keys of the records it was derived from.  A record also
says whether its clause is active; deletion makes it inactive and nothing else.

One record can lack an identifier: the empty clause that a solver concluded with but never
named.
-/

namespace Interpolation

/-- Where a clause came from. -/
inductive Source
  /-- It belongs to the formula. -/
  | premise
  /-- It was derived from other clauses. -/
  | derived
  deriving DecidableEq, Repr

/-- The name of a source. -/
def Source.name : Source → String
  | premise => "Original"
  | derived => "Derived"

/-- What is kept of a clause. -/
structure Record where
  /-- The identifier of the clause, if the solver gave it one. -/
  id : Option Nat
  /-- The literals, in the order given. -/
  clause : Clause
  /-- Whether the solver may forget the clause at will. -/
  redundant : Bool
  /-- Where the clause came from. -/
  source : Source
  /-- The keys of the records from which the clause was derived, in the order given. -/
  antecedents : List Nat
  /-- Whether the clause is active. -/
  active : Bool
  deriving DecidableEq, Repr

namespace Record

/-- The record of a clause of the formula. -/
def premise (id : Nat) (redundant : Bool) (clause : Clause) : Record :=
  { id := some id, clause, redundant, source := .premise, antecedents := [], active := true }

/-- The record of a derived clause. -/
def derived (id : Nat) (redundant : Bool) (clause : Clause) (antecedents : List Nat) : Record :=
  { id := some id, clause, redundant, source := .derived, antecedents, active := true }

/-- The record of an empty clause that was concluded with and never named. -/
def unnamed (antecedents : List Nat) : Record :=
  { id := none, clause := [], redundant := true, source := .derived, antecedents,
    active := false }

/-- The text of a record: the identifier and the clause. -/
def text (r : Record) : String :=
  match r.id with
  | some id => toString id ++ ": " ++ r.clause.dimacs true
  | none => "refutation: 0"

end Record

/-- The text of the key of a record. -/
def keyText (key : Nat) : String := "Record(" ++ toString key ++ ")"

end Interpolation
