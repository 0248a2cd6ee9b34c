import Interpolation.Clause
import Interpolation.Conclusion

/-!
# The events of a proof

While it works, a solver announces each step of its reasoning, in the order the steps are taken.
An event is one such announcement as a value, with everything the solver said; so it can be
kept, passed on, and announced again later.  There are sixteen kinds, one for each announcement
that a solver can make, with what is said in it as the fields of the kind.  Only some kinds bear
on the proof.  The others are announced all the same, and whoever listens decides what to make of
them.

Each event has a line of text.  The line gives what a reader follows a proof by, which is less
than the event holds.
-/

namespace Interpolation

/-- A step of a solver's reasoning, as it is announced. -/
inductive Event
  /-- The proof begins, and its identifiers will start from the one given. -/
  | begin (firstId : Nat)
  /-- A clause belongs to the formula, or is put back into it after a deletion. -/
  | premise (id : Nat) (redundant : Bool) (clause : Clause) (restored : Bool)
  /-- A clause was derived from the clauses with the identifiers given. -/
  | derived (id : Nat) (redundant : Bool) (clause : Clause) (antecedents : List Nat)
  /-- A clause is no longer active. -/
  | delete (id : Nat) (redundant : Bool) (clause : Clause)
  /-- A clause is moved aside, and may be put back. -/
  | weaken (id : Nat) (clause : Clause)
  /-- A clause that was moved aside is strengthened. -/
  | strengthen (id : Nat)
  /-- A clause is still active at the end of the proof. -/
  | finalize (id : Nat) (clause : Clause)
  /-- A literal is assumed for the next solve. -/
  | assume (literal : Literal)
  /-- A clause is to hold for the next solve only. -/
  | constrain (clause : Clause)
  /-- Assumptions and any constraint are dropped. -/
  | resetAssumptions
  /-- A clause of negated assumptions was derived from the clauses with the identifiers given. -/
  | assumptionClause (id : Nat) (clause : Clause) (antecedents : List Nat)
  /-- There is no model, as the clauses with the identifiers given show. -/
  | unsat (conclusion : Conclusion) (chain : List Nat)
  /-- There is a model. -/
  | sat (model : Clause)
  /-- The solve ended without a conclusion, with the assignment given. -/
  | unknown (trail : Clause)
  /-- A solve begins. -/
  | solve
  /-- The solver reports its status. -/
  | status (code : Int) (id : Nat)
  deriving DecidableEq, Repr

/-- The text of a list of identifiers: between brackets, with a comma and a space after each
but the last. -/
def idsText (ids : List Nat) : String := "[" ++ ", ".intercalate (ids.map toString) ++ "]"

namespace Event

/-- The line of text of an event: words between single spaces. -/
def text (e : Event) : String :=
  " ".intercalate <|
    match e with
    | begin firstId => ["begin", toString firstId]
    | premise id _ clause _ => ["o", toString id, clause.dimacs true]
    | derived id _ clause antecedents =>
      ["a", toString id, clause.dimacs true, idsText antecedents]
    | delete id _ clause => ["d", toString id, clause.dimacs true]
    | weaken id _ => ["w", toString id]
    | strengthen id => ["s", toString id]
    | finalize id _ => ["f", toString id]
    | assume literal => ["assume", literal.text]
    | constrain clause => ["constrain", clause.dimacs true]
    | resetAssumptions => ["reset"]
    | assumptionClause id clause _ => ["assumption", "clause", toString id, clause.dimacs true]
    | unsat conclusion chain => ["unsat", conclusion.name, idsText chain]
    | sat _ => ["sat"]
    | unknown _ => ["unknown"]
    | solve => ["solve"]
    | status code _ => ["status", toString code]

end Event

end Interpolation
