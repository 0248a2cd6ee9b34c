import Interpolation.Literal

/-!
# Clauses

A clause is a list of literals, read as their disjunction.  The order of the literals and any
repetition among them are kept, because a clause is written back as it was given; the meaning
of a clause is that of its set of literals.  The empty clause is false.

The text of a clause is its literals in decimal, separated by single spaces, and a file ends
each clause with a zero.

* `Clause.satisfiedBy_iff` --- a clause is true just when one of its literals is.
-/

namespace Interpolation

/-- A disjunction of literals, in the order given. -/
abbrev Clause := List Literal

namespace Clause

/-- The text of a clause, with or without the zero that ends it. -/
def dimacs (c : Clause) (zero : Bool) : String :=
  " ".intercalate (c.map Literal.text ++ if zero then ["0"] else [])

/-- The atoms of a clause, in the order of its literals. -/
def atoms (c : Clause) : List Nat := c.map Literal.atom

/-- Whether a clause is true when the atoms have the values `v`. -/
def satisfiedBy (c : Clause) (v : Nat → Bool) : Bool := c.any (Literal.holds v)

/-- Whether a clause holds some literal together with its negation. -/
def isTautology (c : Clause) : Bool := c.any fun l => l.negate ∈ c

/-- Whether two clauses have the same literals, each as often, in whatever order. -/
def sameLiterals (c d : Clause) : Bool := c.isPerm d

theorem satisfiedBy_iff {c : Clause} {v : Nat → Bool} :
    c.satisfiedBy v = true ↔ ∃ l ∈ c, l.holds v = true := by
  simp [satisfiedBy]

theorem isTautology_iff {c : Clause} :
    c.isTautology = true ↔ ∃ l ∈ c, l.negate ∈ c := by
  simp [isTautology]

theorem sameLiterals_iff {c d : Clause} : c.sameLiterals d = true ↔ c.Perm d :=
  List.isPerm_iff

end Clause

/-- Whether every clause of a formula is true when the atoms have the values `v`. -/
def satisfiesAll (formula : List Clause) (v : Nat → Bool) : Bool :=
  formula.all fun c => c.satisfiedBy v

end Interpolation
