import Interpolation.Circuit.Basic

/-!
# Truth tables

The truth table of an edge lists its value on every valuation of the variables it depends on.
The valuations are numbered: the variables in ascending order stand for the bits of the number,
the least variable for the least bit.  Tables double with each variable, so one is made only
for an edge with few of them.

* `Circuit.length_table` --- a table has as many values as there are valuations.
-/

namespace Interpolation

/-- The valuation with a number, over the atoms listed: an atom is true if the bit of its place
is set.  Atoms not listed are false. -/
def numberedValuation (atoms : List Nat) (number : Nat) : Nat → Bool := fun atom =>
  match atoms.idxOf? atom with
  | some place => number.testBit place
  | none => false

namespace Circuit

/-- The values of an edge on the valuations of its variables, in the order of their numbers. -/
def table (c : Circuit) (e : Edge) : List Bool :=
  let atoms := c.atoms e
  (List.range (Nat.pow 2 atoms.length)).map fun number =>
    c.evaluate e (numberedValuation atoms number)

/-- The most variables for which a table is made. -/
def tableLimit : Nat := 8

/-- The truth table of an edge, unless it has too many variables. -/
def table? (c : Circuit) (e : Edge) : Option (List Bool) :=
  if (c.atoms e).length ≤ tableLimit then some (c.table e) else none

@[simp] theorem length_table (c : Circuit) (e : Edge) :
    (c.table e).length = Nat.pow 2 (c.atoms e).length := by
  simp [table]

end Circuit
end Interpolation
