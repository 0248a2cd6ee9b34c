/-!
# Systems of interpolation

Two systems are known by name for reading an interpolant off a refutation.  In the asymmetric
one a clause of the first part contributes its shared literals and a clause of the second part
contributes truth; the symmetric one treats the parts alike.  Only the asymmetric system is
worked out in this library; the other can be asked for, and is then refused.

The systems are ordered, so that the choice between them can be bounded like any other setting:
asymmetric comes before symmetric.
-/

namespace Interpolation

/-- The systems by which an interpolant can be read off a refutation. -/
inductive Mode
  /-- Pivots local to the first part interpolate by disjunction, all others by conjunction. -/
  | asymmetric
  /-- Both parts are treated alike. -/
  | symmetric
  deriving DecidableEq, Repr

namespace Mode

/-- The rank of a system in the order of systems. -/
def rank : Mode → Nat
  | asymmetric => 0
  | symmetric => 1

instance : LT Mode := ⟨fun a b => a.rank < b.rank⟩

instance (a b : Mode) : Decidable (a < b) := inferInstanceAs (Decidable (a.rank < b.rank))

/-- The least system. -/
def least : Mode := asymmetric

/-- The greatest system. -/
def greatest : Mode := symmetric

/-- The name of a system. -/
def name : Mode → String
  | asymmetric => "Asymmetric"
  | symmetric => "Symmetric"

/-- The system with a name, if there is one.  Names are matched letter by letter. -/
def ofName? (name : String) : Option Mode :=
  if name = "Asymmetric" then some asymmetric
  else if name = "Symmetric" then some symmetric
  else none

theorem ofName?_name (m : Mode) : ofName? m.name = some m := by
  cases m <;> simp [ofName?, name]

end Mode

end Interpolation
