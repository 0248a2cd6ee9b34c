/-!
# How a proof of unsatisfiability concludes

A solver that finds no model says why: the formula itself is contradictory, or it is so only
together with the assumptions, or with the constraint, of that one solve.  Only the first is a
refutation of the formula.  Each conclusion has a code, a power of two, by which solvers pass
it on.

* `Conclusion.ofCode?_eq_some_iff` --- a code is read as a conclusion just when it is the code
  of that conclusion.
-/

namespace Interpolation

/-- The ways in which a proof of unsatisfiability concludes. -/
inductive Conclusion
  /-- The empty clause was derived from the formula. -/
  | conflict
  /-- The formula is unsatisfiable with the assumptions of the solve. -/
  | assumptions
  /-- The formula is unsatisfiable with the constraint of the solve. -/
  | constraint
  deriving DecidableEq, Repr

namespace Conclusion

/-- The code by which a solver passes on a conclusion. -/
def code : Conclusion → Int
  | conflict => 1
  | assumptions => 2
  | constraint => 4

/-- The conclusion with a code, if there is one. -/
def ofCode? (code : Int) : Option Conclusion :=
  if code = 1 then some conflict
  else if code = 2 then some assumptions
  else if code = 4 then some constraint
  else none

/-- The name of a conclusion. -/
def name : Conclusion → String
  | conflict => "Conflict"
  | assumptions => "Assumptions"
  | constraint => "Constraint"

theorem ofCode?_eq_some_iff {n : Int} {c : Conclusion} : ofCode? n = some c ↔ n = c.code := by
  constructor
  · intro h
    simp only [ofCode?] at h
    split at h
    · cases h; assumption
    · split at h
      · cases h; assumption
      · split at h
        · cases h; assumption
        · cases h
  · rintro rfl
    cases c <;> rfl

end Conclusion

end Interpolation
