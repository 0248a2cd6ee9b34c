import Interpolation.Error
import Interpolation.Phase

/-!
# Settings

A setting is a value that may be revised within bounds, and only while a session is young
enough.  Each setting names the last phase in which it may be revised; since the concluded
phases share a stage, a setting open in one of them is open in the other.

A revision that comes too late is refused as such even when its value is out of bounds as well.
-/

namespace Interpolation

/-- A value with bounds, and with the last phase of a session in which it may be revised. -/
structure Setting (α : Type) where
  /-- The name under which the setting is reported. -/
  name : String
  /-- The least value it may be given. -/
  least : α
  /-- The greatest value it may be given. -/
  greatest : α
  /-- The last phase in which it may be revised. -/
  lastPhase : Phase
  /-- The value it has. -/
  value : α
  deriving Repr, DecidableEq

namespace Setting

variable {α : Type} [LT α] [DecidableLT α]

/-- Gives a setting another value, in a session that is in the phase given. -/
def set (s : Setting α) (value : α) (phase : Phase) : Except SettingError (Setting α) :=
  if s.lastPhase.stage < phase.stage then .error (.locked s.name)
  else if value < s.least ∨ s.greatest < value then .error (.outOfBounds s.name)
  else .ok { s with value }

end Setting

end Interpolation
