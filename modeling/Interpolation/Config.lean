import Interpolation.Setting

/-!
# The configuration of a session

Three settings govern how an interpolant is constructed: the system used, whether the clause
obtained by resolving the antecedents of a derived clause has to lie within that clause, and
whether every antecedent has to be used in doing so.  All of them may be revised in any phase,
since construction reads them anew each time.
-/

namespace Interpolation

/-- The settings of a session. -/
structure Config where
  /-- The system by which an interpolant is constructed. -/
  mode : Setting Mode :=
    ⟨"mode", Mode.least, Mode.greatest, .unsatisfiable, .asymmetric⟩
  /-- Whether what the antecedents of a clause resolve to has to lie within the clause. -/
  checkDerivations : Setting Bool := ⟨"check_derivations", false, true, .unsatisfiable, true⟩
  /-- Whether an antecedent that does not clash with the resolvent is an error; otherwise it
  is skipped. -/
  strictChains : Setting Bool := ⟨"strict_chains", false, true, .unsatisfiable, false⟩
  deriving Repr, DecidableEq

instance : Inhabited Config := ⟨{}⟩

namespace Config

/-- The configuration with another system, in a session that is in the phase given. -/
def setMode (c : Config) (mode : Mode) (phase : Phase) : Except SettingError Config :=
  (c.mode.set mode phase).map fun setting => { c with mode := setting }

/-- The configuration with derivations checked or not, in a session that is in the phase given. -/
def setCheckDerivations (c : Config) (value : Bool) (phase : Phase) : Except SettingError Config :=
  (c.checkDerivations.set value phase).map fun setting => { c with checkDerivations := setting }

/-- The configuration with chains strict or not, in a session that is in the phase given. -/
def setStrictChains (c : Config) (value : Bool) (phase : Phase) : Except SettingError Config :=
  (c.strictChains.set value phase).map fun setting => { c with strictChains := setting }

end Config

end Interpolation
