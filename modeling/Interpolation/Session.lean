import Interpolation.Interpolant
import Interpolation.Journal

/-!
# Sessions

A session is all that is needed to get from a solver's proof to an interpolant: the journal of
the proof, the labelling of the formula's two parts, and the configuration.  Together these are
its `Dossier`, and the dossier is what keeps the events; a session is a relay with a dossier for
its keeper, so a session can be attached wherever a scribe can and can have a consumer as well.

The dossier adds one thing to the journal.  A label said in advance goes to the next fresh
clause of the formula that the journal accepts; a clause that is put back does not take it, for
it has its label already or is to be labelled anew.

* `Session.interpolate` --- the interpolant of a session, which leaves the session as it was.
-/

namespace Interpolation

/-- A proof in the making, with its labelling and the configuration. -/
structure Dossier where
  /-- The journal of the proof. -/
  journal : Journal := {}
  /-- What is known of the formula's two parts. -/
  labels : Labelling := {}
  /-- The configuration. -/
  config : Config := {}
  deriving DecidableEq, Repr

instance : Inhabited Dossier := ⟨{}⟩

namespace Dossier

/-- Gives the clause with an identifier the part said in advance, if any was. -/
def spendPending (d : Dossier) (id : Nat) : Dossier :=
  match d.journal.proof.activeKey? id with
  | some key => { d with labels := (d.labels.spendPending key).2 }
  | none => d

/-- Records an event, or refuses it. -/
def keep (d : Dossier) (e : Event) : Except ProofError Unit × Dossier :=
  match d.journal.keep e with
  | (.error cause, journal) => (.error cause, { d with journal })
  | (.ok (), journal) =>
    match e with
    | .premise id _ _ false => (.ok (), { d with journal }.spendPending id)
    | _ => (.ok (), { d with journal })

instance : Keeper Dossier := ⟨keep, fun d => { config := d.config }⟩

end Dossier

/-- A relay that keeps a dossier. -/
abbrev Session (τ : Type) : Type := Relay Dossier τ

namespace Session

variable {τ : Type}

/-- A session at its start, with a configuration. -/
def new (τ : Type) (config : Config) : Session τ := { keeper := { config } }

/-- The proof recorded in a session. -/
def proof (s : Session τ) : Proof := s.keeper.journal.proof

/-- The phase a session is in. -/
def phase (s : Session τ) : Phase := s.keeper.journal.phase

/-- What a session knows of the formula's two parts. -/
def labels (s : Session τ) : Labelling := s.keeper.labels

/-- The configuration of a session. -/
def config (s : Session τ) : Config := s.keeper.config

/-- What is reported of the most recent solve. -/
def report (s : Session τ) : Report := s.phase.report

/-- The session with another labelling. -/
def withLabels (s : Session τ) (labels : Labelling) : Session τ :=
  { s with keeper := { s.keeper with labels } }

/-- The session with another configuration. -/
def withConfig (s : Session τ) (config : Config) : Session τ :=
  { s with keeper := { s.keeper with config } }

/-! ## Configuration -/

/-- Asks for another system, if the session is young enough. -/
def setMode (s : Session τ) (mode : Mode) : Except SettingError (Session τ) :=
  (s.config.setMode mode s.phase).map s.withConfig

/-- Has derivations checked or not, if the session is young enough. -/
def setCheckDerivations (s : Session τ) (value : Bool) : Except SettingError (Session τ) :=
  (s.config.setCheckDerivations value s.phase).map s.withConfig

/-- Has chains read strictly or not, if the session is young enough. -/
def setStrictChains (s : Session τ) (value : Bool) : Except SettingError (Session τ) :=
  (s.config.setStrictChains value s.phase).map s.withConfig

/-! ## Labels -/

/-- Says where a variable may occur, and returns whether that was news. -/
def setScope (s : Session τ) (atom : Nat) (scope : Scope) : Bool × Session τ :=
  let (news, labels) := s.labels.setScope atom scope
  (news, s.withLabels labels)

/-- Says which part the most recent clause with an identifier belongs to. -/
def setPart (s : Session τ) (id : Nat) (part : Part) : Except LabelError (Session τ) :=
  (s.labels.setPart s.proof id part).map s.withLabels

/-- Says in advance which part the next clause belongs to. -/
def setNextPart (s : Session τ) (part : Part) : Session τ :=
  s.withLabels (s.labels.setNextPart part)

/-- Where a variable may occur. -/
def scopeOf (s : Session τ) (atom : Nat) : Scope := s.labels.scopeOf atom

/-- The part of the most recent clause with an identifier. -/
def partOf (s : Session τ) (id : Nat) : Except LabelError Part := s.labels.partOf s.proof id

/-! ## Interpolants -/

/-- The interpolant that the refutation on record leads to, with fresh variables from `next`. -/
def interpolate (s : Session τ) (next : Nat) : Except InterpolationError Interpolant :=
  Interpolation.interpolate s.proof s.labels s.config next

end Session

end Interpolation
