import Interpolation.Conclusion
import Interpolation.Mode
import Interpolation.Text.Quoted

/-!
# What can go wrong

Errors are causes.  Each part of the library has its own: recording a proof, labelling,
constructing an interpolant, revising a setting.  An observer of a proof can fail in ways of its
own as well, and an `Error` is any of these.

An error of a consumer to which an event was passed on arrives wrapped, as `Error.consumer`, so
that it can be told from an error of the one who passed the event on.  Errors that concern the
passing on of events are together the *forwarding* errors (`Error.isForwarding`); they are
passed back as they are, and so an error is wrapped once however deeply consumers nest.

`Error.message` writes an error out: its kind, and between brackets the cause with what it
concerns.
-/

namespace Interpolation

/-- Why an event was not recorded. -/
inductive ProofError
  /-- No active clause has the identifier. -/
  | unknownClause (id : Nat)
  /-- An antecedent of a derived clause is no active clause. -/
  | danglingAntecedent (clause antecedent : Nat)
  /-- A fresh clause has the identifier of an active clause. -/
  | duplicateClause (id : Nat)
  /-- The start of the proof was noted before. -/
  | proofAlreadyBegun
  /-- The formula has been refuted, and nothing may follow. -/
  | sessionConcluded
  /-- Zero stands among the literals of the clause. -/
  | zeroLiteral (id : Nat)
  /-- A literal of the clause has an atom past the largest. -/
  | literalOutOfBounds (id : Nat)
  /-- Every key for a record has been used. -/
  | storageExhausted
  deriving DecidableEq, Repr

/-- Why a clause has no label, or cannot be given one. -/
inductive LabelError
  /-- No clause with the identifier has been recorded. -/
  | unknownClause (id : Nat)
  /-- The clause was recorded and has no label. -/
  | unlabelledClause (id : Nat)
  deriving DecidableEq, Repr

/-- Why there is no interpolant. -/
inductive InterpolationError
  /-- Unsatisfiability has not been concluded. -/
  | noRefutation
  /-- The conclusion is relative, and so refutes something other than the formula. -/
  | unsupportedConclusion (conclusion : Conclusion)
  /-- The system asked for is not worked out. -/
  | unsupportedMode (mode : Mode)
  /-- A premise belongs to neither part. -/
  | unknownLabel (id : Nat)
  /-- The antecedents of the clause do not resolve to it. -/
  | malformedProof (id : Nat)
  /-- What was given at the conclusion does not resolve to the empty clause. -/
  | malformedRefutation
  /-- A variable local to one part occurs in a clause of the other. -/
  | mislabelledVariable (clause atom : Nat)
  /-- There are no fresh variables left. -/
  | atomsExhausted
  /-- The first fresh variable is no atom, or is no greater than a variable in use. -/
  | invalidFreshVariable (atom : Nat)
  deriving DecidableEq, Repr

/-- Why a setting was not revised. -/
inductive SettingError
  /-- The session has come too far for the setting to be revised. -/
  | locked (name : String)
  /-- The value is outside the bounds of the setting. -/
  | outOfBounds (name : String)
  deriving DecidableEq, Repr

/-- Whatever can go wrong, in any part. -/
inductive Error
  /-- An event was not recorded. -/
  | proof (cause : ProofError)
  /-- A label was not found, or not set. -/
  | label (cause : LabelError)
  /-- No interpolant was constructed. -/
  | interpolation (cause : InterpolationError)
  /-- A setting was not revised. -/
  | setting (cause : SettingError)
  /-- The receiving end of a channel is gone. -/
  | disconnected
  /-- A consumer refused an event, for the reason noted. -/
  | rejected (reason : String)
  /-- A consumer failed with an error of its own. -/
  | consumer (cause : Error)
  /-- An observer was held elsewhere when an event was dispatched to it. -/
  | observerInUse
  deriving DecidableEq, Repr

/-- A cause as it is written out: its name, with what it concerns between brackets. -/
def ProofError.text : ProofError → String
  | unknownClause id => s!"UnknownClause({id})"
  | danglingAntecedent clause antecedent =>
    s!"DanglingAntecedent \x7b clause: {clause}, antecedent: {antecedent} \x7d"
  | duplicateClause id => s!"DuplicateClause({id})"
  | proofAlreadyBegun => "ProofAlreadyBegun"
  | sessionConcluded => "SessionConcluded"
  | zeroLiteral id => s!"ZeroLiteral({id})"
  | literalOutOfBounds id => s!"LiteralOutOfBounds({id})"
  | storageExhausted => "StorageExhausted"

/-- A cause as it is written out: its name, with what it concerns between brackets. -/
def LabelError.text : LabelError → String
  | unknownClause id => s!"UnknownClause({id})"
  | unlabelledClause id => s!"UnlabeledClause({id})"

/-- A cause as it is written out: its name, with what it concerns between brackets. -/
def InterpolationError.text : InterpolationError → String
  | noRefutation => "NoRefutation"
  | unsupportedConclusion conclusion => s!"UnsupportedConclusion({conclusion.name})"
  | unsupportedMode mode => s!"UnsupportedMode({mode.name})"
  | unknownLabel id => s!"UnknownLabel({id})"
  | malformedProof id => s!"MalformedProof({id})"
  | malformedRefutation => "MalformedRefutation"
  | mislabelledVariable clause atom =>
    s!"MislabeledVariable \x7b clause: {clause}, atom: {atom} \x7d"
  | atomsExhausted => "AtomsExhausted"
  | invalidFreshVariable atom => s!"InvalidFreshVariable({atom})"

/-- A cause as it is written out: its name, with the quoted name of the setting. -/
def SettingError.text : SettingError → String
  | locked name => "ConfigurationLocked(" ++ Text.quote name ++ ")"
  | outOfBounds name => "OutOfBounds(" ++ Text.quote name ++ ")"

namespace Error

/-- The kind of an error: the part of the library it belongs to. -/
def kind : Error → String
  | proof _ => "ProofDB"
  | label _ => "Label"
  | interpolation _ => "Interpolation"
  | setting _ => "State"
  | disconnected => "Forward"
  | rejected _ => "Forward"
  | consumer _ => "Forward"
  | observerInUse => "Forward"

/-- Whether an error concerns the passing on of an event. -/
def isForwarding : Error → Bool
  | disconnected => true
  | rejected _ => true
  | consumer _ => true
  | observerInUse => true
  | _ => false

/-- The text of an error: its kind, and its cause between brackets. -/
def message : Error → String
  | proof cause => "ProofDB(" ++ cause.text ++ ")"
  | label cause => "Label(" ++ cause.text ++ ")"
  | interpolation cause => "Interpolation(" ++ cause.text ++ ")"
  | setting cause => "State(" ++ cause.text ++ ")"
  | disconnected => "Forward(Disconnected)"
  | rejected reason => "Forward(Rejected(" ++ Text.quote reason ++ "))"
  | consumer cause => "Forward(Consumer(" ++ cause.message ++ "))"
  | observerInUse => "Forward(TracerInUse)"

/-- How the one who passed an event on reports the error of a consumer: an error about
forwarding as it is, any other wrapped. -/
def fromConsumer (e : Error) : Error :=
  if e.isForwarding then e else consumer e

/-- Whatever a consumer returns, what is reported of it concerns forwarding. -/
@[simp] theorem isForwarding_fromConsumer (e : Error) : e.fromConsumer.isForwarding = true := by
  unfold fromConsumer
  split
  · assumption
  · rfl

/-- An error is wrapped once only. -/
@[simp] theorem fromConsumer_fromConsumer (e : Error) :
    e.fromConsumer.fromConsumer = e.fromConsumer := by
  rw [fromConsumer.eq_def e.fromConsumer, if_pos (isForwarding_fromConsumer e)]

end Error

end Interpolation
