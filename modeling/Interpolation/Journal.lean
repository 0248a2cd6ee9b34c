import Interpolation.Observer.Relay
import Interpolation.Phase
import Interpolation.Proof.Update

/-!
# Journals

A journal follows the events of a proof.  It has the proof recorded so far, the phase the
session is in, and counts of the clauses that came and went.

The phase follows from the events.  The first thing recorded turns a session that was being
configured into one with input.  A solve is under way from its beginning, unless the formula is
known to be unsatisfiable already; a solve given up on leaves the session with its input.  A
conclusion that is accepted sets the phase, and finding a model withdraws an earlier conclusion
that was relative to assumptions or a constraint.

An event that the proof refuses changes neither phase nor counts.  Of the events that concern
no clause on record the journal takes no notice.

* `Journal.keep` --- what becomes of a journal with each event;
* `Scribe` --- a journal whose events are passed on.
-/

namespace Interpolation

/-- A proof in the making. -/
structure Journal where
  /-- What has been recorded. -/
  proof : Proof := {}
  /-- The phase of the session. -/
  phase : Phase := .configuration
  /-- How many clauses of the formula were accepted. -/
  premises : Nat := 0
  /-- How many derived clauses were accepted. -/
  derived : Nat := 0
  /-- How many deletions were accepted. -/
  deleted : Nat := 0
  deriving DecidableEq, Repr

instance : Inhabited Journal := ⟨{}⟩

/-- The phase once there is something on record. -/
def Phase.withInput : Phase → Phase
  | .configuration => .input
  | phase => phase

/-- The phase once a solve is given up on. -/
def Phase.givenUp : Phase → Phase
  | .solving => .input
  | phase => phase

namespace Journal

/-- Takes over what an operation made of the proof, with a further change if it was accepted. -/
def settle {α : Type} (j : Journal) (result : Except ProofError α × Proof)
    (accepted : Journal → Journal) : Except ProofError Unit × Journal :=
  match result with
  | (.ok _, proof) => (.ok (), accepted { j with proof })
  | (.error cause, proof) => (.error cause, { j with proof })

/-- Records an event, or refuses it. -/
def keep (j : Journal) : Event → Except ProofError Unit × Journal
  | .begin firstId =>
    j.settle (j.proof.begin firstId) fun j => { j with phase := j.phase.withInput }
  | .premise id redundant clause restored =>
    j.settle (j.proof.addPremise id redundant clause restored) fun j =>
      { j with phase := j.phase.withInput, premises := j.premises + 1 }
  | .derived id redundant clause antecedents =>
    j.settle (j.proof.addDerived id redundant clause antecedents) fun j =>
      { j with phase := j.phase.withInput, derived := j.derived + 1 }
  | .delete id _ _ =>
    j.settle (j.proof.delete id) fun j => { j with deleted := j.deleted + 1 }
  | .unsat conclusion chain =>
    j.settle (j.proof.conclude conclusion chain) fun j => { j with phase := .unsatisfiable }
  | .sat _ => j.settle j.proof.withdraw fun j => { j with phase := .satisfiable }
  | .unknown _ => (.ok (), { j with phase := j.phase.givenUp })
  | .solve =>
    (.ok (), if j.proof.refutation.isNone then { j with phase := .solving } else j)
  | _ => (.ok (), j)

/-- What is reported of the most recent solve. -/
def report (j : Journal) : Report := j.phase.report

instance : Keeper Journal := ⟨keep, fun _ => {}⟩

end Journal

/-- A relay that keeps a journal. -/
abbrev Scribe (τ : Type) : Type := Relay Journal τ

/-- A scribe at its start. -/
def Scribe.new (τ : Type) : Scribe τ := { keeper := {} }

end Interpolation
