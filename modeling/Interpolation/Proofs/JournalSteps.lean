import Interpolation.Journal
import Interpolation.Proofs.Ancestry

/-!
# What an event does to a journal

A journal makes two things of an event.  Most events that bear on the proof call for an
operation on it (`Event.operation?`); and an event that is accepted, because its operation is
or because it calls for none, may move the phase and the counts on (`Journal.accept`).  That
is all, and it is the same for every kind of event (`Journal.keep_eq`), so what is known of
operations carries over to journals.

* `Journal.keep_eq` --- an event is an operation and, if that is accepted, what follows;
* `Journal.keep_of_ok`, `Journal.exists_refused` --- an event accepted, and an event refused;
* `Journal.keep_of_error` --- a refused event leaves no trace, as long as there is a key to
  spare;
* `Journal.extends_keep` --- events never take a record away.
-/

namespace Interpolation

/-- The operation on the proof that an event calls for, if it calls for one. -/
def Event.operation? : Event → Option Operation
  | .begin firstId => some (.begin firstId)
  | .premise id redundant clause restored => some (.premise id redundant clause restored)
  | .derived id redundant clause antecedents => some (.derived id redundant clause antecedents)
  | .delete id _ _ => some (.delete id)
  | .unsat conclusion chain => some (.conclude conclusion chain)
  | .sat _ => some .withdraw
  | _ => none

/-- The identifier of the clause that an event brings in, if it brings one in. -/
def Event.newId? (e : Event) : Option Nat := e.operation?.bind Operation.newId?

/-- No event releases what is on record. -/
theorem Event.operation?_ne_reset {e : Event} {operation : Operation}
    (h : e.operation? = some operation) : operation ≠ .reset := by
  rintro rfl
  cases e <;> simp [Event.operation?] at h

namespace Journal

/-- What becomes of the phase and the counts when an event is accepted. -/
def accept (j : Journal) : Event → Journal
  | .begin _ => { j with phase := j.phase.withInput }
  | .premise .. => { j with phase := j.phase.withInput, premises := j.premises + 1 }
  | .derived .. => { j with phase := j.phase.withInput, derived := j.derived + 1 }
  | .delete .. => { j with deleted := j.deleted + 1 }
  | .unsat .. => { j with phase := .unsatisfiable }
  | .sat _ => { j with phase := .satisfiable }
  | .unknown _ => { j with phase := j.phase.givenUp }
  | .solve => if j.proof.refutation.isNone then { j with phase := .solving } else j
  | _ => j

/-- Phase and counts apart, a journal is as it was. -/
@[simp] theorem proof_accept (j : Journal) (e : Event) : (j.accept e).proof = j.proof := by
  cases e <;> try rfl
  show (if j.proof.refutation.isNone then { j with phase := .solving } else j).proof = j.proof
  split <;> rfl

section

variable {α : Type} {result : Except ProofError α × Proof} {accepted : Journal → Journal}

/-- How an answer is read makes no difference to a journal. -/
theorem settle_answering (j : Journal) (key? : α → Option Nat)
    (result : Except ProofError α × Proof) (accepted : Journal → Journal) :
    j.settle result accepted = j.settle (Operation.answering key? result) accepted := by
  obtain ⟨answer, proof⟩ := result
  cases answer <;> rfl

/-- A journal refuses what the proof refuses. -/
theorem settle_eq_error_iff {j : Journal} {cause : ProofError} :
    (j.settle result accepted).1 = .error cause ↔ result.1 = .error cause := by
  obtain ⟨answer, proof⟩ := result
  cases answer <;> simp [settle]

/-- What is refused changes the proof at most. -/
theorem settle_of_error {j : Journal} {cause : ProofError} (h : result.1 = .error cause) :
    (j.settle result accepted).2 = { j with proof := result.2 } := by
  obtain ⟨answer, proof⟩ := result
  obtain rfl : answer = .error cause := h
  rfl

/-- What is accepted was accepted by the proof. -/
theorem exists_ok_of_settle {j : Journal} (h : (j.settle result accepted).1 = .ok ()) :
    ∃ a, result.1 = .ok a := by
  obtain ⟨answer, proof⟩ := result
  cases answer with
  | error cause => exact absurd h (by simp [settle])
  | ok a => exact ⟨a, rfl⟩

/-- What is accepted changes the proof, and then whatever follows from that. -/
theorem settle_of_ok {j : Journal} {a : α} (h : result.1 = .ok a) :
    (j.settle result accepted).2 = accepted { j with proof := result.2 } := by
  obtain ⟨answer, proof⟩ := result
  obtain rfl : answer = .ok a := h
  rfl

end

/-- **An event is an operation on the proof, if it calls for one, and what follows from its
being accepted.** -/
theorem keep_eq (j : Journal) (e : Event) :
    j.keep e =
      match e.operation? with
      | none => (.ok (), j.accept e)
      | some operation => j.settle (operation.attempt j.proof) fun j => j.accept e := by
  have hsettle {α : Type} (key? : α → Option Nat) (result : Except ProofError α × Proof) :=
    j.settle_answering key? result fun j => j.accept e
  cases e with
  | «begin» firstId => exact hsettle (fun _ => none) (j.proof.begin firstId)
  | premise id redundant clause restored =>
    exact hsettle some (j.proof.addPremise id redundant clause restored)
  | derived id redundant clause antecedents =>
    exact hsettle some (j.proof.addDerived id redundant clause antecedents)
  | delete id redundant clause => exact hsettle some (j.proof.delete id)
  | unsat conclusion chain => exact hsettle (fun _ => none) (j.proof.conclude conclusion chain)
  | sat model => exact hsettle (fun _ => none) j.proof.withdraw
  | _ => rfl

/-- The proof in a journal is what the operation leaves, if the event calls for one. -/
theorem proof_keep (j : Journal) (e : Event) :
    (j.keep e).2.proof =
      match e.operation? with
      | none => j.proof
      | some operation => operation.apply j.proof := by
  rw [keep_eq]
  cases e.operation? with
  | none => exact j.proof_accept e
  | some operation =>
    show (j.settle (operation.attempt j.proof) fun j => j.accept e).2.proof =
      operation.apply j.proof
    rw [← Operation.snd_attempt]
    obtain ⟨answer, proof⟩ := operation.attempt j.proof
    cases answer with
    | ok key => exact proof_accept _ e
    | error cause => rfl

/-- An accepted event leaves the proof that the operation leaves, and moves phase and counts on. -/
theorem keep_of_ok {j : Journal} {e : Event} (h : (j.keep e).1 = .ok ()) :
    (j.keep e).2 = { j with proof := (j.keep e).2.proof }.accept e := by
  rw [keep_eq] at h ⊢
  cases hoperation : e.operation? with
  | none =>
    show j.accept e = { j with proof := (j.accept e).proof }.accept e
    rw [proof_accept]
  | some operation =>
    rw [hoperation] at h
    obtain ⟨key, hkey⟩ := exists_ok_of_settle h
    show (j.settle (operation.attempt j.proof) _).2 =
      { j with proof := (j.settle (operation.attempt j.proof) _).2.proof }.accept e
    rw [settle_of_ok hkey, proof_accept]

/-- A refusal comes from the operation that the event calls for, and changes nothing but what
that leaves of the proof. -/
theorem exists_refused {j : Journal} {e : Event} {cause : ProofError}
    (h : (j.keep e).1 = .error cause) :
    ∃ operation, e.operation? = some operation ∧
      (operation.attempt j.proof).1 = .error cause ∧
      (j.keep e).2 = { j with proof := (operation.attempt j.proof).2 } := by
  rw [keep_eq] at h ⊢
  cases hoperation : e.operation? with
  | none =>
    rw [hoperation] at h
    exact absurd h (by simp)
  | some operation =>
    rw [hoperation] at h
    have hrefused := settle_eq_error_iff.mp h
    exact ⟨operation, rfl, hrefused, settle_of_error hrefused⟩

/-- A refused event leaves no trace, as long as there is a key to spare. -/
theorem keep_of_error {j : Journal} {e : Event} {cause : ProofError}
    (hsize : j.proof.size < Proof.capacity) (h : (j.keep e).1 = .error cause) :
    (j.keep e).2 = j := by
  obtain ⟨operation, -, hrefused, hleft⟩ := exists_refused h
  rw [hleft, (Operation.outcome_attempt j.proof operation).eq_of_error hsize hrefused]

/-- Events never take a record away. -/
theorem extends_keep (j : Journal) (e : Event) : j.proof.Extends (j.keep e).2.proof := by
  rw [proof_keep]
  cases hoperation : e.operation? with
  | none => exact .refl j.proof
  | some operation => exact Proof.Extends.apply (Event.operation?_ne_reset hoperation)

end Journal

end Interpolation
