import Interpolation.Observer.Channel
import Interpolation.Proofs.JournalSteps
import Interpolation.Proofs.SessionRuns

/-!
# The label said in advance

A caller who is about to bring in a clause can say which part it belongs to before it does.  The
clause meant is the next fresh clause of the formula, and a session has to find out which that
is: clauses may be refused, clauses may be put back in between, and consumers may fail over
clauses that stand all the same.

It is found out by the answer alone.  A fresh clause stands when it was accepted, whatever the
consumer made of it, and then its record is the one that was just made
(`Journal.proof_keep_of_fresh`); it takes the label, and the label is gone.  Every other event
leaves all labels alone.  So the label waits, however long it takes, and reaches that one record
and no other (`Session.awaits_of_setNextPart`).

* `Event.bringsIn` --- whether an event brought in a fresh clause, by its answer;
* `Session.labels_note_of_bringsIn`, `Session.labels_note_of_not` --- the labels after an event;
* `Session.pending_perform`, `Session.pending_run` --- the label said in advance, in a call and in
  a run.
-/

namespace Interpolation

/-! ## Fresh clauses -/

namespace Event

/-- Whether an event brings in a clause of the formula afresh. -/
def fresh : Event → Bool
  | .premise _ _ _ false => true
  | _ => false

/-- Whether an event that is answered so has brought in a fresh clause. -/
def bringsIn (e : Event) (answer : Except Error Unit) : Bool := e.fresh && stands answer

theorem exists_of_fresh {e : Event} (h : e.fresh = true) :
    ∃ id redundant clause, e = .premise id redundant clause false := by
  unfold fresh at h
  split at h
  · exact ⟨_, _, _, rfl⟩
  · exact absurd h Bool.false_ne_true

end Event

namespace Journal

/-- A fresh clause that is accepted has a record of its own, at the first key that was free. -/
theorem proof_keep_of_fresh {j : Journal} {id : Nat} {redundant : Bool} {clause : Clause}
    (h : (j.keep (.premise id redundant clause false)).1 = .ok ()) :
    (j.keep (.premise id redundant clause false)).2.proof =
      j.proof.entered id (.premise id redundant clause) := by
  rw [keep_eq] at h
  obtain ⟨key, hkey⟩ := exists_ok_of_settle h
  have houtcome := Operation.outcome_premise j.proof id redundant clause false
  rw [proof_keep]
  show ((Operation.premise id redundant clause false).apply j.proof) = _
  rw [← Operation.snd_attempt]
  generalize Operation.attempt j.proof _ = result at hkey houtcome
  cases houtcome with
  | refused | full => exact absurd hkey (by simp)
  | premise => rfl

end Journal

/-! ## The labels after an event -/

namespace Dossier

variable {d : Dossier} {e : Event}

/-- What is refused leaves the labels alone, and so does what is not fresh. -/
theorem labels_keep_of_not (h : e.fresh = true → ∃ cause, (d.journal.keep e).1 = .error cause) :
    (d.keep e).2.labels = d.labels := by
  cases hkeep : (d.journal.keep e).1 with
  | error cause => rw [keep_of_error hkeep]
  | ok u =>
    rw [keep_of_ok hkeep]
    unfold accept
    split
    · obtain ⟨cause, hcause⟩ := h rfl
      rw [hkeep] at hcause
      exact absurd hcause (by simp)
    · rfl

/-- A fresh clause that is accepted takes the label said in advance, if one was. -/
theorem labels_keep_of_fresh {id : Nat} {redundant : Bool} {clause : Clause}
    (h : (d.journal.keep (.premise id redundant clause false)).1 = .ok ()) :
    (d.keep (.premise id redundant clause false)).2.labels =
      (d.labels.spendPending d.journal.proof.size).2 := by
  rw [keep_of_ok h]
  show (Dossier.spendPending _ id).labels = _
  have hkey : (d.journal.keep (.premise id redundant clause false)).2.proof.activeKey? id =
      some d.journal.proof.size := by
    rw [Journal.proof_keep_of_fresh h]
    exact NatMap.find?_insert_self _ _ _
  simp only [spendPending, hkey]

end Dossier

namespace Session

open Observer

variable {ε τ : Type} [Observer ε τ] {surroundings : ε} {s : Session τ} {e : Event}

/-- **An event that brings in no fresh clause leaves the labels alone,** those given and the one
said in advance. -/
theorem labels_note_of_not (h : e.bringsIn (note surroundings s e).outcome = false) :
    (note surroundings s e).observer.labels = s.labels := by
  rw [labels, keeper_note]
  refine Dossier.labels_keep_of_not fun hfresh => ?_
  cases hkeep : (s.keeper.journal.keep e).1 with
  | error cause => exact ⟨cause, rfl⟩
  | ok u =>
    have hstands : stands (note surroundings s e).outcome = true :=
      Relay.stands_note_of_ok ((s.keeper.fst_keep e).trans hkeep)
    rw [Event.bringsIn, hfresh, hstands] at h
    exact absurd h (by decide)

/-- **An event that brings in a fresh clause makes a record of it, and gives the record the label
said in advance,** if one was. -/
theorem labels_note_of_bringsIn (h : e.bringsIn (note surroundings s e).outcome = true) :
    (note surroundings s e).observer.labels = (s.labels.spendPending s.proof.size).2 ∧
      ∃ id redundant clause, e = .premise id redundant clause false ∧
        (note surroundings s e).observer.proof =
          s.proof.entered id (.premise id redundant clause) := by
  obtain ⟨hfresh, hstands⟩ := Bool.and_eq_true_iff.mp h
  obtain ⟨id, redundant, clause, rfl⟩ := Event.exists_of_fresh hfresh
  have hkept := kept_of_stands hstands
  refine ⟨?_, id, redundant, clause, rfl, ?_⟩
  · rw [labels, keeper_note]
    exact Dossier.labels_keep_of_fresh hkept
  · rw [proof_note]
    exact Journal.proof_keep_of_fresh hkept

/-- Whether a fresh clause was brought in is the journal's decision, and the consumer has no part
in it. -/
theorem bringsIn_note :
    e.bringsIn (note surroundings s e).outcome = true ↔
      e.fresh = true ∧ (s.keeper.journal.keep e).1 = .ok () := by
  rw [Event.bringsIn, Bool.and_eq_true_iff]
  refine and_congr_right fun _ => ⟨kept_of_stands, fun hkept => ?_⟩
  exact Relay.stands_note_of_ok ((s.keeper.fst_keep e).trans hkept)

end Session

/-! ## Runs -/

/-- To label a clause leaves what was said in advance to the next one. -/
theorem Labelling.pending_setPart {l m : Labelling} {p : Proof} {id : Nat} {part : Part}
    (h : l.setPart p id part = .ok m) : m.pending = l.pending := by
  unfold setPart at h
  split at h
  · exact absurd h (by simp)
  · obtain rfl := Except.ok.inj h
    rfl

/-- Whether a call has a say in what label is to be given in advance: it names one, or it starts
the session afresh. -/
def Call.redirects : Call → Bool
  | .setNextPart _ => true
  | .reset => true
  | _ => false

/-- Whether a call that is replied to so has brought in a fresh clause. -/
def Call.bringsIn : Call → Reply → Bool
  | .note e, .noted answer => e.bringsIn answer
  | _, _ => false

/-- Whether a step has a say in what label is to be given in advance. -/
def Step.redirects {ε τ : Type} : Step ε τ → Bool
  | call c => c.redirects
  | _ => false

namespace Session

open Observer

variable {ε τ : Type} [Observer ε τ] {surroundings : ε} {s : Session τ}

/-- **What was said in advance is spent on a fresh clause that is brought in, and on nothing
else,** unless it is the call itself that says something else. -/
theorem pending_perform {c : Call} (hc : c.redirects = false) :
    (s.perform surroundings c).2.1.labels.pending =
      if c.bringsIn (s.perform surroundings c).1 then none else s.labels.pending := by
  have hconfig := exists_withConfig (s := s) (c := c) surroundings
  cases c with
  | note e =>
    show (Observer.note surroundings s e).observer.labels.pending =
      if e.bringsIn (Observer.note surroundings s e).outcome then none else s.labels.pending
    split
    · rename_i h
      rw [(labels_note_of_bringsIn h).1, Labelling.pending_spendPending]
    · rename_i h
      rw [labels_note_of_not (Bool.eq_false_iff.mpr h)]
  | setMode | setCheckDerivations | setStrictChains | interpolate =>
    obtain ⟨config, hsame⟩ := hconfig rfl
    rw [hsame]
    rfl
  | setScope atom scope => rfl
  | setPart id part =>
    let Spares : Session τ → Prop := fun t => t.labels.pending = s.labels.pending
    exact revise_ind (P := Spares) rfl (s.labels.setPart s.proof id part) _ fun _ hlabels =>
      Labelling.pending_setPart hlabels
  | setNextPart | reset => exact absurd hc (by simp [Call.redirects])

/-- What was said in advance waits for the first fresh clause that is brought in, however many
steps it takes; and where nothing was said nothing is. -/
theorem pending_run {pending : Option Part} {steps : List (Step ε τ)}
    (h : s.labels.pending = pending) (hsteps : ∀ step ∈ steps, step.redirects = false)
    (hwait : pending = none ∨ ∀ exchange ∈ s.exchanges surroundings steps,
      exchange.1.bringsIn exchange.2 = false) :
    (s.run surroundings steps).2.1.labels.pending = pending := by
  refine run_ind (P := fun d => d.labels.pending = pending) h fun outside t c hc ht => ?_
  show (t.perform outside c).2.1.labels.pending = pending
  rw [pending_perform (hsteps _ (call_mem_of_mem_exchanges hc)), show t.labels.pending = _ from ht]
  rcases hwait with rfl | hwait
  · exact ite_self none
  · rw [hwait _ hc]
    rfl

/-- What is so of a session in which a label was said in advance, until it is spent. -/
structure Awaits (surroundings : ε) (s : Session τ) (part : Part) : Prop where
  /-- The label is waiting. -/
  pending : s.labels.pending = some part
  /-- An event brings in a fresh clause when it announces one that the journal accepts, whatever
  the consumer answers. -/
  bringsIn : ∀ e, e.bringsIn (note surroundings s e).outcome = true ↔
    e.fresh = true ∧ (s.keeper.journal.keep e).1 = .ok ()
  /-- Any other event leaves all labels as they are. -/
  unchanged : ∀ e, e.bringsIn (note surroundings s e).outcome = false →
    (note surroundings s e).observer.labels = s.labels
  /-- A fresh clause that is brought in has a record at a key at which there was none. -/
  recorded : ∀ e, e.bringsIn (note surroundings s e).outcome = true →
    ∃ id redundant clause, e = .premise id redundant clause false ∧
      s.proof.record? s.proof.size = none ∧
      (note surroundings s e).observer.proof.record? s.proof.size =
        some (.premise id redundant clause)
  /-- That record has the label from then on, and the labels are otherwise as they were, but that
  none is said in advance. -/
  labelled : ∀ e, e.bringsIn (note surroundings s e).outcome = true →
    (note surroundings s e).observer.labels = { s.labels with
      parts := s.labels.parts.insert s.proof.size part
      pending := none }
  /-- No event changes a label after that, until one is said in advance again or the session is
  started afresh. -/
  spent : ∀ e, e.bringsIn (note surroundings s e).outcome = true →
    ∀ steps : List (Step ε τ), (∀ step ∈ steps, step.redirects = false) →
      let later := (note surroundings s e).observer.run (note surroundings s e).surroundings steps
      later.2.1.labels.pending = none ∧
        ∀ e', (note later.2.2 later.2.1 e').observer.labels = later.2.1.labels

/-- With no label said in advance no event changes any. -/
theorem labels_note_of_pending (h : s.labels.pending = none) (e : Event) :
    (note surroundings s e).observer.labels = s.labels := by
  cases hbrings : e.bringsIn (note surroundings s e).outcome with
  | false => exact labels_note_of_not hbrings
  | true => rw [(labels_note_of_bringsIn hbrings).1, Labelling.spendPending, h]

/-- A label that is waiting goes to the first fresh clause that is brought in. -/
theorem awaits_of_pending {part : Part} (h : s.labels.pending = some part) :
    s.Awaits surroundings part where
  pending := h
  bringsIn _ := bringsIn_note
  unchanged _ := labels_note_of_not
  recorded e hbrings := by
    obtain ⟨-, id, redundant, clause, he, hproof⟩ := labels_note_of_bringsIn hbrings
    refine ⟨id, redundant, clause, he, Array.getElem?_eq_none (Nat.le_refl _), ?_⟩
    rw [hproof]
    exact (Proof.record?_push s.proof _ s.proof.size).trans (if_pos rfl)
  labelled e hbrings := by
    rw [(labels_note_of_bringsIn hbrings).1, Labelling.spendPending, h]
    rfl
  spent e hbrings steps hsteps := by
    intro later
    have hnone : (note surroundings s e).observer.labels.pending = none := by
      rw [(labels_note_of_bringsIn hbrings).1, Labelling.pending_spendPending]
    have hlater : later.2.1.labels.pending = none := pending_run hnone hsteps (.inl rfl)
    exact ⟨hlater, labels_note_of_pending hlater⟩

/-- **The label said in advance reaches the next fresh clause, and no other.**  Let a label be
said in advance in any session, and let any steps follow in which neither another label is said
in advance nor the session started afresh, and in which no fresh clause is brought in.  Then the
label is still waiting, and the event that brings a fresh clause in has the record of that clause
labelled with it, and nothing else; after that it is gone.  Neither the consumers that come and
go meanwhile nor what they answer makes a difference. -/
theorem awaits_of_setNextPart (surroundings : ε) (s : Session τ) (part : Part)
    (steps : List (Step ε τ)) (hsteps : ∀ step ∈ steps, step.redirects = false)
    (hwait : ∀ exchange ∈ (s.setNextPart part).exchanges surroundings steps,
      exchange.1.bringsIn exchange.2 = false) :
    let ended := (s.setNextPart part).run surroundings steps
    ended.2.1.Awaits ended.2.2 part := by
  intro ended
  have hpending : ended.2.1.labels.pending = some part := pending_run rfl hsteps (.inr hwait)
  exact awaits_of_pending hpending

/-- What can come between a label said in advance and the clause that it is meant for: a clause is
put back and deleted, and put back once more while a consumer is connected at whose box nobody
is; a clause is refused, another derived, and an interpolant asked for in vain. -/
def interludes : List (Step Mailroom Sender) :=
  [.call (.note (.premise 1 false [1, 2] true)), .call (.setPart 1 .a),
    .call (.note (.delete 1 false [1, 2])), .connect ⟨3⟩,
    .call (.note (.premise 1 false [2, 1] true)), .call (.note (.premise 1 false [2] false)),
    .call (.note (.derived 2 true [2] [1])), .call (.interpolate 5)]

theorem awaits_of_setNextPart_interludes :
    let ended := ((new Sender {}).setNextPart .b).run ({} : Mailroom) interludes
    (∀ step ∈ interludes, step.redirects = false) ∧
      (∀ exchange ∈ ((new Sender {}).setNextPart .b).exchanges ({} : Mailroom) interludes,
        exchange.1.bringsIn exchange.2 = false) ∧
      (note ended.2.2 ended.2.1 (.premise 3 false [-2] false)).outcome =
        .error .disconnected ∧
      (note ended.2.2 ended.2.1 (.premise 3 false [-2] false)).observer.labels =
        { ended.2.1.labels with parts := ended.2.1.labels.parts.insert 2 .b, pending := none } := by
  intro ended
  have hwait : ∀ exchange ∈ ((new Sender {}).setNextPart .b).exchanges ({} : Mailroom) interludes,
      exchange.1.bringsIn exchange.2 = false := by decide
  have hawaits := awaits_of_setNextPart ({} : Mailroom) (new Sender {}) .b interludes
    (by decide) hwait
  exact ⟨by decide, hwait, rfl, hawaits.labelled (.premise 3 false [-2] false) (by decide)⟩

end Session

end Interpolation
