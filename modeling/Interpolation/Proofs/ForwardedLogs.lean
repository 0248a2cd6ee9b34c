import Interpolation.Observer.Recorder
import Interpolation.Proofs.JournalSteps
import Interpolation.Proofs.RelayAnswers

/-!
# What is passed on is enough to make the proof again

A relay passes on what its keeper accepts.  So a recorder that was the consumer from the
start holds the events that were not refused, each as it was announced, and nothing else: not
the events that the keeper refused, although the solver did announce them.

That is enough to make the proof again.  An event that was refused has left no trace
(`Journal.keep_of_error`), so a journal that is told of the accepted events alone goes through
the same states; in particular it accepts them all, in whatever state it would have been had
it been told of the others too.  The one thing that a refusal can leave behind, a deleted
identifier forgotten for want of room, needs every key to be in use.

* `Relay.standing_eq_accepted` --- which events stand can be told from the answers;
* `Relay.consumer_noteAll` --- what a recorder holds;
* `Journal.replay_accepted` --- what is accepted can be replayed, and leads to the same
  journal;
* `Scribe.replay_log` --- the log of a scribe makes the scribe's journal again.
-/

namespace Interpolation

/-! ## Announcements and answers -/

namespace Observer

variable {ε τ : Type} [Observer ε τ]

/-- The events that stand, of those of which an observer is told in turn, whatever it answers. -/
def standing (surroundings : ε) (observer : τ) : List Event → List Event
  | [] => []
  | e :: rest =>
    let reaction : Reaction ε τ := note surroundings observer e
    let others := standing reaction.surroundings reaction.observer rest
    if stands reaction.outcome then e :: others else others

variable {surroundings : ε} {observer : τ} {e : Event}

theorem standing_cons_of_stands (h : stands (note surroundings observer e).outcome = true)
    (rest : List Event) :
    standing surroundings observer (e :: rest) =
      e :: standing (note surroundings observer e).surroundings
        (note surroundings observer e).observer rest := if_pos h

theorem standing_cons_of_not (h : stands (note surroundings observer e).outcome = false)
    (rest : List Event) :
    standing surroundings observer (e :: rest) =
      standing (note surroundings observer e).surroundings
        (note surroundings observer e).observer rest := if_neg (ne_true_of_eq_false h)

/-- A replay goes on as long as the answer is success. -/
theorem replay_cons_of_ok {later : τ} {outside : ε}
    (h : note surroundings observer e = ⟨.ok (), later, outside⟩) (rest : List Event) :
    replay surroundings observer (e :: rest) = replay outside later rest := by
  rw [replay, h]

end Observer

namespace Keeper

variable {α : Type} [Keeper α]

/-- The record after events, whether or not they were accepted. -/
def keepAll (keeper : α) : List Event → α
  | [] => keeper
  | e :: rest => keepAll (keep keeper e).2 rest

theorem keepAll_append (keeper : α) (before after : List Event) :
    keepAll keeper (before ++ after) = keepAll (keepAll keeper before) after := by
  induction before generalizing keeper with
  | nil => rfl
  | cons e rest ih => exact ih (keep keeper e).2

/-- The events that a keeper accepts, of those that it is given in turn. -/
def accepted (keeper : α) : List Event → List Event
  | [] => []
  | e :: rest =>
    match (keep keeper e).1 with
    | .ok () => e :: accepted (keep keeper e).2 rest
    | .error _ => accepted (keep keeper e).2 rest

theorem accepted_cons_of_ok {keeper : α} {e : Event} (h : (keep keeper e).1 = .ok ())
    (rest : List Event) :
    accepted keeper (e :: rest) = e :: accepted (keep keeper e).2 rest := by
  rw [accepted, h]

theorem accepted_cons_of_error {keeper : α} {e : Event} {cause : ProofError}
    (h : (keep keeper e).1 = .error cause) (rest : List Event) :
    accepted keeper (e :: rest) = accepted (keep keeper e).2 rest := by
  rw [accepted, h]

end Keeper

/-- A derived clause reads on record as it was announced, so it makes no difference from which
of the two it is passed on. -/
theorem Proof.exists_record_of_addDerived {p q : Proof} {id key : Nat} {redundant : Bool}
    {clause : Clause} {antecedents : List Nat}
    (h : p.addDerived id redundant clause antecedents = (.ok key, q)) :
    ∃ record, q.record? key = some record ∧ record.id = some id ∧ record.clause = clause := by
  have houtcome := Operation.outcome_derived p id redundant clause antecedents
  rw [Operation.attempt, h] at houtcome
  cases houtcome with
  | derived id redundant clause ids keys =>
    exact ⟨_, (Proof.record?_push p _ p.size).trans (if_pos rfl), rfl, rfl⟩

/-! ## What a relay keeps and passes on -/

namespace Relay

open Observer Keeper

variable {α ε τ : Type} [Keeper α]

section

variable [Observer ε τ] {surroundings : ε} {r : Relay α τ} {e : Event}

/-- What a relay keeps is what its keeper would have kept alone. -/
theorem keeper_noteAll (surroundings : ε) (r : Relay α τ) (events : List Event) :
    (noteAll surroundings r events).1.keeper = keepAll r.keeper events := by
  induction events generalizing surroundings r with
  | nil => rfl
  | cons e rest ih =>
    show (noteAll _ (Relay.note surroundings r e).observer rest).1.keeper =
      keepAll (keep r.keeper e).2 rest
    rw [ih, keeper_note]

/-- Which events stand can be told from the answers, whatever the consumer answers. -/
theorem standing_eq_accepted (surroundings : ε) (r : Relay α τ) (events : List Event) :
    standing surroundings r events = accepted r.keeper events := by
  induction events generalizing surroundings r with
  | nil => rfl
  | cons e rest ih =>
    cases hkeep : (keep r.keeper e).1 with
    | ok u =>
      rw [standing_cons_of_stands (stands_note_of_ok hkeep), accepted_cons_of_ok hkeep, ih]
      exact congrArg (fun k => e :: accepted k rest) keeper_note
    | error cause =>
      rw [standing_cons_of_not (stands_note_of_error hkeep), accepted_cons_of_error hkeep, ih]
      exact congrArg (fun k => accepted k rest) keeper_note

end

/-! ## The log of a recorder -/

variable {surroundings : ε} {r : Relay α Recorder} {log : Recorder} {e : Event}

/-- What the keeper accepts is added to the log. -/
theorem consumer_note_of_ok (hr : r.consumer = some log) (h : (keep r.keeper e).1 = .ok ()) :
    (Relay.note surroundings r e).observer.consumer = some (log.push e) := by
  rw [note_of_ok h, hr]
  rfl

/-- What the keeper refuses is not added to the log. -/
theorem consumer_note_of_error (hr : r.consumer = some log) {cause : ProofError}
    (h : (keep r.keeper e).1 = .error cause) :
    (Relay.note surroundings r e).observer.consumer = some log := by
  rw [note_of_error h]
  exact hr

/-- A recorder holds what it held, and then what the keeper accepted. -/
theorem consumer_noteAll (surroundings : ε) (hr : r.consumer = some log) (events : List Event) :
    ∃ longer : Recorder, (noteAll surroundings r events).1.consumer = some longer ∧
      longer.events.toList = log.events.toList ++ accepted r.keeper events := by
  induction events generalizing surroundings r log with
  | nil => exact ⟨log, hr, (List.append_nil _).symm⟩
  | cons e rest ih =>
    show ∃ longer : Recorder,
      (noteAll _ (Relay.note surroundings r e).observer rest).1.consumer = some longer ∧ _
    cases hkeep : (keep r.keeper e).1 with
    | ok u =>
      obtain ⟨longer, hconsumer, hevents⟩ := ih _ (consumer_note_of_ok hr hkeep)
      refine ⟨longer, hconsumer, ?_⟩
      rw [hevents, keeper_note, Recorder.toList_push, accepted_cons_of_ok hkeep, List.append_assoc,
        List.singleton_append]
    | error cause =>
      obtain ⟨longer, hconsumer, hevents⟩ := ih _ (consumer_note_of_error hr hkeep)
      refine ⟨longer, hconsumer, ?_⟩
      rw [hevents, keeper_note, accepted_cons_of_error hkeep]

end Relay

/-! ## The log replayed -/

namespace Journal

open Observer Keeper

variable {ε τ : Type} [Observer ε τ]

/-- Events never take a record away, accepted or not. -/
theorem size_le_keepAll (j : Journal) (events : List Event) :
    j.proof.size ≤ (keepAll j events).proof.size := by
  induction events generalizing j with
  | nil => exact Nat.le_refl _
  | cons e rest ih => exact Nat.le_trans (j.extends_keep e).size_le (ih (j.keep e).2)

/-- **The accepted events alone lead a journal to where all the events led it**, and none of
them is refused. -/
theorem replay_accepted {r : Scribe τ} (hr : r.consumer = none) (surroundings : ε)
    (events : List Event) (hsize : (keepAll r.keeper events).proof.size < Proof.capacity) :
    replay surroundings r (accepted r.keeper events) =
      ⟨.ok (), { r with keeper := keepAll r.keeper events }, surroundings⟩ := by
  induction events generalizing r with
  | nil => rfl
  | cons e rest ih =>
    cases hkeep : (r.keeper.keep e).1 with
    | ok u =>
      rw [accepted_cons_of_ok hkeep]
      rw [replay_cons_of_ok (Relay.note_of_unobserved surroundings hr hkeep)]
      exact ih (r := { r with keeper := (r.keeper.keep e).2 }) hr hsize
    | error cause =>
      -- nothing is left of a refusal: there was a key to spare, since there is one at the end
      have hspare : r.keeper.proof.size < Proof.capacity :=
        Nat.lt_of_le_of_lt (size_le_keepAll r.keeper (e :: rest)) hsize
      have hsame : (r.keeper.keep e).2 = r.keeper := keep_of_error hspare hkeep
      have hall : keepAll r.keeper (e :: rest) = keepAll r.keeper rest :=
        congrArg (keepAll · rest) hsame
      rw [hall] at hsize ⊢
      rw [accepted_cons_of_error hkeep]
      exact (congrArg (fun j => replay surroundings r (accepted j rest)) hsame).trans (ih hr hsize)

end Journal

namespace Scribe

open Observer

/-- A scribe at its start, with a recorder that has kept nothing yet for its consumer. -/
def recorded : Scribe Recorder := ((Scribe.new Recorder).connect {}).2

/-- **The log of a scribe makes the scribe's journal again.**  The recorder holds the events
that the scribe did not itself refuse, in order and as they were announced.  Replayed to
another scribe at its start they are all accepted, and its journal is then the same in every
part: the records, what each identifier stands for, the conclusion, the phase and the
counts. -/
theorem replay_log {ε τ : Type} [Observer ε τ] (surroundings : ε) (events : List Event)
    (hsize : (noteAll surroundings recorded events).1.keeper.proof.size < Proof.capacity) :
    ∃ (log : Recorder) (again : Scribe τ),
      (noteAll surroundings recorded events).1.consumer = some log ∧
        log.events.toList = standing surroundings recorded events ∧
        replay surroundings (Scribe.new τ) log.events.toList = ⟨.ok (), again, surroundings⟩ ∧
        again.keeper = (noteAll surroundings recorded events).1.keeper := by
  have hkeeper := Relay.keeper_noteAll surroundings recorded events
  have hfresh : recorded.consumer = some {} := rfl
  obtain ⟨log, hconsumer, hlog⟩ := Relay.consumer_noteAll surroundings hfresh events
  have hevents : log.events.toList = Keeper.accepted recorded.keeper events := hlog
  rw [hkeeper] at hsize
  refine ⟨log, { Scribe.new τ with keeper := Keeper.keepAll recorded.keeper events }, hconsumer,
    ?_, ?_, hkeeper.symm⟩
  · rw [hevents, Relay.standing_eq_accepted]
  · rw [hevents]
    exact Journal.replay_accepted (r := Scribe.new τ) rfl surroundings events hsize

/-- A run in which a clause is put back with its literals in another order, then put back with
others while it is active, and in which five events are refused. -/
def refusingRun : List Event :=
  [.begin 1, .premise 1 false [1, -2] false, .premise 1 false [3] false, .begin 1,
    .delete 1 false [1, -2], .premise 1 false [-2, 1] true, .premise 1 false [-2, 1, 3] true,
    .premise 2 false [2] false, .derived 3 true [1] [2, 5], .derived 3 true [1] [2, 1],
    .premise 4 false [-1] false, .assume 1, .solve, .unsat .conflict [3, 4], .sat [1],
    .delete 4 false [-1], .premise 5 false [1] false, .status 20 0]

theorem replay_log_refusingRun :
    (noteAll () recorded refusingRun).1.keeper.proof.size < Proof.capacity ∧
      ∃ (log : Recorder) (again : Scribe Silent),
        (noteAll () recorded refusingRun).1.consumer = some log ∧
          log.events.toList = standing () recorded refusingRun ∧
          replay () (Scribe.new Silent) log.events.toList = ⟨.ok (), again, ()⟩ ∧
          again.keeper = (noteAll () recorded refusingRun).1.keeper := by
  have hsize : (noteAll () recorded refusingRun).1.keeper.proof.size < Proof.capacity := by
    decide +kernel
  exact ⟨hsize, replay_log () refusingRun hsize⟩

end Scribe

end Interpolation
