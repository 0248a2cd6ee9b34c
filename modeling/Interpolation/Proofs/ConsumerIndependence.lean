import Interpolation.Proofs.RelayAnswers
import Interpolation.Proofs.SessionRuns

/-!
# A consumer has no say in what is recorded

A session passes its events on to a consumer, if it has one, and hands the consumer's answer
back to the solver.  That is all that a consumer has to do with it.  Whatever consumers are
connected and released in the course of a session, and whatever they answer, the session has
the same on record at every point as it would have had without them, it refuses the same
events, and it constructs the same interpolants.

There is one place where this could go wrong.  A label said in advance goes to the next fresh
clause that is recorded, and a session can find out whether one was by looking at the answer
that its scribe gives.  But that answer may be the consumer's, and a consumer may well be a
session itself, which refuses clauses for reasons of its own.  It works all the same, because
an error of a consumer arrives marked as such; so it makes no difference whether a session goes
by the answer or asks its journal (`Session.note_eq_noteByAnswer`).

Two sessions that are given the same calls are compared call by call.  What one has on record
the other has too, and the other has no consumer (`Session.Mirrors`); every call keeps it so,
and gets the same reply from both, up to errors that come from further on.

* `Session.note_eq_noteByAnswer` --- the answer tells whether a clause was recorded;
* `Session.Mirrors.perform` --- a call comes to the same with a consumer and without;
* `Session.run_eq_unobserved` --- so does a run, whatever becomes of the consumers meanwhile.
-/

namespace Interpolation

/-- A reply as far as it is the session's own: an event that stands counts as accepted, even if
it was refused further on. -/
def Reply.own : Reply → Reply
  | noted answer => noted (if stands answer then .ok () else answer)
  | reply => reply

namespace Session

open Observer

variable {ε τ : Type}

/-! ## Going by the answer -/

/-- The scribe in a session: its journal, with the consumer and the counts. -/
def scribe (s : Session τ) : Scribe τ :=
  { keeper := s.keeper.journal
    consumer := s.consumer
    forwarded := s.forwarded
    failed := s.failed }

/-- The session with another scribe in it. -/
def withScribe (s : Session τ) (r : Scribe τ) : Session τ :=
  { keeper := { s.keeper with journal := r.keeper }
    consumer := r.consumer
    forwarded := r.forwarded
    failed := r.failed }

/-- Tells a session of an event by way of its scribe.  Whether the event was recorded is read
off the scribe's answer. -/
def noteByAnswer [Observer ε τ] (surroundings : ε) (s : Session τ) (e : Event) :
    Reaction ε (Session τ) :=
  let reaction : Reaction ε (Scribe τ) := note surroundings s.scribe e
  let noted := s.withScribe reaction.observer
  if stands reaction.outcome then
    ⟨reaction.outcome, { noted with keeper := noted.keeper.accept e }, reaction.surroundings⟩
  else ⟨reaction.outcome, noted, reaction.surroundings⟩

/-- **A session can go by the answer.**  An error that comes from a consumer is never taken for
a refusal, so what is read off the answer is what became of the event. -/
theorem note_eq_noteByAnswer [Observer ε τ] (surroundings : ε) (s : Session τ) (e : Event) :
    Relay.note surroundings s e = s.noteByAnswer surroundings e := by
  cases hkeep : (s.keeper.journal.keep e).1 with
  | error cause =>
    have hdossier : Keeper.keep s.keeper e = (.error cause, _) := Dossier.keep_of_error hkeep
    rw [noteByAnswer, Relay.note_of_error (congrArg Prod.fst hdossier), hdossier,
      show note surroundings s.scribe e = _ from Relay.note_of_error (r := s.scribe) hkeep]
    rfl
  | ok u =>
    have hdossier : Keeper.keep s.keeper e = (.ok (), _) := Dossier.keep_of_ok hkeep
    have hstands : stands (note surroundings s.scribe e).outcome = true :=
      Relay.stands_note_of_ok (r := s.scribe) hkeep
    rw [noteByAnswer, if_pos hstands, Relay.note_of_ok (congrArg Prod.fst hdossier), hdossier,
      show note surroundings s.scribe e = _ from Relay.note_of_ok (r := s.scribe) hkeep]
    obtain ⟨d, consumer, forwarded, failed⟩ := s
    cases consumer with
    | none => rfl
    | some consumer =>
      -- the session and its scribe settle the same reaction, each with its own keeper
      dsimp only [scribe]
      obtain ⟨outcome, later, outside⟩ := note surroundings consumer e
      cases outcome <;> rfl

/-- A label said in advance is spent on a clause that the consumer refuses, even if the consumer
refuses it as a session would. -/
example :
    let s : Session Responder :=
      (((new Responder {}).setNextPart .a).connect
        ⟨fun _ => .error (.proof (.duplicateClause 1))⟩).2
    let reaction := Relay.note () s (.premise 1 false [1, 2] false)
    reaction.outcome = .error (.consumer (.proof (.duplicateClause 1))) ∧
      Session.partOf reaction.observer 1 = .ok .a :=
  ⟨rfl, rfl⟩

/-! ## With a consumer and without -/

variable [Observer ε τ]

/-- Whether a session without a consumer has the same on record as another. -/
structure Mirrors (alone s : Session τ) : Prop where
  /-- The journal, the labels and the configuration are the same. -/
  keeper : alone.keeper = s.keeper
  /-- There is no consumer. -/
  unobserved : alone.consumer = none

namespace Mirrors

variable {s alone : Session τ}

theorem proof (h : alone.Mirrors s) : alone.proof = s.proof :=
  congrArg (fun d => d.journal.proof) h.keeper

theorem phase (h : alone.Mirrors s) : alone.phase = s.phase :=
  congrArg (fun d => d.journal.phase) h.keeper

theorem labels (h : alone.Mirrors s) : alone.labels = s.labels := congrArg Dossier.labels h.keeper

theorem config (h : alone.Mirrors s) : alone.config = s.config := congrArg Dossier.config h.keeper

theorem withLabels (h : alone.Mirrors s) (labels : Labelling) :
    (alone.withLabels labels).Mirrors (s.withLabels labels) :=
  ⟨congrArg (fun d => { d with labels }) h.keeper, h.unobserved⟩

theorem withConfig (h : alone.Mirrors s) (config : Config) :
    (alone.withConfig config).Mirrors (s.withConfig config) :=
  ⟨congrArg (fun d => { d with config }) h.keeper, h.unobserved⟩

theorem reset (h : alone.Mirrors s) : Mirrors alone.reset s.reset :=
  ⟨congrArg Keeper.clear h.keeper, h.unobserved⟩

/-- A change that is refused to one is refused to the other. -/
theorem revise (h : alone.Mirrors s) {β γ : Type} (result : Except β γ)
    {f : Session τ → γ → Session τ} (hf : ∀ c, (f alone c).Mirrors (f s c)) :
    (s.revise (result.map (f s))).1 = (alone.revise (result.map (f alone))).1 ∧
      (alone.revise (result.map (f alone))).2.Mirrors (s.revise (result.map (f s))).2 := by
  cases result with
  | error cause => exact ⟨rfl, h⟩
  | ok c => exact ⟨rfl, hf c⟩

/-- Settings are revised by the configuration and the phase, which are the same. -/
theorem configure (h : alone.Mirrors s) (set : Config → Phase → Except SettingError Config) :
    (s.revise ((set s.config s.phase).map s.withConfig)).1 =
        (alone.revise ((set alone.config alone.phase).map alone.withConfig)).1 ∧
      (alone.revise ((set alone.config alone.phase).map alone.withConfig)).2.Mirrors
        (s.revise ((set s.config s.phase).map s.withConfig)).2 := by
  rw [h.config, h.phase]
  exact h.revise (set s.config s.phase) h.withConfig

/-- An event is accepted by both or refused by both, and for the same reason. -/
theorem note (h : alone.Mirrors s) (surroundings outside : ε) (e : Event) :
    Reply.own (.noted (Relay.note surroundings s e).outcome) =
        .noted (Relay.note outside alone e).outcome ∧
      Mirrors (Relay.note outside alone e).observer (Relay.note surroundings s e).observer := by
  have hkeeper : (Relay.note outside alone e).observer.keeper =
      (Relay.note surroundings s e).observer.keeper := by
    rw [Relay.keeper_note, Relay.keeper_note, h.keeper]
  cases hkeep : (Keeper.keep s.keeper e).1 with
  | error cause =>
    have halone : (Keeper.keep alone.keeper e).1 = .error cause := by rw [h.keeper, hkeep]
    rw [Relay.note_of_error halone, Relay.note_of_error hkeep] at hkeeper ⊢
    exact ⟨rfl, hkeeper, h.unobserved⟩
  | ok u =>
    have halone : (Keeper.keep alone.keeper e).1 = .ok () := by rw [h.keeper, hkeep]
    have hstands : stands (Relay.note surroundings s e).outcome = true :=
      Relay.stands_note_of_ok hkeep
    rw [Relay.note_of_unobserved outside h.unobserved halone] at hkeeper ⊢
    exact ⟨congrArg Reply.noted (if_pos hstands), hkeeper, h.unobserved⟩

/-- **A call comes to the same with a consumer and without.** -/
theorem perform (h : alone.Mirrors s) (surroundings outside : ε) (c : Call) :
    (s.perform surroundings c).1.own = (alone.perform outside c).1 ∧
      (alone.perform outside c).2.1.Mirrors (s.perform surroundings c).2.1 := by
  cases c with
  | note e => exact h.note surroundings outside e
  | setMode mode =>
    obtain ⟨hanswer, hmirrors⟩ := h.configure fun config => config.setMode mode
    exact ⟨congrArg Reply.revised hanswer, hmirrors⟩
  | setCheckDerivations value =>
    obtain ⟨hanswer, hmirrors⟩ := h.configure fun config => config.setCheckDerivations value
    exact ⟨congrArg Reply.revised hanswer, hmirrors⟩
  | setStrictChains value =>
    obtain ⟨hanswer, hmirrors⟩ := h.configure fun config => config.setStrictChains value
    exact ⟨congrArg Reply.revised hanswer, hmirrors⟩
  | setScope atom scope =>
    have halone : alone.setScope atom scope = ((s.labels.setScope atom scope).1,
        alone.withLabels (s.labels.setScope atom scope).2) := by
      rw [setScope, h.labels]
    show Reply.scoped _ = Reply.scoped (alone.setScope atom scope).1 ∧
      (alone.setScope atom scope).2.Mirrors _
    rw [halone]
    exact ⟨rfl, h.withLabels _⟩
  | setPart id part =>
    obtain ⟨hanswer, hmirrors⟩ := h.revise (s.labels.setPart s.proof id part) h.withLabels
    have halone : alone.setPart id part =
        (s.labels.setPart s.proof id part).map alone.withLabels := by
      rw [setPart, h.labels, h.proof]
    rw [← halone] at hanswer hmirrors
    exact ⟨congrArg Reply.labelled hanswer, hmirrors⟩
  | setNextPart part =>
    refine ⟨rfl, ?_⟩
    show (alone.withLabels (alone.labels.setNextPart part)).Mirrors _
    rw [h.labels]
    exact h.withLabels _
  | interpolate next =>
    have halone : alone.interpolate next = s.interpolate next := by
      rw [interpolate, h.proof, h.labels, h.config]
      rfl
    exact ⟨congrArg Reply.interpolated halone.symm, h⟩
  | reset => exact ⟨rfl, h.reset⟩

/-- What becomes of the consumer of the one does not concern the other. -/
theorem connect (h : alone.Mirrors s) (consumer : τ) : alone.Mirrors (s.connect consumer).2 :=
  ⟨h.keeper, h.unobserved⟩

theorem release (h : alone.Mirrors s) : Mirrors alone s.release.2 := ⟨h.keeper, h.unobserved⟩

/-- **A run comes to the same with consumers and without.** -/
theorem run (h : alone.Mirrors s) (surroundings outside : ε) (steps : List (Step ε τ)) :
    (s.run surroundings steps).1.map Reply.own =
        (alone.run outside (steps.filter Step.isCall)).1 ∧
      (alone.run outside (steps.filter Step.isCall)).2.1.Mirrors
        (s.run surroundings steps).2.1 := by
  induction steps generalizing s alone surroundings outside with
  | nil => exact ⟨rfl, h⟩
  | cons step rest ih =>
    cases step with
    | call c =>
      obtain ⟨hreply, hmirrors⟩ := h.perform surroundings outside c
      obtain ⟨hreplies, hlater⟩ := ih hmirrors (s.perform surroundings c).2.2
        (alone.perform outside c).2.2
      exact ⟨List.cons_eq_cons.mpr ⟨hreply, hreplies⟩, hlater⟩
    | connect consumer => exact ih (h.connect consumer) surroundings outside
    | release => exact ih h.release surroundings outside
    | outside f => exact ih h (f surroundings) outside

end Mirrors

/-- **A consumer has no say in what is recorded.**  Let consumers of any kind be connected and
released in the course of a session, and answer events as they please, in surroundings that
change as they please.  The session gives the same replies as one that is given the same calls
and never has a consumer, errors from further on apart: it accepts and refuses the same events
for the same reasons, and constructs the same interpolants.  And it ends with the same dossier:
the proof, the phase and the counts, the labels with the one said in advance, and the
configuration.  That is so even if it goes by the answers, which may be the consumer's, to tell
whether a clause was recorded.  Since a run that is broken off is a run, all of this holds at
every point of it. -/
theorem run_eq_unobserved (config : Config) (surroundings outside : ε)
    (steps : List (Step ε τ)) :
    let observed := (new τ config).run surroundings steps
    let alone := (new τ config).run outside (steps.filter Step.isCall)
    observed.1.map Reply.own = alone.1 ∧ observed.2.1.keeper = alone.2.1.keeper ∧
      alone.2.1.consumer = none ∧
      ∀ e, Relay.note observed.2.2 observed.2.1 e = observed.2.1.noteByAnswer observed.2.2 e := by
  have hstart : (new τ config).Mirrors (new τ config) := ⟨rfl, rfl⟩
  obtain ⟨hreplies, hmirrors⟩ := hstart.run surroundings outside steps
  exact ⟨hreplies, hmirrors.keeper.symm, hmirrors.unobserved, note_eq_noteByAnswer _ _⟩

end Session
end Interpolation
