import Interpolation.Observer.Nested
import Interpolation.Proofs.SessionRuns
import Interpolation.Proofs.JournalSteps
import Mathlib.Logic.Function.Iterate

/-!
# What a chain of relays answers

A chain of scribes and sessions, each the consumer of the one before, is read here from the
outside inwards: a `Station` is a member of the chain without what comes after it, and any part
of the chain can be put behind any number of stations (`Nested.within`).  The stations of a chain
need not agree.  They may have been told of different events before they were connected, and so
one can refuse what the others accept.

Whether a station refuses an event is decided by the proof that it keeps (`Event.refusal?`), and
two kinds of errors tell where a refusal came from.  A refusal of the outermost station is an
error of the proof; whatever comes from further in is an error about forwarding.  It is made one
by the station next to where it came from, and then no station further out changes it
(`passBack_iterate`).  So the answer tells that an event was refused further in, and why, but not
how deep.

* `Station.note_of_refusal`, `Station.note_of_accepted` --- an event refused by a station, and an
  event accepted;
* `Nested.exists_within` --- every chain is stations, one within the other, around an end;
* `Nested.note_within` --- what is accepted by stations is passed through them;
* `Nested.answers_and_refusal_within` --- what a station answers, and what becomes of a refusal at
  any depth.
-/

namespace Interpolation

/-! ## Refusal by a proof -/

/-- Why a proof refuses an event, if it does. -/
def Event.refusal? (e : Event) (p : Proof) : Option ProofError :=
  match e.operation? with
  | none => none
  | some operation =>
    match (operation.attempt p).1 with
    | .ok _ => none
    | .error cause => some cause

/-- What an event leaves of a proof. -/
def Event.recordIn (e : Event) (p : Proof) : Proof :=
  match e.operation? with
  | none => p
  | some operation => operation.apply p

/-- The answer to an event that was refused for a reason, or was not refused. -/
def refusing : Option ProofError → Except ProofError Unit
  | none => .ok ()
  | some cause => .error cause

/-- A journal refuses an event when its proof does, and for the same reason. -/
theorem Journal.fst_keep (j : Journal) (e : Event) :
    (j.keep e).1 = refusing (e.refusal? j.proof) := by
  rw [keep_eq, Event.refusal?]
  cases e.operation? with
  | none => rfl
  | some operation =>
    dsimp only
    obtain ⟨answer, proof⟩ := operation.attempt j.proof
    cases answer <;> rfl

/-! ## Passing back -/

/-- How an answer is passed back: success as it is, and an error as one about forwarding. -/
def passBack : Except Error Unit → Except Error Unit
  | .ok () => .ok ()
  | .error e => .error e.fromConsumer

/-- How many errors there are in an answer. -/
def errorCount : Except Error Unit → Nat
  | .ok () => 0
  | .error _ => 1

/-- What has been passed back once is not changed on the way any further. -/
theorem passBack_passBack (answer : Except Error Unit) :
    passBack (passBack answer) = passBack answer := by
  cases answer with
  | ok u => rfl
  | error e => exact congrArg Except.error e.fromConsumer_fromConsumer

/-- **An error is wrapped once, however often it is passed back.** -/
theorem passBack_iterate (n : Nat) (answer : Except Error Unit) :
    passBack^[n + 1] answer = passBack answer := by
  induction n with
  | zero => rfl
  | succ n ih => rw [Function.iterate_succ_apply', ih, passBack_passBack]

/-- An error is one error still when it has been passed back. -/
theorem errorCount_iterate (n : Nat) (answer : Except Error Unit) :
    errorCount (passBack^[n] answer) = errorCount answer := by
  cases n with
  | zero => rfl
  | succ n =>
    rw [passBack_iterate]
    cases answer <;> rfl

/-- A relay passes back what its consumer answers, and counts that. -/
theorem Relay.settle_eq {α ε τ : Type} (r : Relay α τ) (reaction : Reaction ε τ) :
    r.settle reaction =
      ⟨passBack reaction.outcome,
        { r with
          consumer := some reaction.observer
          forwarded := r.forwarded + 1
          failed := r.failed + errorCount reaction.outcome },
        reaction.surroundings⟩ := by
  obtain ⟨outcome, observer, surroundings⟩ := reaction
  cases outcome <;> rfl

/-! ## Stations -/

/-- What a station keeps: the journal of a scribe, or the dossier of a session. -/
inductive Book
  /-- A journal. -/
  | journal (j : Journal)
  /-- A dossier. -/
  | dossier (d : Dossier)
  deriving DecidableEq

namespace Book

/-- The proof on record. -/
def proof : Book → Proof
  | journal j => j.proof
  | dossier d => d.journal.proof

/-- Records an event or refuses it. -/
def keep : Book → Event → Except ProofError Unit × Book
  | journal j, e => ((j.keep e).1, journal (j.keep e).2)
  | dossier d, e => ((d.keep e).1, dossier (d.keep e).2)

theorem fst_keep (b : Book) (e : Event) : (b.keep e).1 = refusing (e.refusal? b.proof) := by
  cases b with
  | journal j => exact j.fst_keep e
  | dossier d => exact (d.fst_keep e).trans (d.journal.fst_keep e)

theorem proof_keep (b : Book) (e : Event) : (b.keep e).2.proof = e.recordIn b.proof := by
  cases b with
  | journal j => exact j.proof_keep e
  | dossier d => exact (congrArg Journal.proof (d.journal_keep e)).trans (d.journal.proof_keep e)

/-- A refused event leaves no trace, as long as there is a key to spare. -/
theorem keep_of_refusal {b : Book} {e : Event} {cause : ProofError}
    (hsize : b.proof.size < Proof.capacity) (h : e.refusal? b.proof = some cause) :
    (b.keep e).2 = b := by
  cases b with
  | journal j =>
    have hkeep : (j.keep e).1 = .error cause := (j.fst_keep e).trans (congrArg refusing h)
    exact congrArg journal (Journal.keep_of_error hsize hkeep)
  | dossier d =>
    have hkeep : (d.journal.keep e).1 = .error cause :=
      (d.journal.fst_keep e).trans (congrArg refusing h)
    show dossier (d.keep e).2 = dossier d
    rw [Dossier.keep_of_error hkeep, Journal.keep_of_error hsize hkeep]

end Book

/-- A scribe or a session in a chain, without its consumer. -/
structure Station where
  /-- What it keeps. -/
  book : Book
  /-- How many events were passed on. -/
  forwarded : Nat := 0
  /-- How many of them were answered with an error. -/
  failed : Nat := 0
  deriving DecidableEq

namespace Station

/-- The proof that a station keeps. -/
def proof (s : Station) : Proof := s.book.proof

/-- A station after an event that it did not pass on. -/
def kept (s : Station) (e : Event) : Station := { s with book := (s.book.keep e).2 }

/-- A station after an event that it passed on, and that was answered so. -/
def passOn (s : Station) (e : Event) (answer : Except Error Unit) : Station where
  book := (s.book.keep e).2
  forwarded := s.forwarded + 1
  failed := s.failed + errorCount answer

theorem proof_passOn (s : Station) (e : Event) (answer : Except Error Unit) :
    (s.passOn e answer).proof = e.recordIn s.proof := s.book.proof_keep e

/-- A station counts an error whether or not it has been passed back before. -/
theorem passOn_iterate (s : Station) (e : Event) (n : Nat) (answer : Except Error Unit) :
    s.passOn e (passBack^[n] answer) = s.passOn e answer := by
  rw [passOn, passOn, errorCount_iterate]

/-- A refused event leaves no trace, as long as there is a key to spare. -/
theorem kept_of_refusal {s : Station} {e : Event} {cause : ProofError}
    (hsize : s.proof.size < Proof.capacity) (h : e.refusal? s.proof = some cause) :
    s.kept e = s := by
  rw [kept, Book.keep_of_refusal hsize h]

variable {ε κ : Type}

/-- The chain that begins with a station, and goes on with its consumer if it has one. -/
def before (s : Station) (next : Option (Nested κ)) : Nested κ :=
  match s.book with
  | .journal j => .scribe ⟨j, next, s.forwarded, s.failed⟩
  | .dossier d => .session ⟨d, next, s.forwarded, s.failed⟩

variable [Observer ε κ] {surroundings : ε} {s : Station} {e : Event}

/-- What a station refuses goes no further. -/
theorem note_of_refusal {cause : ProofError} (h : e.refusal? s.proof = some cause)
    (next : Option (Nested κ)) :
    (s.before next).note surroundings e =
      ⟨.error (.proof cause), (s.kept e).before next, surroundings⟩ := by
  have hkeep : (s.book.keep e).1 = .error cause := (s.book.fst_keep e).trans (congrArg refusing h)
  obtain ⟨book, forwarded, failed⟩ := s
  cases book with
  | journal j =>
    have hjournal : (Keeper.keep j e).1 = .error cause := hkeep
    show Nested.note surroundings (.scribe ⟨j, next, forwarded, failed⟩) e = _
    rw [Nested.note_scribe, Relay.note_of_error hjournal]
    rfl
  | dossier d =>
    have hdossier : (Keeper.keep d e).1 = .error cause := hkeep
    show Nested.note surroundings (.session ⟨d, next, forwarded, failed⟩) e = _
    rw [Nested.note_session, Relay.note_of_error hdossier]
    rfl

/-- What a station accepts is passed on, and the answer is passed back, if there is anyone to be
told. -/
theorem note_of_accepted (h : e.refusal? s.proof = none) (next : Option (Nested κ)) :
    (s.before next).note surroundings e =
      match next with
      | none => ⟨.ok (), (s.kept e).before none, surroundings⟩
      | some m =>
        let telling := m.note surroundings e
        ⟨passBack telling.outcome, (s.passOn e telling.outcome).before (some telling.observer),
          telling.surroundings⟩ := by
  have hkeep : (s.book.keep e).1 = .ok () := (s.book.fst_keep e).trans (congrArg refusing h)
  obtain ⟨book, forwarded, failed⟩ := s
  cases book with
  | journal j =>
    have hjournal : (Keeper.keep j e).1 = .ok () := hkeep
    show Nested.note surroundings (.scribe ⟨j, next, forwarded, failed⟩) e = _
    rw [Nested.note_scribe, Relay.note_of_ok hjournal]
    cases next with
    | none => rfl
    | some m =>
      exact congrArg (Reaction.map Nested.scribe) (Relay.settle_eq _ (m.note surroundings e))
  | dossier d =>
    have hdossier : (Keeper.keep d e).1 = .ok () := hkeep
    show Nested.note surroundings (.session ⟨d, next, forwarded, failed⟩) e = _
    rw [Nested.note_session, Relay.note_of_ok hdossier]
    cases next with
    | none => rfl
    | some m =>
      exact congrArg (Reaction.map Nested.session) (Relay.settle_eq _ (m.note surroundings e))

/-- What is answered to an event that a station accepts is success or an error about
forwarding. -/
theorem isForwarding_of_accepted (h : e.refusal? s.proof = none) {next : Option (Nested κ)}
    {error : Error} (herror : ((s.before next).note surroundings e).outcome = .error error) :
    error.isForwarding = true := by
  rw [note_of_accepted h] at herror
  cases next with
  | none => exact absurd herror (by simp)
  | some m =>
    revert herror
    dsimp only
    cases (m.note surroundings e).outcome with
    | ok u => intro herror; cases herror
    | error cause => intro herror; cases herror; exact cause.isForwarding_fromConsumer

end Station

/-! ## Chains -/

namespace Nested

variable {ε κ : Type}

/-- The chain in which stations come before another chain. -/
def within (above : List Station) (m : Nested κ) : Nested κ :=
  above.foldr (fun s m => s.before (some m)) m

/-- **Every chain is stations, one within the other, around an observer that passes nothing on.**
That is one of another kind, or a station without a consumer. -/
theorem exists_within (m : Nested κ) :
    ∃ above last, m = within above last ∧
      ((∃ k, last = .last k) ∨ ∃ s : Station, last = s.before none) := by
  match m with
  | .last k => exact ⟨[], .last k, rfl, .inl ⟨k, rfl⟩⟩
  | .scribe ⟨j, none, forwarded, failed⟩ =>
    exact ⟨[], _, rfl, .inr ⟨⟨.journal j, forwarded, failed⟩, rfl⟩⟩
  | .session ⟨d, none, forwarded, failed⟩ =>
    exact ⟨[], _, rfl, .inr ⟨⟨.dossier d, forwarded, failed⟩, rfl⟩⟩
  | .scribe ⟨j, some next, forwarded, failed⟩ =>
    obtain ⟨above, last, rfl, hlast⟩ := exists_within next
    exact ⟨⟨.journal j, forwarded, failed⟩ :: above, last, rfl, hlast⟩
  | .session ⟨d, some next, forwarded, failed⟩ =>
    obtain ⟨above, last, rfl, hlast⟩ := exists_within next
    exact ⟨⟨.dossier d, forwarded, failed⟩ :: above, last, rfl, hlast⟩

variable [Observer ε κ]

/-- **What stations accept is passed through them,** to whatever is within.  Each has recorded
the event by then and counts it, and each counts an error if there is one; the answer is passed
back by each in turn. -/
theorem note_within {surroundings : ε} {e : Event} {above : List Station}
    (haccepted : ∀ s ∈ above, e.refusal? s.proof = none) (m : Nested κ) :
    let telling := m.note surroundings e
    (within above m).note surroundings e =
      ⟨passBack^[above.length] telling.outcome,
        within (above.map (·.passOn e telling.outcome)) telling.observer,
        telling.surroundings⟩ := by
  -- by induction on the stations from the outermost inwards, each of which passes back once more
  induction above with
  | nil => rfl
  | cons s rest ih =>
    obtain ⟨hs, hrest⟩ := List.forall_mem_cons.mp haccepted
    show (s.before (some (within rest m))).note surroundings e = _
    rw [Station.note_of_accepted hs]
    dsimp only
    rw [ih hrest]
    dsimp only
    rw [Station.passOn_iterate, List.length_cons, Function.iterate_succ_apply']
    rfl

/-- What a station that begins a chain answers to an event, told by whether its proof refuses the
event, and what becomes of the rest of the chain. -/
structure Answers (surroundings : ε) (s : Station) (next : Option (Nested κ)) (e : Event) :
    Prop where
  /-- An error that is not about forwarding is a refusal by the station's own proof. -/
  own : (∃ error, ((s.before next).note surroundings e).outcome = .error error ∧
    error.isForwarding = false) ↔ ∃ cause, e.refusal? s.proof = some cause
  /-- What is refused changes nothing further in, nor around the chain. -/
  refused : ∀ cause, e.refusal? s.proof = some cause →
    (s.before next).note surroundings e =
      ⟨.error (.proof cause), (s.kept e).before next, surroundings⟩
  /-- What is accepted with no consumer to be told is recorded, and that is all. -/
  unobserved : e.refusal? s.proof = none → next = none →
    (s.before next).note surroundings e = ⟨.ok (), (s.kept e).before none, surroundings⟩
  /-- What is accepted the consumer is told, once. -/
  told : ∀ m, e.refusal? s.proof = none → next = some m →
    let telling := m.note surroundings e
    ((s.before next).note surroundings e).observer =
        (s.passOn e telling.outcome).before (some telling.observer) ∧
      ((s.before next).note surroundings e).surroundings = telling.surroundings
  /-- If the consumer answers with success, so does the station. -/
  succeeded : ∀ m, e.refusal? s.proof = none → next = some m →
    (m.note surroundings e).outcome = .ok () →
    ((s.before next).note surroundings e).outcome = .ok ()
  /-- If the consumer answers with an error about forwarding, so does the station. -/
  unchanged : ∀ m error, e.refusal? s.proof = none → next = some m →
    (m.note surroundings e).outcome = .error error → error.isForwarding = true →
    ((s.before next).note surroundings e).outcome = .error error
  /-- If the consumer answers with another error, the station answers with that error wrapped. -/
  wrapped : ∀ m error, e.refusal? s.proof = none → next = some m →
    (m.note surroundings e).outcome = .error error → error.isForwarding = false →
    ((s.before next).note surroundings e).outcome = .error (.consumer error)

/-- A station answers with a refusal of its own, or with what it was answered. -/
theorem answers (surroundings : ε) (s : Station) (next : Option (Nested κ)) (e : Event) :
    Answers surroundings s next e where
  own := by
    constructor
    · rintro ⟨error, herror, hown⟩
      cases hrefusal : e.refusal? s.proof with
      | some cause => exact ⟨cause, rfl⟩
      | none =>
        have hforwarding := Station.isForwarding_of_accepted hrefusal herror
        exact absurd hforwarding (by simp [hown])
    · rintro ⟨cause, hrefusal⟩
      exact ⟨.proof cause, by rw [Station.note_of_refusal hrefusal], rfl⟩
  refused cause h := Station.note_of_refusal h next
  unobserved h hnext := by rw [Station.note_of_accepted h, hnext]
  told m h hnext := by
    rw [Station.note_of_accepted h, hnext]
    exact ⟨rfl, rfl⟩
  succeeded m h hnext houtcome := by
    rw [Station.note_of_accepted h, hnext]
    dsimp only
    rw [houtcome]
    rfl
  unchanged m error h hnext houtcome hforwarding := by
    rw [Station.note_of_accepted h, hnext]
    dsimp only
    rw [houtcome]
    exact congrArg Except.error (if_pos hforwarding)
  wrapped m error h hnext houtcome hforwarding := by
    rw [Station.note_of_accepted h, hnext]
    dsimp only
    rw [houtcome]
    exact congrArg Except.error (if_neg (by simp [hforwarding]))

/-- **Errors tell whether an event was refused here or further in.**  Take any chain of scribes and
sessions, of any depth, with anything on record in each, and any observer at its end.  The
outermost answers an event with an error that is not about forwarding just when its own proof
refuses the event, and then nothing further in is told.  Otherwise the next is told once, and the
answer is its answer: success, or an error about forwarding as it is, or any other error wrapped.

So let a station refuse an event that every station above it accepts, and let there be at least
one above it.  The outermost answers with the refusal, wrapped once, and the refusal itself is not
about forwarding.  Every station above has recorded the event, counts it as passed on, and counts
an error.  The station that refused counts neither and is as it was, as long as there is a key to
spare, and everything below it and around the chain is as it was in any case. -/
theorem answers_and_refusal_within (surroundings : ε) (e : Event) :
    (∀ (s : Station) (next : Option (Nested κ)), Answers surroundings s next e) ∧
    ∀ (above : List Station) (s : Station) (below : Option (Nested κ)) (cause : ProofError),
      above ≠ [] → (∀ t ∈ above, e.refusal? t.proof = none) → e.refusal? s.proof = some cause →
      let answer : Except Error Unit := .error (.proof cause)
      (within above (s.before below)).note surroundings e =
          ⟨.error (.consumer (.proof cause)),
            within (above.map (·.passOn e answer)) ((s.kept e).before below), surroundings⟩ ∧
        (Error.proof cause).isForwarding = false ∧
        (∀ t ∈ above, (t.passOn e answer).proof = e.recordIn t.proof ∧
          (t.passOn e answer).forwarded = t.forwarded + 1 ∧
          (t.passOn e answer).failed = t.failed + 1) ∧
        (s.kept e).forwarded = s.forwarded ∧ (s.kept e).failed = s.failed ∧
        (s.proof.size < Proof.capacity → s.kept e = s) := by
  refine ⟨fun s next => answers surroundings s next e, ?_⟩
  intro above s below cause hne haccepted hrefusal answer
  refine ⟨?_, rfl, fun t _ => ⟨t.proof_passOn e answer, rfl, rfl⟩, rfl, rfl,
    fun hsize => Station.kept_of_refusal hsize hrefusal⟩
  obtain ⟨n, hn⟩ := Nat.exists_eq_succ_of_ne_zero fun h => hne (List.eq_nil_of_length_eq_zero h)
  rw [note_within haccepted, Station.note_of_refusal hrefusal]
  dsimp only
  rw [hn, passBack_iterate]
  rfl

/-- A scribe, or a session, that was told of some events while it had no consumer. -/
def stationAfter (b : Book) (events : List Event) : Station :=
  { book := events.foldl (fun b e => (b.keep e).2) b }

/-- Stations that were told of different events before they were connected.  The session in
between is the only one without a clause. -/
def divergedStations : List Station :=
  [stationAfter (.journal {}) [.premise 2 false [4] false],
    stationAfter (.dossier {}) []]

/-- A scribe that has a clause with the identifier 1. -/
def precedingStation : Station := stationAfter (.journal {}) [.premise 1 false [1, 2] false]

theorem answers_and_refusal_within_divergedStations :
    let e : Event := .premise 1 false [-1] false
    (∀ t ∈ divergedStations, e.refusal? t.proof = none) ∧
      e.refusal? precedingStation.proof = some (.duplicateClause 1) ∧
      (within divergedStations (precedingStation.before (some (.last Silent.mk)))).note () e =
        ⟨.error (.consumer (.proof (.duplicateClause 1))),
          within (divergedStations.map (·.passOn e (.error (.proof (.duplicateClause 1)))))
            ((precedingStation.kept e).before (some (.last Silent.mk))), ()⟩ := by
  intro e
  have haccepted : ∀ t ∈ divergedStations, e.refusal? t.proof = none := by decide
  have hrefusal : e.refusal? precedingStation.proof = some (.duplicateClause 1) := by decide
  have hwithin := (answers_and_refusal_within () e).2 divergedStations precedingStation
    (some (.last Silent.mk)) (.duplicateClause 1) (by decide) haccepted hrefusal
  exact ⟨haccepted, hrefusal, hwithin.1⟩

end Nested
end Interpolation
