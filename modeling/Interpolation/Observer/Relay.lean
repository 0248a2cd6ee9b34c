import Interpolation.Observer.Basic

/-!
# Relays

A relay keeps a record of its own and passes events on.  Its `Keeper` comes first: an event that
the keeper refuses goes no further, and the refusal is the answer.  An event that the keeper
accepts is passed on to the consumer, if there is one, and the consumer's answer is the relay's
answer, with any error marked as having come from further on.  What the keeper holds stands,
whatever the consumer answers.

Relays count what they pass on, and how often the answer to that was an error.

Passing on is the same for the sixteen kinds of event, and so it is written once, in
`Relay.react`.  A derived clause is the one that could be passed on differently: it is looked up
under the key that the keeper has just put it at, the consumer is told the literals found there,
and if nothing were found the answer would be that the clause is unknown.  But what is found is
the clause as it was announced (`Proof.exists_record_of_addDerived`), and so that event is passed
on like the others, as it came.

A relay is itself an observer, so relays nest.  An error from any depth reaches the outermost
relay marked once, because an error that is marked already is passed back as it is.

* `Relay.react_of_error`, `Relay.react_of_ok` --- an event refused, and an event accepted;
* `Relay.keeper_react`, `Relay.isForwarding_of_kept` --- the consumer has no say in what the
  keeper holds, nor can its errors be taken for the keeper's.
-/

namespace Interpolation

/-- What can keep a record of events, and refuse those that do not fit it. -/
class Keeper (α : Type) where
  /-- Records an event or refuses it, with the record as it is afterwards either way. -/
  keep : α → Event → Except ProofError Unit × α
  /-- The record at a fresh start. -/
  clear : α → α

/-- A keeper with a consumer to which what it accepts is passed on. -/
structure Relay (α τ : Type) where
  /-- The keeper. -/
  keeper : α
  /-- The consumer, if there is one. -/
  consumer : Option τ := none
  /-- How many events were passed on. -/
  forwarded : Nat := 0
  /-- How many of them the consumer answered with an error. -/
  failed : Nat := 0
  deriving DecidableEq, Repr

namespace Relay

variable {α τ ε : Type}

/-- Puts another consumer in place, and returns the one that was there. -/
def connect (r : Relay α τ) (consumer : τ) : Option τ × Relay α τ :=
  (r.consumer, { r with consumer := some consumer })

/-- Takes the consumer away, and returns it. -/
def release (r : Relay α τ) : Option τ × Relay α τ :=
  (r.consumer, { r with consumer := none })

/-- What a relay makes of the reaction of its consumer to an event that it passed on. -/
def settle (r : Relay α τ) (reaction : Reaction ε τ) : Reaction ε (Relay α τ) :=
  match reaction with
  | ⟨.ok (), consumer, surroundings⟩ =>
    ⟨.ok (), { r with consumer := some consumer, forwarded := r.forwarded + 1 }, surroundings⟩
  | ⟨.error e, consumer, surroundings⟩ =>
    ⟨.error e.fromConsumer,
      { r with
        consumer := some consumer
        forwarded := r.forwarded + 1
        failed := r.failed + 1 },
      surroundings⟩

@[simp] theorem keeper_settle (r : Relay α τ) (reaction : Reaction ε τ) :
    (r.settle reaction).observer.keeper = r.keeper := by
  obtain ⟨outcome, consumer, surroundings⟩ := reaction
  cases outcome <;> rfl

variable [Keeper α]

/-- Starts afresh: the record and the counts are cleared, and the consumer stays. -/
def reset (r : Relay α τ) : Relay α τ :=
  { keeper := Keeper.clear r.keeper, consumer := r.consumer }

/-- The reaction of a relay to an event, given what telling its consumer would lead to.  The
consumer is told only if there is one and the keeper accepts the event. -/
def react (surroundings : ε) (r : Relay α τ) (e : Event)
    (telling : Option (Unit → Reaction ε τ)) : Reaction ε (Relay α τ) :=
  match Keeper.keep r.keeper e with
  | (.error cause, keeper) => ⟨.error (.proof cause), { r with keeper }, surroundings⟩
  | (.ok (), keeper) =>
    match telling with
    | none => ⟨.ok (), { r with keeper }, surroundings⟩
    | some tell => { r with keeper }.settle (tell ())

section

variable [Observer ε τ]

/-- Tells a relay of an event. -/
def note (surroundings : ε) (r : Relay α τ) (e : Event) : Reaction ε (Relay α τ) :=
  r.react surroundings e (r.consumer.map fun consumer _ => Observer.note surroundings consumer e)

instance : Observer ε (Relay α τ) := ⟨note⟩

end

/-! ## Refusal and acceptance -/

variable {surroundings : ε} {r : Relay α τ} {e : Event}
  {telling : Option (Unit → Reaction ε τ)}

/-- An event that the keeper refuses goes no further. -/
theorem react_of_error {cause : ProofError} (h : (Keeper.keep r.keeper e).1 = .error cause) :
    r.react surroundings e telling =
      ⟨.error (.proof cause), { r with keeper := (Keeper.keep r.keeper e).2 }, surroundings⟩ := by
  unfold react
  split
  · rename_i c k hk
    rw [hk] at h ⊢
    cases h
    rfl
  · rename_i k hk
    rw [hk] at h
    cases h

/-- An event that the keeper accepts is passed on to the consumer, if there is one. -/
theorem react_of_ok (h : (Keeper.keep r.keeper e).1 = .ok ()) :
    r.react surroundings e telling =
      match telling with
      | none => ⟨.ok (), { r with keeper := (Keeper.keep r.keeper e).2 }, surroundings⟩
      | some tell => { r with keeper := (Keeper.keep r.keeper e).2 }.settle (tell ()) := by
  unfold react
  split
  · rename_i c k hk
    rw [hk] at h
    cases h
  · rename_i k hk
    rw [hk]

/-- The keeper ends up with the same record whatever the consumer is and answers. -/
@[simp] theorem keeper_react :
    (r.react surroundings e telling).observer.keeper = (Keeper.keep r.keeper e).2 := by
  unfold react
  split
  · rename_i h; rw [h]
  · rename_i h
    split <;> simp [h]

/-- The answer to an event that the keeper accepts is no error, or one about forwarding. -/
theorem isForwarding_of_kept {error : Error} (h : (Keeper.keep r.keeper e).1 = .ok ())
    (he : (r.react surroundings e telling).outcome = .error error) :
    error.isForwarding = true := by
  rw [react_of_ok h] at he
  split at he
  · cases he
  · rename_i tell
    revert he
    generalize tell () = reaction
    obtain ⟨outcome, consumer, surroundings⟩ := reaction
    cases outcome with
    | ok _ => intro he; cases he
    | error e => intro he; cases he; simp

end Relay

end Interpolation
