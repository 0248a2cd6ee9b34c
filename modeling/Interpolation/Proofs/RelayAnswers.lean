import Interpolation.Observer.Relay

/-!
# What a relay answers

An event that a relay's keeper refuses is answered with the refusal, and an event that it
accepts is answered with what the consumer makes of it.  The two can be told apart: an error
of a consumer arrives as one about forwarding, which a refusal never is.  So an event stands,
in that the keeper has recorded it, just when the answer is success or an error about
forwarding (`stands`).

* `Relay.note_of_error`, `Relay.note_of_ok` --- an event refused, and an event accepted;
* `Relay.stands_note_of_ok`, `Relay.stands_note_of_error`, `Relay.kept_of_stands` --- the answer
  tells which it was;
* `Relay.passedOn_of_ok` --- what it is for an event to be passed on.
-/

namespace Interpolation

/-- Whether an event stands when it is answered so: if it was refused further on, or not at
all. -/
def stands : Except Error Unit → Bool
  | .ok () => true
  | .error e => e.isForwarding

namespace Relay

open Keeper

variable {α ε τ : Type} [Keeper α] [Observer ε τ] {surroundings : ε} {r : Relay α τ} {e : Event}

/-- What the keeper refuses is not passed on. -/
theorem note_of_error {cause : ProofError} (h : (keep r.keeper e).1 = .error cause) :
    Relay.note surroundings r e =
      ⟨.error (.proof cause), { r with keeper := (keep r.keeper e).2 }, surroundings⟩ :=
  react_of_error h

/-- What the keeper accepts is passed on, if there is a consumer. -/
theorem note_of_ok (h : (keep r.keeper e).1 = .ok ()) :
    Relay.note surroundings r e =
      match r.consumer with
      | none => ⟨.ok (), { r with keeper := (keep r.keeper e).2 }, surroundings⟩
      | some consumer => { r with keeper := (keep r.keeper e).2 }.settle
          (Observer.note surroundings consumer e) := by
  rw [Relay.note, react_of_ok h]
  cases r.consumer <;> rfl

/-- Without a consumer what is accepted is recorded, and that is all. -/
theorem note_of_unobserved (surroundings : ε) (hr : r.consumer = none)
    (h : (keep r.keeper e).1 = .ok ()) :
    Relay.note surroundings r e =
      ⟨.ok (), { r with keeper := (keep r.keeper e).2 }, surroundings⟩ := by
  rw [note_of_ok h, hr]

/-- An event stands just when the keeper accepts it. -/
theorem stands_note_of_ok (h : (keep r.keeper e).1 = .ok ()) :
    stands (Relay.note surroundings r e).outcome = true := by
  cases houtcome : (Relay.note surroundings r e).outcome with
  | ok u => rfl
  | error error => exact isForwarding_of_kept h houtcome

theorem stands_note_of_error {cause : ProofError} (h : (keep r.keeper e).1 = .error cause) :
    stands (Relay.note surroundings r e).outcome = false := by
  rw [note_of_error h]
  rfl

/-- What stands the keeper has accepted. -/
theorem kept_of_stands (h : stands (Relay.note surroundings r e).outcome = true) :
    (keep r.keeper e).1 = .ok () := by
  cases hkeep : (keep r.keeper e).1 with
  | ok u => rfl
  | error cause =>
    rw [stands_note_of_error hkeep] at h
    exact absurd h (by decide)

@[simp] theorem keeper_note : (Relay.note surroundings r e).observer.keeper = (keep r.keeper e).2 :=
  keeper_react

/-- Whether an event of which a relay is told stands and is passed on: if there is a consumer it
is told, and the event is counted. -/
structure PassedOn (surroundings : ε) (r : Relay α τ) (e : Event) : Prop where
  /-- The event stands. -/
  stands : stands (Relay.note surroundings r e).outcome = true
  /-- The consumer is told. -/
  told : ∀ consumer, r.consumer = some consumer →
    let telling := Observer.note surroundings consumer e
    (Relay.note surroundings r e).observer.consumer = some telling.observer ∧
      (Relay.note surroundings r e).surroundings = telling.surroundings
  /-- The event is counted. -/
  counted : r.consumer.isSome = true →
    (Relay.note surroundings r e).observer.forwarded = r.forwarded + 1

/-- What the keeper accepts is passed on. -/
theorem passedOn_of_ok (h : (keep r.keeper e).1 = .ok ()) : PassedOn surroundings r e where
  stands := stands_note_of_ok h
  told consumer hconsumer := by
    rw [note_of_ok h, hconsumer]
    dsimp only
    obtain ⟨outcome, later, outside⟩ := Observer.note surroundings consumer e
    cases outcome <;> exact ⟨rfl, rfl⟩
  counted hconsumer := by
    obtain ⟨consumer, hconsumer⟩ := Option.isSome_iff_exists.mp hconsumer
    rw [note_of_ok h, hconsumer]
    dsimp only
    obtain ⟨outcome, later, outside⟩ := Observer.note surroundings consumer e
    cases outcome <;> rfl

end Relay
end Interpolation
