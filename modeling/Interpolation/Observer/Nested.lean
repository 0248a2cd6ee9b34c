import Interpolation.Observer.Channel
import Interpolation.Observer.Recorder
import Interpolation.Session

/-!
# Observers nested to any depth

Scribes and sessions pass events on to a consumer, which may be a scribe or a session again.  A
`Nested` observer is such a chain as one value: scribes and sessions one inside the other, and
at the end, unless some relay has no consumer, an observer of another kind.

`Listener` is the kind most often found there: one that does nothing, records, sends, or answers
by rule.

* `Nested.note_scribe`, `Nested.note_session` --- a nested relay reacts as any relay does.
-/

namespace Interpolation

/-- Observers that pass nothing on. -/
inductive Listener
  /-- One that does nothing. -/
  | silent
  /-- One that keeps every event. -/
  | recorder (r : Recorder)
  /-- One that sends every event over a channel. -/
  | sender (s : Sender)
  /-- One that answers by a fixed rule. -/
  | responder (r : Responder)

namespace Listener

/-- Tells a listener of an event. -/
def note (mailroom : Mailroom) (l : Listener) (e : Event) : Reaction Mailroom Listener :=
  match l with
  | silent => ⟨.ok (), silent, mailroom⟩
  | recorder r => (Observer.note mailroom r e).map recorder
  | sender s => (Observer.note mailroom s e).map sender
  | responder r => (Observer.note mailroom r e).map responder

instance : Observer Mailroom Listener := ⟨note⟩

end Listener

/-- A chain of scribes and sessions, each the consumer of the one before. -/
inductive Nested (κ : Type) : Type
  /-- The end of a chain. -/
  | last (k : κ)
  /-- A scribe, with the rest of the chain for its consumer. -/
  | scribe (r : Relay Journal (Nested κ))
  /-- A session, with the rest of the chain for its consumer. -/
  | session (r : Relay Dossier (Nested κ))

namespace Nested

variable {ε κ : Type} [Observer ε κ]

/-- Tells a chain of an event. -/
def note (surroundings : ε) : Nested κ → Event → Reaction ε (Nested κ)
  | last k, e => (Observer.note surroundings k e).map last
  | scribe ⟨keeper, none, forwarded, failed⟩, e =>
    (Relay.react surroundings ⟨keeper, none, forwarded, failed⟩ e none).map scribe
  | scribe ⟨keeper, some consumer, forwarded, failed⟩, e =>
    (Relay.react surroundings ⟨keeper, some consumer, forwarded, failed⟩ e
      (some fun _ => note surroundings consumer e)).map scribe
  | session ⟨keeper, none, forwarded, failed⟩, e =>
    (Relay.react surroundings ⟨keeper, none, forwarded, failed⟩ e none).map session
  | session ⟨keeper, some consumer, forwarded, failed⟩, e =>
    (Relay.react surroundings ⟨keeper, some consumer, forwarded, failed⟩ e
      (some fun _ => note surroundings consumer e)).map session
termination_by structural observer => observer

instance : Observer ε (Nested κ) := ⟨note⟩

/-- A nested scribe reacts as any relay does. -/
theorem note_scribe (surroundings : ε) (r : Relay Journal (Nested κ)) (e : Event) :
    note surroundings (scribe r) e = (Relay.note surroundings r e).map scribe := by
  obtain ⟨keeper, consumer, forwarded, failed⟩ := r
  cases consumer <;> rfl

/-- A nested session reacts as any relay does. -/
theorem note_session (surroundings : ε) (r : Relay Dossier (Nested κ)) (e : Event) :
    note surroundings (session r) e = (Relay.note surroundings r e).map session := by
  obtain ⟨keeper, consumer, forwarded, failed⟩ := r
  cases consumer <;> rfl

end Nested

end Interpolation
