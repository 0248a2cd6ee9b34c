import Interpolation.Error
import Interpolation.Event

/-!
# Observers

An observer is told of the events of a proof one at a time, and answers each with success or an
error.  What it makes of an event shows in three places: its answer, its own state afterwards,
and its *surroundings*, which it may share with others; a message sent over a channel, for one,
is in the surroundings and not in the sender.  So an observer is a state with a function that
takes the surroundings and an event to a `Reaction`, which has all three.

There are sixteen kinds of announcement, each with arguments of its own.  An `Event` is an
announcement with its arguments, whichever of the sixteen it is, and so one function `note`
stands for sixteen calls.  To keep an announcement is to keep the event, and to announce again
what was kept is to note the event, with the kind and the arguments it came with; these are the
same for every kind.  Where an observer has something of its own to do for some kinds, its
`note` tells the events apart.

* `Observer` --- the contract;
* `Observer.replay` --- events announced in turn, until one is answered with an error;
* `Silent`, `Responder` --- observers that keep nothing.
-/

namespace Interpolation

/-- What an event leads to. -/
structure Reaction (ε τ : Type) where
  /-- How the event was answered. -/
  outcome : Except Error Unit
  /-- The observer afterwards. -/
  observer : τ
  /-- Its surroundings afterwards. -/
  surroundings : ε

/-- The reaction of something of which the observer is a part. -/
def Reaction.map {ε τ σ : Type} (f : τ → σ) (r : Reaction ε τ) : Reaction ε σ :=
  ⟨r.outcome, f r.observer, r.surroundings⟩

/-- What can be told of the events of a proof, in surroundings of the type `ε`. -/
class Observer (ε τ : Type) where
  /-- Tells an observer of an event. -/
  note : ε → τ → Event → Reaction ε τ

namespace Observer

variable {ε τ : Type} [Observer ε τ]

/-- Tells an observer of events in turn, up to the first it answers with an error. -/
def replay (surroundings : ε) (observer : τ) : List Event → Reaction ε τ
  | [] => ⟨.ok (), observer, surroundings⟩
  | e :: rest =>
    let reaction := note surroundings observer e
    match reaction.outcome with
    | .ok () => replay reaction.surroundings reaction.observer rest
    | .error _ => reaction

/-- Tells an observer of every event in turn, whatever it answers. -/
def noteAll (surroundings : ε) (observer : τ) (events : List Event) : τ × ε :=
  events.foldl
    (fun (observer, surroundings) e =>
      let reaction : Reaction ε τ := note surroundings observer e
      (reaction.observer, reaction.surroundings))
    (observer, surroundings)

end Observer

/-- An observer that does nothing and answers every event with success. -/
structure Silent where
  deriving DecidableEq, Repr

instance {ε : Type} : Observer ε Silent := ⟨fun surroundings s _ => ⟨.ok (), s, surroundings⟩⟩

/-- An observer that keeps nothing and answers each event by a fixed rule. -/
structure Responder where
  /-- The rule. -/
  answer : Event → Except Error Unit

instance {ε : Type} : Observer ε Responder :=
  ⟨fun surroundings r e => ⟨r.answer e, r, surroundings⟩⟩

end Interpolation
