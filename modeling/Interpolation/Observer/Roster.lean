import Interpolation.NatMap
import Interpolation.Observer.Basic

/-!
# The observers attached to a solver

A solver announces each event to every observer attached to it.  The observers themselves stand
on a *shelf*, each under a number of its own, since whoever made an observer keeps access to it
and since one observer can be attached more than once.  The roster lists the attachments in
order.  Attaching gives out a key, and detaching needs one; keys count up and are never given
out again, so a key means the same attachment for ever.

An observer that somebody holds cannot be told of anything.  It misses the event, and that
counts as an error; but every other observer is told all the same, and only then is the first of
the errors returned.

* `Roster.attach`, `Roster.detach`, `Roster.announce`.
-/

namespace Interpolation

/-- One attachment. -/
structure Attachment where
  /-- The key by which it can be undone. -/
  key : Nat
  /-- The number of the observer on the shelf. -/
  handle : Nat
  deriving DecidableEq, Repr

/-- The observers attached to a solver. -/
structure Roster where
  /-- The attachments, in the order in which they were made. -/
  attachments : List Attachment := []
  /-- The key of the next attachment. -/
  nextKey : Nat := 0
  deriving DecidableEq, Repr

instance : Inhabited Roster := ⟨{}⟩

/-- The outcome of two things done one after the other, whether or not the first failed: the
error of the first that did. -/
def firstError (earlier later : Except Error Unit) : Except Error Unit :=
  match earlier with
  | .ok () => later
  | .error e => .error e

namespace Roster

/-- Attaches the observer with a number, and returns the key of the attachment. -/
def attach (r : Roster) (handle : Nat) : Nat × Roster :=
  (r.nextKey,
    { attachments := r.attachments ++ [⟨r.nextKey, handle⟩], nextKey := r.nextKey + 1 })

/-- Whether a key is that of an attachment. -/
def isAttached (r : Roster) (key : Nat) : Bool := r.attachments.any fun a => a.key == key

/-- Undoes the attachment with a key, and returns whether there was one. -/
def detach (r : Roster) (key : Nat) : Bool × Roster :=
  (r.isAttached key, { r with attachments := r.attachments.eraseP fun a => a.key == key })

/-- How many attachments there are. -/
def size (r : Roster) : Nat := r.attachments.length

/-- Whether nothing is attached. -/
def isEmpty (r : Roster) : Bool := r.attachments.isEmpty

/-- The text of the key of an attachment. -/
def keyText (key : Nat) : String := "TracerKey(" ++ toString key ++ ")"

/-- After an attachment its key is attached, and so is every key that was. -/
theorem isAttached_attach (r : Roster) (handle key : Nat) :
    (r.attach handle).2.isAttached key = (r.isAttached key || r.nextKey == key) := by
  simp [isAttached, attach]

section

variable {ε τ : Type} [Observer ε τ]

/-- Tells the observer with a number of an event, unless it is held. -/
def deliver (held : List Nat) (e : Event) (surroundings : ε) (shelf : NatMap τ) (handle : Nat) :
    Except Error Unit × ε × NatMap τ :=
  if handle ∈ held then (.error .observerInUse, surroundings, shelf)
  else
    match shelf.find? handle with
    | none => (.error .observerInUse, surroundings, shelf)
    | some observer =>
      let reaction := Observer.note surroundings observer e
      (reaction.outcome, reaction.surroundings, shelf.insert handle reaction.observer)

/-- Tells the observers with the numbers listed of an event, one after the other, and returns
the first error. -/
def deliverAll (held : List Nat) (e : Event) (surroundings : ε) (shelf : NatMap τ) :
    List Nat → Except Error Unit × ε × NatMap τ
  | [] => (.ok (), surroundings, shelf)
  | handle :: rest =>
    let (outcome, surroundings, shelf) := deliver held e surroundings shelf handle
    let (later, surroundings, shelf) := deliverAll held e surroundings shelf rest
    (firstError outcome later, surroundings, shelf)

/-- Tells every attached observer of an event, in the order of attachment. -/
def announce (r : Roster) (held : List Nat) (e : Event) (surroundings : ε) (shelf : NatMap τ) :
    Except Error Unit × ε × NatMap τ :=
  deliverAll held e surroundings shelf (r.attachments.map (·.handle))

end

end Roster

end Interpolation
