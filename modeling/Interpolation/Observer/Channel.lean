import Interpolation.NatMap
import Interpolation.Observer.Basic

/-!
# Channels

A channel carries events from an observer, its sender, to whoever holds its receiving end, who
collects them when it suits.  Between the two the events lie in a box, and boxes belong to
neither: they are in the surroundings, in a `Mailroom`.  A box is opened with its channel and
closed when the receiving end is dropped; what is sent afterwards has nowhere to go, and the
sender answers with an error.  Boxes are numbered, and no number is used twice.

* `Mailroom.collect_post` --- what was posted is there to collect, after what was there before.
-/

namespace Interpolation

/-- The boxes between senders and receivers. -/
structure Mailroom where
  /-- The events waiting in each open box, in the order in which they came. -/
  boxes : NatMap (List Event) := ∅
  /-- The number of the next box to be opened. -/
  nextBox : Nat := 0
  deriving DecidableEq, Repr

instance : Inhabited Mailroom := ⟨{}⟩

namespace Mailroom

/-- Opens a box, and returns its number. -/
def openBox (m : Mailroom) : Nat × Mailroom :=
  (m.nextBox, { boxes := m.boxes.insert m.nextBox [], nextBox := m.nextBox + 1 })

/-- Puts an event into a box, if the box is open. -/
def post (m : Mailroom) (box : Nat) (e : Event) : Except Error Unit × Mailroom :=
  match m.boxes.find? box with
  | none => (.error .disconnected, m)
  | some waiting => (.ok (), { m with boxes := m.boxes.insert box (waiting ++ [e]) })

/-- Empties a box, and returns what was waiting in it; nothing, if the box is not open. -/
def collect (m : Mailroom) (box : Nat) : Option (List Event) × Mailroom :=
  match m.boxes.find? box with
  | none => (none, m)
  | some waiting => (some waiting, { m with boxes := m.boxes.insert box [] })

/-- Closes a box, and with it goes what was waiting there. -/
def closeBox (m : Mailroom) (box : Nat) : Mailroom := { m with boxes := m.boxes.erase box }

/-- What was posted is there to collect, after what was there before. -/
theorem collect_post {m : Mailroom} {box : Nat} {waiting : List Event}
    (h : m.boxes.find? box = some waiting) (e : Event) :
    ((m.post box e).2.collect box).1 = some (waiting ++ [e]) := by
  simp [post, collect, h]

end Mailroom

/-- An observer that sends every event over a channel. -/
structure Sender where
  /-- The number of the box at the other end. -/
  box : Nat
  deriving DecidableEq, Repr

instance : Observer Mailroom Sender where
  note mailroom sender e :=
    let (outcome, mailroom) := mailroom.post sender.box e
    ⟨outcome, sender, mailroom⟩

end Interpolation
