import Interpolation.Observer.Basic

/-!
# Recorders

A recorder keeps every event it is told of, in order, and never refuses one.  What it has kept
can be replayed to another observer, which then has been told the same.
-/

namespace Interpolation

/-- An observer that keeps every event. -/
structure Recorder where
  /-- The events kept, in the order in which they came. -/
  events : Array Event := #[]
  deriving DecidableEq, Repr

namespace Recorder

/-- The recorder with one more event. -/
def push (r : Recorder) (e : Event) : Recorder := ⟨r.events.push e⟩

/-- The events kept so far, and the recorder without them. -/
def take (r : Recorder) : List Event × Recorder := (r.events.toList, {})

/-- How many events are kept. -/
def size (r : Recorder) : Nat := r.events.size

instance {ε : Type} : Observer ε Recorder :=
  ⟨fun surroundings r e => ⟨.ok (), r.push e, surroundings⟩⟩

@[simp] theorem toList_push (r : Recorder) (e : Event) :
    (r.push e).events.toList = r.events.toList ++ [e] := by simp [push]

end Recorder

end Interpolation
