/-!
# Topics of diagnostics

What the library does can be followed under a handful of topics, one for each of its parts.  A
topic has a name, by which whoever sorts diagnostics can tell them apart.
-/

namespace Interpolation

/-- The parts of the library that diagnostics are about. -/
inductive Topic
  /-- Recording a proof. -/
  | proof
  /-- Labelling clauses and variables. -/
  | label
  /-- Passing events on to a consumer. -/
  | forward
  /-- Observers attached to a solver. -/
  | attachment
  /-- Constructing an interpolant. -/
  | interpolant
  /-- Encoding a circuit as clauses. -/
  | encoding
  /-- The session as a whole. -/
  | session
  deriving DecidableEq, Repr

namespace Topic

/-- The name of a topic. -/
def name : Topic → String
  | proof => "proof"
  | label => "label"
  | forward => "forward"
  | attachment => "attachment"
  | interpolant => "interpolant"
  | encoding => "tseitin"
  | session => "session"

/-- Every topic, in the order in which a proof passes through them. -/
def all : List Topic := [proof, label, forward, attachment, interpolant, encoding, session]

theorem mem_all (t : Topic) : t ∈ all := by cases t <;> simp [all]

end Topic

end Interpolation
