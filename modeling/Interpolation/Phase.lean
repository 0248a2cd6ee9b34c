/-!
# The phases of a session, and what is reported of them

A session passes through phases that follow those of the solver it observes: nothing noted yet,
clauses noted, a solve under way, and then one of two conclusions.  The `stage` of a phase says
how far a session has come; the two concluded phases share the last stage, because a further
solve can turn either into the other.

What is reported of a session concerns its most recent solve only, and is unknown until that
solve has concluded.
-/

namespace Interpolation

/-- What a session has observed of the solver so far. -/
inductive Phase
  /-- Nothing that matters to the proof has been noted. -/
  | configuration
  /-- The formula is being noted. -/
  | input
  /-- A solve is under way. -/
  | solving
  /-- The most recent solve found a model. -/
  | satisfiable
  /-- The most recent solve found that there is no model, perhaps only under assumptions. -/
  | unsatisfiable
  deriving DecidableEq, Repr, Inhabited

namespace Phase

/-- How far a session has come. -/
def stage : Phase → Nat
  | configuration => 0
  | input => 1
  | solving => 2
  | satisfiable => 3
  | unsatisfiable => 3

/-- The name of a phase. -/
def name : Phase → String
  | configuration => "Configuration"
  | input => "Input"
  | solving => "Solving"
  | satisfiable => "Satisfiable"
  | unsatisfiable => "Unsatisfiable"

/-- Every phase, in the order of a session's life. -/
def all : List Phase := [configuration, input, solving, satisfiable, unsatisfiable]

/-- The phase with a name, if there is one. -/
def ofName? (name : String) : Option Phase := all.find? fun p => p.name = name

theorem ofName?_name (p : Phase) : ofName? p.name = some p := by
  cases p <;> simp [ofName?, all, name]

end Phase

/-- What is known of the formula after the most recent solve. -/
inductive Report
  /-- It has a model. -/
  | satisfiable
  /-- It has none, perhaps only under assumptions. -/
  | unsatisfiable
  /-- The solve has not concluded, or there was none. -/
  | unknown
  deriving DecidableEq, Repr

namespace Report

/-- The name of a report. -/
def name : Report → String
  | satisfiable => "Satisfiable"
  | unsatisfiable => "Unsatisfiable"
  | unknown => "Unknown"

end Report

/-- What is reported in a phase. -/
def Phase.report : Phase → Report
  | .satisfiable => .satisfiable
  | .unsatisfiable => .unsatisfiable
  | _ => .unknown

end Interpolation
