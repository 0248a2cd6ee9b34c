import Interpolation.Error
import Interpolation.Proof.Basic

/-!
# Which part a clause belongs to, and where a variable occurs

Interpolation is about a formula in two parts.  A labelling says of each premise which
part it belongs to, and of each variable whether it is shared between the parts or local to one
of them; a variable of which nothing is said is shared.

Clauses are labelled by the keys of their records.  So a label survives the deletion of its
clause and the clause's return, and whatever later takes over the identifier starts without one.

A label may also be set in advance, for the next clause to come.

* `Labelling.scopeOf` --- where a variable may occur;
* `Labelling.partAt?`, `Labelling.partOf` --- the part of a clause, by key or by identifier;
* `scopeOf_setScope`, `partAt?_setPartAt` --- what is said is read back, and nothing else
  changes.
-/

namespace Interpolation

/-- The two parts of a formula. -/
inductive Part
  /-- The part that implies the interpolant. -/
  | a
  /-- The part that contradicts the interpolant. -/
  | b
  deriving DecidableEq, Repr

namespace Part

/-- The name of a part. -/
def name : Part → String
  | a => "A"
  | b => "B"

/-- The part with a name, if there is one. -/
def ofName? (name : String) : Option Part := [a, b].find? fun part => part.name = name

theorem ofName?_name (part : Part) : ofName? part.name = some part := by
  cases part <;> simp [ofName?, name]

end Part

/-- Where a variable may occur. -/
inductive Scope
  /-- In clauses of both parts. -/
  | shared
  /-- In clauses of one part only. -/
  | localTo (part : Part)
  deriving DecidableEq, Repr

namespace Scope

/-- The name of a scope. -/
def name : Scope → String
  | shared => "Global"
  | .localTo .a => "ALocal"
  | .localTo .b => "BLocal"

/-- The scope with a name, if there is one. -/
def ofName? (name : String) : Option Scope :=
  [shared, .localTo .a, .localTo .b].find? fun scope => scope.name = name

theorem ofName?_name : ∀ scope : Scope, ofName? scope.name = some scope
  | shared => by simp [ofName?, name]
  | .localTo .a => by simp [ofName?, name]
  | .localTo .b => by simp [ofName?, name]

end Scope

/-- What is known of the two parts of a formula. -/
structure Labelling where
  /-- The scopes of the variables of which something was said. -/
  scopes : NatMap Scope := ∅
  /-- The parts of the clauses labelled, by the keys of their records. -/
  parts : NatMap Part := ∅
  /-- The part of the next clause to come, if it was said in advance. -/
  pending : Option Part := none
  deriving DecidableEq, Repr

instance : Inhabited Labelling := ⟨{}⟩

namespace Labelling

/-- Where a variable may occur. -/
def scopeOf (l : Labelling) (atom : Nat) : Scope := (l.scopes.find? atom).getD .shared

/-- The part of the clause recorded at a key. -/
def partAt? (l : Labelling) (key : Nat) : Option Part := l.parts.find? key

/-- The part of the most recent clause with an identifier. -/
def partOf (l : Labelling) (p : Proof) (id : Nat) : Except LabelError Part :=
  match p.latestKey? id with
  | none => .error (.unknownClause id)
  | some key =>
    match l.partAt? key with
    | none => .error (.unlabelledClause id)
    | some part => .ok part

/-- How many clauses are labelled. -/
def clauseCount (l : Labelling) : Nat := l.parts.size

/-- Says where a variable may occur, and returns whether that was news. -/
def setScope (l : Labelling) (atom : Nat) (scope : Scope) : Bool × Labelling :=
  (l.scopes.find? atom != some scope,
    { l with scopes := l.scopes.insert atom scope })

/-- Says which part the clause recorded at a key belongs to. -/
def setPartAt (l : Labelling) (key : Nat) (part : Part) : Labelling :=
  { l with parts := l.parts.insert key part }

/-- Says which part the most recent clause with an identifier belongs to. -/
def setPart (l : Labelling) (p : Proof) (id : Nat) (part : Part) :
    Except LabelError Labelling :=
  match (p.latestKey? id).filter fun key => (p.record? key).isSome with
  | none => .error (.unknownClause id)
  | some key => .ok (l.setPartAt key part)

/-- Says in advance which part the next clause belongs to. -/
def setNextPart (l : Labelling) (part : Part) : Labelling := { l with pending := some part }

/-- Gives the clause recorded at a key the part said in advance, if any was, and returns it. -/
def spendPending (l : Labelling) (key : Nat) : Option Part × Labelling :=
  match l.pending with
  | none => (none, l)
  | some part => (some part, { l with pending := none }.setPartAt key part)

/-! ## What a change is read back as -/

theorem scopeOf_setScope (l : Labelling) (atom other : Nat) (scope : Scope) :
    (l.setScope atom scope).2.scopeOf other = if other = atom then scope else l.scopeOf other := by
  unfold scopeOf setScope
  rw [NatMap.find?_insert]
  split <;> rfl

theorem partAt?_setPartAt (l : Labelling) (key other : Nat) (part : Part) :
    (l.setPartAt key part).partAt? other = if other = key then some part else l.partAt? other :=
  NatMap.find?_insert l.parts key other part

/-- Whether or not a part was said in advance, none is left after it was spent. -/
theorem pending_spendPending (l : Labelling) (key : Nat) :
    (l.spendPending key).2.pending = none := by
  unfold spendPending
  split
  · assumption
  · rfl

end Labelling

end Interpolation
