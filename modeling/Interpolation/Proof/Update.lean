import Interpolation.Error
import Interpolation.Proof.Basic

/-!
# Recording a proof

Each operation here takes the proof as it is and returns what the caller is told, a result or
an error, together with the proof as it is afterwards.  An operation refuses before it changes
anything, with one exception.  An identifier that is used for a new record is no longer among
the deleted ones from the moment it is, and only then is room sought for the record; should
every key be in use already, the refusal leaves the deleted record of the identifier forgotten.

Three rules govern identifiers.

* A fresh clause must not have the identifier of an active clause.
* A restored clause may.  If its identifier is active the record there is kept; if the most
  recent deleted record of the identifier has the same literals, in any order, that record is
  made active again; otherwise a new record is made.
* What a derived clause or a conclusion refers to has to be active.

Once the formula itself is refuted only deletions, and a first note of where the proof begins,
are accepted.

* `Proof.addPremise`, `Proof.addDerived`, `Proof.delete` --- clauses come and go;
* `Proof.conclude`, `Proof.withdraw` --- a conclusion is reached or withdrawn;
* `checkLiterals_eq_ok_iff`, `resolveIds_eq_ok_iff` --- what a clause and what it refers to have
  to pass.
-/

namespace Interpolation
namespace Proof

/-- Ok, unless the formula has been refuted. -/
def checkOpen (p : Proof) : Except ProofError Unit :=
  if p.concluded then .error .sessionConcluded else .ok ()

/-- Ok, if a clause may hold a literal. -/
def checkLiteral (id : Nat) (l : Literal) : Except ProofError Unit :=
  if l.toInt = 0 then .error (.zeroLiteral id)
  else if atomMax < l.atom then .error (.literalOutOfBounds id)
  else .ok ()

/-- Ok, if a clause may hold each of the literals; else the fault of the first it may not. -/
def checkLiterals (id : Nat) : Clause → Except ProofError Unit
  | [] => .ok ()
  | l :: rest => do checkLiteral id l; checkLiterals id rest

/-- What any clause has to pass before it is recorded. -/
def checkClause (p : Proof) (id : Nat) (clause : Clause) : Except ProofError Unit := do
  p.checkOpen
  checkLiterals id clause

/-- The keys of active clauses, or the first identifier that is not that of an active clause. -/
def resolveIds (p : Proof) : List Nat → Except Nat (List Nat)
  | [] => .ok []
  | id :: rest =>
    match p.activeKey? id with
    | none => .error id
    | some key => (p.resolveIds rest).map (key :: ·)

theorem checkLiteral_eq_ok_iff {id : Nat} {l : Literal} :
    checkLiteral id l = .ok () ↔ l.Proper := by
  unfold checkLiteral
  split
  · simp_all [Literal.Proper]
  · split
    · simp_all [Literal.Proper]
    · rename_i h0 hmax
      exact iff_of_true rfl ⟨h0, Nat.not_lt.1 hmax⟩

/-- A clause passes just when all its literals are proper. -/
theorem checkLiterals_eq_ok_iff {id : Nat} {clause : Clause} :
    checkLiterals id clause = .ok () ↔ ∀ l ∈ clause, l.Proper := by
  induction clause with
  | nil => simp [checkLiterals]
  | cons l rest ih =>
    rw [List.forall_mem_cons, ← ih, ← @checkLiteral_eq_ok_iff id, checkLiterals]
    cases checkLiteral id l with
    | error e => simp [bind, Except.bind]
    | ok _ => simp [bind, Except.bind]

/-- Identifiers are resolved just when all of them are active, each to its own key. -/
theorem resolveIds_eq_ok_iff {p : Proof} {ids keys : List Nat} :
    p.resolveIds ids = .ok keys ↔ ids.map p.activeKey? = keys.map some := by
  induction ids generalizing keys with
  | nil => cases keys <;> simp [resolveIds]
  | cons id rest ih =>
    unfold resolveIds
    cases hid : p.activeKey? id with
    | none => cases keys <;> simp [hid]
    | some key =>
      cases keys with
      | nil => cases h : p.resolveIds rest <;> simp [Except.map]
      | cons k ks =>
        have := @ih ks
        cases h : p.resolveIds rest with
        | error e => simp_all [Except.map]
        | ok found =>
          rw [h] at this
          simp only [Except.map, Except.ok.injEq, List.cons.injEq, List.map_cons, hid,
            Option.some.injEq] at this ⊢
          rw [this]

/-- The proof with one more record, and the key of that; nothing, if every key is in use. -/
def store? (p : Proof) (record : Record) : Option (Nat × Proof) :=
  if p.size < capacity then some (p.size, { p with records := p.records.push record }) else none

/-- The proof with the record at a key marked as active or not. -/
def mark (p : Proof) (key : Nat) (active : Bool) : Proof :=
  { p with records := p.records.modify key fun record => { record with active } }

/-- Makes the record of a clause whose identifier is free.  The identifier leaves the deleted
ones first. -/
def enter (p : Proof) (id : Nat) (record : Record) : Except ProofError Nat × Proof :=
  let p := { p with deleted := p.deleted.erase id }
  match p.store? record with
  | none => (.error .storageExhausted, p)
  | some (key, p) => (.ok key, { p with active := p.active.insert id key })

/-- The key of the deleted record that a restored clause brings back: the most recent with the
identifier, if it has the same literals. -/
def revivable? (p : Proof) (id : Nat) (clause : Clause) : Option Nat :=
  (p.deleted.find? id).filter fun key =>
    match p.record? key with
    | some record => record.clause.sameLiterals clause
    | none => false

/-- Makes the deleted record at a key active again. -/
def revive (p : Proof) (id key : Nat) : Proof :=
  { p.mark key true with
    active := p.active.insert id key
    deleted := p.deleted.erase id }

/-! ## The operations -/

/-- Notes the first identifier the solver will use, which can be done once. -/
def begin (p : Proof) (firstId : Nat) : Except ProofError Unit × Proof :=
  match p.firstId with
  | some _ => (.error .proofAlreadyBegun, p)
  | none => (.ok (), { p with firstId := some firstId })

/-- Records a clause of the formula, fresh or restored, and returns the key of its record. -/
def addPremise (p : Proof) (id : Nat) (redundant : Bool) (clause : Clause) (restored : Bool) :
    Except ProofError Nat × Proof :=
  match p.checkClause id clause with
  | .error e => (.error e, p)
  | .ok () =>
    match p.activeKey? id, restored with
    | some key, true => (.ok key, p)
    | some _, false => (.error (.duplicateClause id), p)
    | none, true =>
      match p.revivable? id clause with
      | some key => (.ok key, p.revive id key)
      | none => p.enter id (.premise id redundant clause)
    | none, false => p.enter id (.premise id redundant clause)

/-- Records a clause derived from active clauses, and returns the key of its record. -/
def addDerived (p : Proof) (id : Nat) (redundant : Bool) (clause : Clause)
    (antecedents : List Nat) : Except ProofError Nat × Proof :=
  match p.checkClause id clause with
  | .error e => (.error e, p)
  | .ok () =>
    if p.contains id then (.error (.duplicateClause id), p)
    else
      match p.resolveIds antecedents with
      | .error antecedent => (.error (.danglingAntecedent id antecedent), p)
      | .ok keys => p.enter id (.derived id redundant clause keys)

/-- Makes the clause with an identifier inactive, and returns the key of its record.  The record
is kept, for whatever was derived from it. -/
def delete (p : Proof) (id : Nat) : Except ProofError Nat × Proof :=
  match p.activeKey? id with
  | none => (.error (.unknownClause id), p)
  | some key =>
    (.ok key,
      { p.mark key false with
        active := p.active.erase id
        deleted := p.deleted.insert id key })

/-- The key of the empty clause that a chain of keys leads to, and the proof with its record.  A
chain of one empty clause names it; any other chain with members derives it, which takes a
record of its own. -/
def witness (p : Proof) : List Nat → Except ProofError (Option Nat × Proof)
  | [] => .ok (none, p)
  | [key] =>
    match p.record? key with
    | some { clause := [], .. } => .ok (some key, p)
    | _ => derive [key]
  | keys => derive keys
where
  /-- Records the empty clause as derived from the records at the keys. -/
  derive (keys : List Nat) : Except ProofError (Option Nat × Proof) :=
    match p.store? (.unnamed keys) with
    | none => .error .storageExhausted
    | some (key, p) => .ok (some key, p)

/-- Records the conclusion that there is no model.  Only a refutation of the formula itself has
a witness. -/
def conclude (p : Proof) (conclusion : Conclusion) (chain : List Nat) :
    Except ProofError Unit × Proof :=
  match p.checkOpen with
  | .error e => (.error e, p)
  | .ok () =>
    match p.resolveIds chain with
    | .error id => (.error (.unknownClause id), p)
    | .ok keys =>
      match conclusion with
      | .conflict =>
        match p.witness keys with
        | .error e => (.error e, p)
        | .ok (witness, p) =>
          (.ok (), { p with refutation := some { conclusion, chain, witness } })
      | _ => (.ok (), { p with refutation := some { conclusion, chain, witness := none } })

/-- Withdraws a conclusion that was relative to assumptions or a constraint. -/
def withdraw (p : Proof) : Except ProofError Unit × Proof :=
  match p.checkOpen with
  | .error e => (.error e, p)
  | .ok () => (.ok (), { p with refutation := none })

end Proof
end Interpolation
