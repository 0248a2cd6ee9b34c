import Interpolation.Proofs.FinalRefutations

/-!
# Deletion has no say in an interpolant

A solver deletes clauses to save time, and what it deletes it can put back.  None of that is
to bear on what is made of its proof.  So let a proof be recorded together with a labelling, and
let the same be recorded once more with every deletion left out (`Ledger.run_spared`).  Then
everything is accepted again, every record is made at the key that it had, and the two proofs
come to the same interpolant.

On the way there the two proofs differ nearly all the time.  Where one has a clause among the
deleted ones, the other has it active still; where one brings a record back, the other finds
that there is nothing to bring back; and the identifiers that a derivation or a label is given
are looked up in maps that are not the same.  What they have in common is `Proof.Spares`: an
identifier is active in one under the key at which it is found at all in the other.  Each
operation but a deletion keeps it that way, and a deletion does when it happens in one of the
proofs alone.

That takes one condition (`Proof.Admits`).  An identifier may be used for one clause only, and
that clause put back as often as one likes; for where nothing was deleted an identifier that is
used again is taken.

* `Ledger.run` --- what is recorded and labelled, entry by entry;
* `Proof.Spares.step` --- what one operation preserves;
* `Ledger.Spares.run` --- what a run preserves.
-/

namespace Interpolation

/-! ## Clauses that are put back -/

namespace Operation

/-- Whether an operation deletes a clause. -/
def deletes : Operation → Bool
  | delete _ => true
  | _ => false

/-- Whether an operation puts a clause back, its literals in any order. -/
def PutsBack : Operation → Clause → Prop
  | premise _ _ given restored, clause => restored = true ∧ clause.Perm given
  | _, _ => False

instance : (operation : Operation) → (clause : Clause) → Decidable (operation.PutsBack clause)
  | premise _ _ given restored, clause =>
    inferInstanceAs (Decidable (restored = true ∧ clause.Perm given))
  | .begin _, _ => inferInstanceAs (Decidable False)
  | derived .., _ => inferInstanceAs (Decidable False)
  | delete _, _ => inferInstanceAs (Decidable False)
  | conclude .., _ => inferInstanceAs (Decidable False)
  | withdraw, _ => inferInstanceAs (Decidable False)
  | reset, _ => inferInstanceAs (Decidable False)

end Operation

namespace Proof

/-- Whether an operation leaves identifiers to the clauses that have them: if it brings one in
that is on record, then it does so to put the clause back. -/
def Admits (p : Proof) (operation : Operation) : Prop :=
  ∀ id ∈ operation.newId?, ∀ record ∈ p.records, record.id = some id →
    operation.PutsBack record.clause

instance (p : Proof) (operation : Operation) : Decidable (p.Admits operation) :=
  inferInstanceAs (Decidable (∀ id ∈ operation.newId?, ∀ record ∈ p.records,
    record.id = some id → operation.PutsBack record.clause))

variable {p q : Proof} {operation : Operation} {id key : Nat}

/-- An identifier that is not to be put back is not on record. -/
theorem Admits.latestKey?_eq_none (h : p.Admits operation) (htraced : p.Traced)
    (hid : operation.newId? = some id)
    (hnew : ∀ key record, p.latestKey? id = some key → p.record? key = some record →
      ¬ operation.PutsBack record.clause) : p.latestKey? id = none := by
  cases hlatest : p.latestKey? id with
  | none => rfl
  | some key =>
    obtain ⟨record, hrecord, hnamed⟩ := idAt?_eq_some_iff.mp (htraced id key hlatest).1
    exact absurd (h id hid record (Array.mem_of_getElem? hrecord) hnamed)
      (hnew key record hlatest hrecord)

/-! ## What two proofs have in common -/

/-- Whether one proof is what another would be if no clause of it had ever been deleted: its
records are the same up to their flags, and whatever is found in the one is active in the
other. -/
structure Spares (p q : Proof) : Prop where
  /-- Every record is there, up to its flag. -/
  records : p.Extends q
  /-- No other record is. -/
  size : q.size = p.size
  /-- What is found under an identifier is active. -/
  active : ∀ id, q.activeKey? id = p.latestKey? id
  /-- Nothing is deleted. -/
  deleted : ∀ id, q.deleted.find? id = none
  /-- The first identifier is the same. -/
  firstId : q.firstId = p.firstId
  /-- The refutation is the same. -/
  refutation : q.refutation = p.refutation

/-- Whether there is an empty clause at a key. -/
def isEmptyAt (p : Proof) (key : Nat) : Bool := (p.record? key).any fun r => r.clause.isEmpty

/-- A chain of one clause names it for a witness if it is empty. -/
theorem witness_singleton (p : Proof) (key : Nat) : p.witness [key] =
    bif p.isEmptyAt key then .ok (some key, p) else witness.derive p [key] := by
  cases hrecord : p.record? key with
  | none =>
    simp only [isEmptyAt, witness, hrecord]
    rfl
  | some record =>
    obtain ⟨id, clause, redundant, source, antecedents, active⟩ := record
    simp only [isEmptyAt, witness, hrecord]
    cases clause <;> rfl

namespace Spares

theorem refl_empty : Spares {} {} := ⟨.refl _, rfl, fun _ => rfl, fun _ => rfl, rfl, rfl⟩

theorem latestKey?_eq (h : p.Spares q) (id : Nat) : q.latestKey? id = p.latestKey? id := by
  rw [latestKey?, h.deleted, Option.or_none, h.active]

theorem concluded_eq (h : p.Spares q) : q.concluded = p.concluded := by
  unfold concluded
  rw [h.refutation]

theorem isEmptyAt_eq (h : p.Spares q) (key : Nat) : q.isEmptyAt key = p.isEmptyAt key := by
  have hrel := h.records.rel_record? h.size key
  unfold isEmptyAt
  generalize p.record? key = found, q.record? key = later at hrel
  cases hrel with
  | none => rfl
  | some hagrees => exact congrArg List.isEmpty hagrees.clause

/-- What is active in the one is active in the other. -/
theorem activeKey?_eq (h : p.Spares q) (hid : p.activeKey? id = some key) :
    q.activeKey? id = some key := by
  rw [h.active, latestKey?, hid, Option.some_or]

/-- So identifiers that are resolved are resolved to the same keys. -/
theorem resolveIds_eq (h : p.Spares q) {ids keys : List Nat} (hkeys : p.resolveIds ids = .ok keys) :
    q.resolveIds ids = .ok keys := by
  rw [resolveIds_eq_ok_iff] at hkeys ⊢
  rw [← hkeys]
  refine List.map_congr_left fun id hid => ?_
  have hmem : p.activeKey? id ∈ keys.map some := by
    rw [← hkeys]
    exact List.mem_map_of_mem hid
  obtain ⟨key, -, hkey⟩ := List.mem_map.mp hmem
  rw [← hkey]
  exact h.activeKey?_eq hkey.symm

/-! ## Deletions and revivals -/

/-- A deletion in one proof is none in the other. -/
theorem removed (h : p.Spares q) (hid : p.activeKey? id = some key) :
    (p.removed id key).Spares q where
  records := h.records.mark key false
  size := h.size.trans Array.size_modify.symm
  active other := (h.active other).trans (latestKey?_removed hid other).symm
  deleted := h.deleted
  firstId := h.firstId
  refutation := h.refutation

/-- What is brought back in one proof never left the other. -/
theorem revive (h : p.Spares q) (hid : p.activeKey? id = none)
    (hkey : p.deleted.find? id = some key) : (p.revive id key).Spares q where
  records := h.records.mark key true
  size := h.size.trans Array.size_modify.symm
  active other := (h.active other).trans (latestKey?_revive hid hkey other).symm
  deleted := h.deleted
  firstId := h.firstId
  refutation := h.refutation

/-! ## New records -/

/-- A record is made at the same key of both proofs. -/
theorem store (h : p.Spares q) (record : Record) :
    Spares { p with records := p.records.push record }
      { q with records := q.records.push record } where
  records := h.records.push h.size record
  size := by
    show (q.records.push record).size = (p.records.push record).size
    rw [Array.size_push, Array.size_push, show q.records.size = p.records.size from h.size]
  active := h.active
  deleted := h.deleted
  firstId := h.firstId
  refutation := h.refutation

/-- And if it has an identifier, that is active in both. -/
theorem entered (h : p.Spares q) (id : Nat) (record : Record) :
    (p.entered id record).Spares (q.entered id record) := by
  refine { h.store record with active := fun other => ?_, deleted := fun other => ?_ }
  · show (q.active.insert id q.size).find? other = _
    rw [latestKey?_entered, NatMap.find?_insert, h.size]
    split
    · rfl
    · exact h.active other
  · show (q.deleted.erase id).find? other = none
    rw [NatMap.find?_erase, h.deleted, ite_self]

/-- A conclusion is put on record in both proofs. -/
theorem refute (h : p.Spares q) (refutation : Option Refutation) :
    Spares { p with refutation } { q with refutation } where
  records := h.records
  size := h.size
  active := h.active
  deleted := h.deleted
  firstId := h.firstId
  refutation := rfl

/-! ## Conclusions -/

/-- The empty clause that a chain leads to is found or derived in both proofs alike. -/
theorem witness (h : p.Spares q) {keys : List Nat} {key : Option Nat} {p' : Proof}
    (hp : p.witness keys = .ok (key, p')) :
    ∃ q', q.witness keys = .ok (key, q') ∧ p'.Spares q' := by
  have hderive (hp : witness.derive p keys = .ok (key, p')) :
      ∃ q', witness.derive q keys = .ok (key, q') ∧ p'.Spares q' := by
    unfold witness.derive at hp ⊢
    by_cases hsize : p.size < capacity
    · rw [store?_of_lt hsize] at hp
      rw [store?_of_lt (h.size ▸ hsize), h.size]
      obtain ⟨rfl, rfl⟩ := Prod.mk.inj (Except.ok.inj hp)
      exact ⟨_, rfl, h.store (.unnamed keys)⟩
    · rw [store?_of_not_lt hsize] at hp
      exact absurd hp (by simp)
  match keys with
  | [] =>
    obtain ⟨rfl, rfl⟩ := Prod.mk.inj (Except.ok.inj hp)
    exact ⟨q, rfl, h⟩
  | [k] =>
    rw [witness_singleton] at hp ⊢
    rw [h.isEmptyAt_eq]
    cases hempty : p.isEmptyAt k with
    | true =>
      rw [hempty] at hp
      obtain ⟨rfl, rfl⟩ := Prod.mk.inj (Except.ok.inj hp)
      exact ⟨q, rfl, h⟩
    | false =>
      rw [hempty] at hp
      exact hderive hp
  | k :: k' :: ks => exact hderive hp

/-- A conclusion that one proof accepts the other accepts. -/
theorem conclude (h : p.Spares q) {conclusion : Conclusion} {chain : List Nat} {p' : Proof}
    (hp : p.conclude conclusion chain = (.ok (), p')) :
    ∃ q', q.conclude conclusion chain = (.ok (), q') ∧ p'.Spares q' := by
  unfold Proof.conclude at hp ⊢
  have hopen : q.checkOpen = p.checkOpen := by
    unfold checkOpen
    rw [h.concluded_eq]
  rw [hopen]
  cases hcheck : p.checkOpen with
  | error e =>
    rw [hcheck] at hp
    exact absurd (congrArg Prod.fst hp) (by simp)
  | ok u =>
    rw [hcheck] at hp
    cases hkeys : p.resolveIds chain with
    | error id =>
      rw [hkeys] at hp
      exact absurd (congrArg Prod.fst hp) (by simp)
    | ok keys =>
      rw [hkeys] at hp
      rw [h.resolveIds_eq hkeys]
      cases conclusion with
      | assumptions =>
        obtain ⟨-, rfl⟩ := Prod.mk.inj hp
        exact ⟨_, rfl, h.refute _⟩
      | constraint =>
        obtain ⟨-, rfl⟩ := Prod.mk.inj hp
        exact ⟨_, rfl, h.refute _⟩
      | conflict =>
        cases hwitness : p.witness keys with
        | error e =>
          simp only [hwitness] at hp
          exact absurd (congrArg Prod.fst hp) (by simp)
        | ok found =>
          obtain ⟨key, r⟩ := found
          obtain ⟨r', hr', hspares⟩ := h.witness hwitness
          simp only [hwitness] at hp
          obtain ⟨-, rfl⟩ := Prod.mk.inj hp
          simp only [hr']
          exact ⟨_, rfl, hspares.refute _⟩

/-! ## The step of an operation -/

/-- What is neither a conclusion nor a deletion has an outcome in the other proof that gives the
same answer. -/
theorem exists_outcome (h : p.Spares q) (htraced : p.Traced) (hadmits : p.Admits operation)
    {result : Except ProofError (Option Nat) × Proof}
    (houtcome : Operation.Outcome p operation result)
    {key : Option Nat} (hok : result.1 = .ok key) (hconcludes : operation.concludes = false)
    (hdeletes : operation.deletes = false) :
    ∃ q', Operation.Outcome q operation (.ok key, q') ∧ result.2.Spares q' := by
  have hopen (hp : p.concluded = false) : q.concluded = false := h.concluded_eq.trans hp
  cases houtcome with
  | refused | full => exact absurd hok (by simp)
  | relative | unwitnessed | witnessed | concluded =>
    exact absurd hconcludes (by simp [Operation.concludes])
  | deleted => exact absurd hdeletes (by simp [Operation.deletes])
  | begun firstId hfirst =>
    obtain rfl := Except.ok.inj hok
    exact ⟨_, .begun firstId (h.firstId.trans hfirst), { h with firstId := rfl }⟩
  | kept id redundant clause k hp hproper hid =>
    obtain rfl := Except.ok.inj hok
    exact ⟨q, .kept id redundant clause k (hopen hp) hproper (h.activeKey?_eq hid), h⟩
  | revived id redundant clause k hp hproper hid hrevive =>
    obtain rfl := Except.ok.inj hok
    have hdeleted : p.deleted.find? id = some k := Option.eq_some_of_filter_eq_some hrevive
    have hactive : q.activeKey? id = some k := by
      rw [h.active, latestKey?, hid, Option.none_or, hdeleted]
    exact ⟨q, .kept id redundant clause k (hopen hp) hproper hactive, h.revive hid hdeleted⟩
  | premise id redundant clause restored hp hproper hid hrevive hsize =>
    obtain rfl := Except.ok.inj hok
    -- a clause that is put back would have been revived
    have hlatest : p.latestKey? id = none := by
      refine hadmits.latestKey?_eq_none htraced rfl ?_
      rintro k record hk hrecord ⟨hrestored, hperm⟩
      have hnone := hrevive hrestored
      rw [latestKey?, hid, Option.none_or] at hk
      rw [revivable?, hk, Option.filter_some, hrecord] at hnone
      simp only [Clause.sameLiterals_iff.mpr hperm] at hnone
      exact absurd hnone (by simp)
    rw [← h.size]
    refine ⟨_, .premise id redundant clause restored (hopen hp) hproper ?_ ?_ ?_, h.entered id _⟩
    · rw [h.active, hlatest]
    · intro
      rw [revivable?, h.deleted, Option.filter_none]
    · rwa [h.size]
  | derived id redundant clause ids keys hp hproper hid hkeys hsize =>
    obtain rfl := Except.ok.inj hok
    have hlatest : p.latestKey? id = none :=
      hadmits.latestKey?_eq_none htraced rfl fun _ _ _ _ => not_false
    rw [← h.size]
    refine ⟨_, .derived id redundant clause ids keys (hopen hp) hproper ?_
      (h.resolveIds_eq hkeys) ?_, h.entered id _⟩
    · rw [h.active, hlatest]
    · rwa [h.size]
  | withdrawn hp =>
    obtain rfl := Except.ok.inj hok
    exact ⟨_, .withdrawn (hopen hp), h.refute none⟩
  | reset =>
    obtain rfl := Except.ok.inj hok
    exact ⟨_, .reset, refl_empty⟩

/-- **What one proof accepts, short of a deletion, the other accepts with the same answer,** and
they go on having in common what they had. -/
theorem step (h : p.Spares q) (htraced : p.Traced) (hadmits : p.Admits operation)
    {key : Option Nat} (hok : (operation.attempt p).1 = .ok key)
    (hdeletes : operation.deletes = false) :
    (operation.attempt q).1 = .ok key ∧
      Spares (operation.attempt p).2 (operation.attempt q).2 := by
  cases hconcludes : operation.concludes with
  | false =>
    obtain ⟨q', houtcome, hspares⟩ :=
      h.exists_outcome htraced hadmits (operation.outcome_attempt p) hok hconcludes hdeletes
    rw [houtcome.attempt_eq rfl hconcludes]
    exact ⟨rfl, hspares⟩
  | true =>
    cases operation with
    | conclude conclusion chain =>
      cases hconclude : p.conclude conclusion chain with
      | mk answer p' =>
        simp only [Operation.attempt, hconclude] at hok ⊢
        cases answer with
        | error e => exact absurd hok (by simp [Operation.answering, Except.map])
        | ok u =>
          obtain ⟨q', hq', hspares⟩ := h.conclude hconclude
          simp only [hq']
          exact ⟨hok, hspares⟩
    | _ => exact absurd hconcludes (by simp [Operation.concludes])

/-- A deletion that is accepted in one proof makes no difference to what they have in common. -/
theorem delete (h : p.Spares q) (hdeletes : operation.deletes = true) {key : Option Nat}
    (hok : (operation.attempt p).1 = .ok key) : Spares (operation.attempt p).2 q := by
  have houtcome := operation.outcome_attempt p
  generalize operation.attempt p = result at hok houtcome ⊢
  cases houtcome with
  | refused | full => exact absurd hok (by simp)
  | deleted id k hid => exact h.removed hid
  | _ => exact absurd hdeletes (by simp [Operation.deletes])

/-- Labels are given to the same records. -/
theorem setPart_eq (h : p.Spares q) (labels : Labelling) (id : Nat) (part : Part) :
    labels.setPart q id part = labels.setPart p id part := by
  have hisSome (key : Nat) : (q.record? key).isSome = (p.record? key).isSome := by
    have hrel := h.records.rel_record? h.size key
    generalize p.record? key = found, q.record? key = later at hrel
    cases hrel <;> rfl
  unfold Labelling.setPart
  simp only [h.latestKey?_eq, hisSome]

end Spares
end Proof

/-! ## Ledgers -/

/-- A proof and a labelling, as whoever records the one and asks for the other keeps them. -/
structure Ledger where
  /-- What has been recorded. -/
  proof : Proof := {}
  /-- How it is labelled. -/
  labels : Labelling := {}

/-- What is done to a proof and its labelling. -/
inductive Entry
  /-- Something is done to the proof. -/
  | operation (operation : Operation)
  /-- A variable is labelled. -/
  | scope (atom : Nat) (scope : Scope)
  /-- The most recent clause with an identifier is labelled. -/
  | part (id : Nat) (part : Part)
  /-- The clause recorded at a key is labelled. -/
  | partAt (key : Nat) (part : Part)
  /-- A label is said in advance. -/
  | nextPart (part : Part)
  /-- The label said in advance is given to the clause recorded at a key. -/
  | spend (key : Nat)
  /-- All labels are released. -/
  | clear

/-- What is returned for an entry. -/
inductive Answer
  /-- The key that an operation returns, or why the operation is refused. -/
  | recorded (answer : Except ProofError (Option Nat))
  /-- Whether the scope of a variable was news. -/
  | scoped (news : Bool)
  /-- Whether a clause was labelled, or why not. -/
  | labelled (answer : Except LabelError Unit)
  /-- The label that was said in advance, if one was. -/
  | spent (part : Option Part)
  /-- Nothing. -/
  | done

/-- What an entry does to the proof, if it does anything to it. -/
def Entry.operation? : Entry → Option Operation
  | operation op => some op
  | _ => none

/-- Whether an entry deletes a clause. -/
def Entry.deletes (e : Entry) : Bool := e.operation?.any Operation.deletes

/-- Whether an operation is refused. -/
def Answer.refuses : Answer → Bool
  | recorded (.error _) => true
  | _ => false

namespace Ledger

/-- Does what an entry says, and returns the answer with what becomes of the proof and the
labelling. -/
def write (l : Ledger) : Entry → Answer × Ledger
  | .operation operation =>
    (.recorded (operation.attempt l.proof).1, { l with proof := (operation.attempt l.proof).2 })
  | .scope atom scope =>
    (.scoped (l.labels.setScope atom scope).1,
      { l with labels := (l.labels.setScope atom scope).2 })
  | .part id part =>
    match l.labels.setPart l.proof id part with
    | .error cause => (.labelled (.error cause), l)
    | .ok labels => (.labelled (.ok ()), { l with labels })
  | .partAt key part => (.done, { l with labels := l.labels.setPartAt key part })
  | .nextPart part => (.done, { l with labels := l.labels.setNextPart part })
  | .spend key =>
    (.spent (l.labels.spendPending key).1, { l with labels := (l.labels.spendPending key).2 })
  | .clear => (.done, { l with labels := {} })

/-- Does what each of the entries says in turn, and returns them with the answers. -/
def run (l : Ledger) : List Entry → List (Entry × Answer) × Ledger
  | [] => ([], l)
  | e :: rest =>
    ((e, (l.write e).1) :: ((l.write e).2.run rest).1, ((l.write e).2.run rest).2)

/-- Whether each entry of a list leaves identifiers to the clauses that have them by then. -/
def Orderly (l : Ledger) : List Entry → Prop
  | [] => True
  | e :: rest => (∀ operation ∈ e.operation?, l.proof.Admits operation) ∧
      (l.write e).2.Orderly rest

instance decidableOrderly : (l : Ledger) → (entries : List Entry) → Decidable (l.Orderly entries)
  | _, [] => .isTrue trivial
  | l, e :: rest =>
    have : Decidable ((l.write e).2.Orderly rest) := decidableOrderly (l.write e).2 rest
    inferInstanceAs (Decidable (_ ∧ _))

/-- The entries that delete nothing. -/
def spared (entries : List Entry) : List Entry := entries.filter fun e => !e.deletes

/-- Whether one proof is what another would be without deletions, under the same labels. -/
structure Spares (l m : Ledger) : Prop where
  /-- The records are the same, and what is found in the one is active in the other. -/
  proof : l.proof.Spares m.proof
  /-- The labels are the same. -/
  labels : m.labels = l.labels

namespace Spares

variable {l m : Ledger} {e : Entry}

/-- Entries that delete nothing have the same answer. -/
theorem write (h : l.Spares m) (htraced : l.proof.Traced)
    (hadmits : ∀ operation ∈ e.operation?, l.proof.Admits operation)
    (haccepted : (l.write e).1.refuses = false) (hdeletes : e.deletes = false) :
    (m.write e).1 = (l.write e).1 ∧ (l.write e).2.Spares (m.write e).2 := by
  obtain ⟨hproof, hlabels⟩ := h
  cases e with
  | operation operation =>
    cases hok : (operation.attempt l.proof).1 with
    | error cause =>
      rw [Ledger.write, hok] at haccepted
      exact absurd haccepted.symm Bool.false_ne_true
    | ok key =>
      obtain ⟨hanswer, hspares⟩ :=
        hproof.step htraced (hadmits operation rfl) hok hdeletes
      refine ⟨congrArg Answer.recorded (hanswer.trans hok.symm), hspares, hlabels⟩
  | part id part =>
    simp only [Ledger.write, hlabels, hproof.setPart_eq]
    cases l.labels.setPart l.proof id part with
    | error cause => exact ⟨rfl, hproof, hlabels⟩
    | ok labels => exact ⟨rfl, hproof, rfl⟩
  | scope | partAt | nextPart | spend | clear =>
    simp only [Ledger.write, hlabels, true_and]
    exact ⟨hproof, rfl⟩

/-- Entries that delete something make no difference. -/
theorem delete (h : l.Spares m) (haccepted : (l.write e).1.refuses = false)
    (hdeletes : e.deletes = true) : (l.write e).2.Spares m := by
  cases e with
  | operation operation =>
    cases hok : (operation.attempt l.proof).1 with
    | error cause =>
      rw [Ledger.write, hok] at haccepted
      exact absurd haccepted.symm Bool.false_ne_true
    | ok key => exact ⟨h.proof.delete hdeletes hok, h.labels⟩
  | _ => exact absurd hdeletes Bool.false_ne_true

end Spares

/-- What is found under an identifier stays the last record made with it. -/
theorem traced_write {l : Ledger} (h : l.proof.Traced) (e : Entry) :
    (l.write e).2.proof.Traced := by
  cases e with
  | operation operation => exact h.change (Proof.change_of_outcome (operation.outcome_attempt _))
  | part id part =>
    simp only [write]
    cases l.labels.setPart l.proof id part <;> exact h
  | _ => exact h

/-- **A run goes the same without its deletions:** the answers are the same, and so is all that
the two proofs have in common. -/
theorem Spares.run {l m : Ledger} (h : l.Spares m) (htraced : l.proof.Traced)
    {entries : List Entry} (horderly : l.Orderly entries)
    (haccepted : ∀ line ∈ (l.run entries).1, line.2.refuses = false) :
    (m.run (spared entries)).1 = (l.run entries).1.filter (fun line => !line.1.deletes) ∧
      (l.run entries).2.Spares (m.run (spared entries)).2 := by
  induction entries generalizing l m with
  | nil => exact ⟨rfl, h⟩
  | cons e rest ih =>
    obtain ⟨hadmits, hrest⟩ := horderly
    obtain ⟨hanswer, hanswers⟩ := List.forall_mem_cons.mp haccepted
    have htraced' := traced_write htraced e
    rw [Ledger.run]
    cases hdeletes : e.deletes with
    | true =>
      rw [spared, List.filter_cons_of_neg (by simp [hdeletes]),
        List.filter_cons_of_neg (by simp [hdeletes])]
      exact ih (h.delete hanswer hdeletes) htraced' hrest hanswers
    | false =>
      obtain ⟨hsame, hspares⟩ := h.write htraced hadmits hanswer hdeletes
      obtain ⟨hlines, hlater⟩ := ih hspares htraced' hrest hanswers
      rw [spared, List.filter_cons_of_pos (by simp [hdeletes]),
        List.filter_cons_of_pos (by simp [hdeletes]), Ledger.run, hsame]
      exact ⟨congrArg _ hlines, hlater⟩

/-- **Deletions have no say in an interpolant.**  Let a proof and its labelling be made by entries
of which no operation is refused, and which use an identifier that is on record only to put its
clause back, the literals in any order.  Without the entries that delete something, no operation
is refused either, and each entry has the same answer, so that every record is made at the key
that it had.  In the end the records are the same up to their flags; the refutation, with its
witness, and the labels are the same; and for all settings and from any counter on the
interpolant is the same, or the error. -/
theorem run_spared (entries : List Entry) (horderly : Orderly {} entries)
    (haccepted : ∀ line ∈ (run {} entries).1, line.2.refuses = false) :
    let (lines, l) := run {} entries
    let (lines', m) := run {} (spared entries)
    lines' = lines.filter (fun line => !line.1.deletes) ∧
      (∀ line ∈ lines', line.2.refuses = false) ∧
      (∀ key, Option.Rel Record.Agrees (l.proof.record? key) (m.proof.record? key)) ∧
      m.proof.refutation = l.proof.refutation ∧ m.labels = l.labels ∧
      ∀ config next,
        interpolate m.proof m.labels config next = interpolate l.proof l.labels config next := by
  have hempty : Spares {} {} := ⟨.refl_empty, rfl⟩
  have htraced : Proof.Traced {} := Proof.Reachable.start.traced
  obtain ⟨hlines, hproof, hlabels⟩ := hempty.run htraced horderly haccepted
  refine ⟨hlines, fun line hline => ?_, hproof.records.rel_record? hproof.size, hproof.refutation,
    hlabels, fun config next => ?_⟩
  · rw [hlines] at hline
    exact haccepted line (List.mem_of_mem_filter hline)
  · rw [hlabels]
    exact interpolate_eq_of_extends hproof.records hproof.size hproof.refutation next

/-- The refutation `splitRefutation`, labelled as in `splitLabelling`, with clauses deleted and put
back as it goes along; one is labelled while it is deleted. -/
def tidiedEntries : List Entry :=
  [.scope 10 (.localTo .a), .operation (.premise 1 false [10, 2] false), .operation (.delete 1),
    .part 1 .a, .nextPart .a, .operation (.premise 2 false [-10, 3] false), .spend 1,
    .operation (.premise 3 false [-2] false), .part 3 .b, .operation (.premise 4 false [-3] false),
    .part 4 .b, .operation (.premise 5 false [2, 4] false), .part 5 .b, .operation (.delete 5),
    .operation (.premise 1 false [2, 10] true), .operation (.premise 5 false [4, 2] true),
    .operation (.derived 6 false [2, 3] [5, 1, 2]), .operation (.delete 5),
    .operation (.delete 1), .operation (.conclude .conflict [3, 4, 6]), .operation (.delete 6)]

theorem run_spared_tidiedEntries :
    Orderly {} tidiedEntries ∧ (∀ line ∈ (run {} tidiedEntries).1, line.2.refuses = false) ∧
      (run {} (spared tidiedEntries)).1 =
        (run {} tidiedEntries).1.filter (fun line => !line.1.deletes) ∧
      interpolate (run {} (spared tidiedEntries)).2.proof (run {} (spared tidiedEntries)).2.labels
        {} 20 = .ok (splitInterpolant 20) := by
  have horderly : Orderly {} tidiedEntries := by decide
  have haccepted : ∀ line ∈ (run {} tidiedEntries).1, line.2.refuses = false := by decide
  obtain ⟨hlines, -, -, -, -, hinterpolate⟩ := run_spared tidiedEntries horderly haccepted
  exact ⟨horderly, haccepted, hlines, (hinterpolate {} 20).trans rfl⟩

end Ledger
end Interpolation
