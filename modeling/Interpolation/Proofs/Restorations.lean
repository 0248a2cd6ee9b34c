import Interpolation.Proofs.JournalSteps

/-!
# Deleting a clause and putting it back

A deletion takes an identifier from the active ones to the deleted ones and lowers the flag of
a record; to put the clause back with the literals that it had does each of these the other way
round.  So nothing is left of the two together, neither in the maps nor in the record
(`Proof.revive_removed`), and it makes no difference whether the clause was a premise or had been
derived.

It depends on the literals alone which of two things happens.  They are compared with those on
record in any order, but each as often; with what the deletion was told they are not compared at
all, for a deletion keeps nothing of that.  Literals that are not a permutation of those on record
make a new premise, and the record that was deleted stays behind it (`Proof.Supersedes`).

* `Proof.revivable?_removed` --- what a deleted clause can be put back with;
* `Proof.revive_removed` --- putting a record back undoes its deletion;
* `Proof.supersedes_entered` --- what a clause with other literals leaves;
* `Proof.restore_removed` --- a deletion is undone by permutations of the literals and by
  nothing else.
-/

namespace Interpolation

namespace NatMap

variable {α : Type} {m : NatMap α} {k : Nat} {a : α}

/-- What is stored where nothing was can be erased again. -/
theorem erase_insert (h : m.find? k = none) : (m.insert k a).erase k = m := by
  refine ext fun j => ?_
  rw [find?_erase, find?_insert]
  split
  · rename_i hj
    rw [hj, h]
  · rfl

/-- What is erased can be stored again. -/
theorem insert_erase (h : m.find? k = some a) : (m.erase k).insert k a = m := by
  refine ext fun j => ?_
  rw [find?_insert, find?_erase]
  split
  · rename_i hj
    rw [hj, h]
  · rfl

end NatMap

namespace Proof

/-! ## What a deletion leaves -/

variable {p : Proof} {id key : Nat} {record : Record} {clause : Clause} {redundant : Bool}

theorem activeKey?_removed (p : Proof) (id key : Nat) : (p.removed id key).activeKey? id = none :=
  NatMap.find?_erase_self p.active id

theorem size_removed (p : Proof) (id key : Nat) : (p.removed id key).size = p.size :=
  Array.size_modify

/-- The record of a deleted clause is the one there was, with its flag lowered. -/
theorem record?_removed_self (hrecord : p.record? key = some record) (id : Nat) :
    (p.removed id key).record? key = some { record with active := false } := by
  show (p.mark key false).record? key = _
  rw [record?_mark, hrecord, Option.map_some, if_pos rfl]

/-- All other records are as they were. -/
theorem record?_removed_of_ne {k : Nat} (hne : k ≠ key) (id : Nat) :
    (p.removed id key).record? k = p.record? k := by
  show (p.mark key false).record? k = _
  rw [record?_mark]
  simp only [if_neg hne.symm, Option.map_id']

/-- A deleted clause can be put back with the literals on record, in any order, and with no
others. -/
theorem revivable?_removed (hrecord : p.record? key = some record) (id : Nat) (clause : Clause) :
    (p.removed id key).revivable? id clause =
      if record.clause.sameLiterals clause then some key else none := by
  have hdeleted : (p.removed id key).deleted.find? id = some key :=
    NatMap.find?_insert_self p.deleted id key
  rw [revivable?, hdeleted, Option.filter_some, record?_removed_self hrecord]

/-- **Putting a record back undoes its deletion,** if its identifier was not among the deleted
ones before and its flag was up. -/
theorem revive_removed (hid : p.activeKey? id = some key) (hdeleted : p.deleted.find? id = none)
    (hflag : ∀ record, p.record? key = some record → record.active = true) :
    (p.removed id key).revive id key = p := by
  have hrecords : ((p.removed id key).mark key true).records = p.records := by
    refine Array.ext_getElem? fun k => ?_
    show ((p.removed id key).mark key true).record? k = p.record? k
    rw [record?_mark]
    by_cases hk : key = k
    · subst hk
      cases hrecord : p.record? key with
      | none =>
        have hnone : (p.removed id key).record? key = none :=
          (record?_mark p key false key).trans (by rw [hrecord, Option.map_none])
        rw [hnone, Option.map_none]
      | some record =>
        rw [record?_removed_self hrecord, Option.map_some, if_pos rfl, ← hflag record hrecord]
    · rw [record?_removed_of_ne (Ne.symm hk)]
      simp only [if_neg hk, Option.map_id']
  show ({ (p.removed id key).mark key true with
      active := (p.active.erase id).insert id key
      deleted := (p.deleted.insert id key).erase id } : Proof) = p
  rw [NatMap.insert_erase hid, NatMap.erase_insert hdeleted]
  show ({ p with records := ((p.removed id key).mark key true).records } : Proof) = p
  rw [hrecords]

/-! ## Putting back other literals -/

/-- Whether a proof is another one with one record made anew: an identifier that led to a record
leads to the new one, which is the last of all, and the record that it led to is no longer
active. -/
structure Supersedes (p : Proof) (id key : Nat) (former made : Record) (q : Proof) : Prop where
  /-- There is one record more. -/
  size : q.size = p.size + 1
  /-- It has the greatest key. -/
  made : q.record? p.size = some made
  /-- The record that the identifier led to is inactive, and otherwise as it was. -/
  former : q.record? key = some { former with active := false }
  /-- So are all the others, their flags included. -/
  others : ∀ k, k ≠ key → k ≠ p.size → q.record? k = p.record? k
  /-- The identifier leads to the new record, and every other one to what it led to. -/
  active : ∀ other, q.activeKey? other = if other = id then some p.size else p.activeKey? other
  /-- The same identifiers are deleted ones. -/
  deleted : q.deleted = p.deleted
  /-- The first identifier noted is what it was. -/
  firstId : q.firstId = p.firstId
  /-- So is the conclusion on record. -/
  refutation : q.refutation = p.refutation

/-- A clause that is deleted and entered anew is superseded. -/
theorem supersedes_entered (hdeleted : p.deleted.find? id = none)
    (hrecord : p.record? key = some record) (made : Record) :
    p.Supersedes id key record made ((p.removed id key).entered id made) := by
  have hsize := size_removed p id key
  have hpush (k : Nat) : ((p.removed id key).entered id made).record? k =
      if k = p.size then some made else (p.removed id key).record? k := by
    rw [← hsize]
    exact record?_push (p.removed id key) made k
  have hkey : key ≠ p.size := Nat.ne_of_lt (lt_size_of_record? hrecord)
  refine ⟨?_, ?_, ?_, ?_, ?_, NatMap.erase_insert hdeleted, rfl, rfl⟩
  · show ((p.removed id key).records.push made).size = p.size + 1
    rw [Array.size_push]
    exact congrArg (· + 1) hsize
  · rw [hpush, if_pos rfl]
  · rw [hpush, if_neg hkey, record?_removed_self hrecord]
  · intro k hk hlast
    rw [hpush, if_neg hlast, record?_removed_of_ne hk]
  · intro other
    show ((p.active.erase id).insert id (p.removed id key).size).find? other = _
    rw [NatMap.find?_insert, NatMap.find?_erase, hsize]
    split <;> rfl

/-- What is superseded is not as it was. -/
theorem Supersedes.ne {former made : Record} {q : Proof} (h : p.Supersedes id key former made q) :
    q ≠ p := by
  rintro rfl
  exact absurd h.size (Nat.succ_ne_self _).symm

/-! ## Deleting and putting back -/

/-- A clause whose identifier is not active is put back by bringing back the record of it, if it
can be, and entered otherwise. -/
theorem addPremise_of_inactive (hopen : p.concluded = false) (hproper : ∀ l ∈ clause, l.Proper)
    (hid : p.activeKey? id = none) (redundant : Bool) :
    p.addPremise id redundant clause true =
      match p.revivable? id clause with
      | some key => (.ok key, p.revive id key)
      | none => p.enter id (.premise id redundant clause) := by
  have hcheck : p.checkClause id clause = .ok () := checkClause_eq_ok_iff.mpr ⟨hopen, hproper⟩
  cases hrevivable : p.revivable? id clause with
  | none => simp only [addPremise, hcheck, hid, hrevivable]
  | some key => simp only [addPremise, hcheck, hid, hrevivable]

/-- **A deletion is undone by permutations of the literals, and by nothing else.**  Take a proof
that was reached by operations, in which the formula has not been refuted and there is a key to
spare, and an identifier of an active clause, premise or derived.  Its deletion is accepted and
leads to the same proof whatever literals it is given.  If then a clause of proper literals is put
back under the identifier, the former record is brought back and the proof is what it was before
the deletion, in every part, just when the literals are those on record, each as often, in
whatever order.  Otherwise a new premise with the literals given, active and with the greatest
key, takes the place of the record, which stays inactive. -/
theorem restore_removed (hp : p.Reachable) (hsize : p.size < capacity)
    (hopen : p.concluded = false) (hid : p.activeKey? id = some key)
    (hproper : ∀ l ∈ clause, l.Proper) (redundant : Bool) :
    ∃ record q, p.record? key = some record ∧ p.delete id = (.ok key, q) ∧
      (∀ (j : Journal) (flag : Bool) (given : Clause), j.proof = p →
        (j.keep (.delete id flag given)).1 = .ok () ∧
          (j.keep (.delete id flag given)).2.proof = q) ∧
      (record.clause.Perm clause → q.addPremise id redundant clause true = (.ok key, p)) ∧
      (¬ record.clause.Perm clause → ∃ later,
        q.addPremise id redundant clause true = (.ok p.size, later) ∧
          p.Supersedes id key record (.premise id redundant clause) later) ∧
      ((q.addPremise id redundant clause true).2 = p ↔ record.clause.Perm clause) := by
  have hindexed := hp.indexed hsize
  obtain ⟨record, hrecord, -⟩ := idAt?_eq_some_iff.mp (hindexed.newest_of_active hid).1
  have hdeleted : p.deleted.find? id = none := by
    rcases hindexed.disjoint id with hnone | hnone
    · exact absurd (hid.symm.trans hnone) (Option.some_ne_none key)
    · exact hnone
  have hdelete : p.delete id = (.ok key, p.removed id key) := by
    simp only [delete, hid]
    rfl
  have hnoted (j : Journal) (flag : Bool) (given : Clause) (hj : j.proof = p) :
      (j.keep (.delete id flag given)).1 = .ok () ∧
        (j.keep (.delete id flag given)).2.proof = p.removed id key := by
    subst hj
    show (j.settle (j.proof.delete id) _).1 = .ok () ∧ (j.settle (j.proof.delete id) _).2.proof = _
    rw [hdelete]
    exact ⟨rfl, rfl⟩
  have hadd := addPremise_of_inactive (p := p.removed id key) hopen hproper
    (activeKey?_removed p id key) redundant
  rw [revivable?_removed hrecord] at hadd
  have hback (hperm : record.clause.Perm clause) :
      (p.removed id key).addPremise id redundant clause true = (.ok key, p) := by
    rw [hadd, if_pos (Clause.sameLiterals_iff.mpr hperm)]
    have hflag (r : Record) (hr : p.record? key = some r) : r.active = true :=
      (hindexed.flagged hr).mpr ⟨id, hid⟩
    exact congrArg (Prod.mk _) (revive_removed hid hdeleted hflag)
  have hanew (hperm : ¬ record.clause.Perm clause) : ∃ later,
      (p.removed id key).addPremise id redundant clause true = (.ok p.size, later) ∧
        p.Supersedes id key record (.premise id redundant clause) later := by
    have hroom : (p.removed id key).size < capacity := by
      rw [size_removed]
      exact hsize
    rw [hadd, if_neg (fun h => hperm (Clause.sameLiterals_iff.mp h)), enter_of_lt hroom,
      size_removed]
    exact ⟨_, rfl, supersedes_entered hdeleted hrecord _⟩
  refine ⟨record, p.removed id key, hrecord, hdelete, hnoted, hback, hanew, fun h => ?_,
    fun hperm => by rw [hback hperm]⟩
  by_contra hperm
  obtain ⟨later, hlater, hsupersedes⟩ := hanew hperm
  rw [hlater] at h
  exact hsupersedes.ne h

/-- A derived clause that repeats a literal, after an identifier was given to a derived clause and
then to a premise. -/
def repeatingProof : Proof :=
  run {} [.premise 1 false [1, 2, 2] false, .premise 2 false [-1, 2] false,
    .derived 3 true [2, 2] [2, 1], .delete 3, .premise 3 false [4] false,
    .derived 4 false [2, -4, 2] [2, 1]]

theorem restore_removed_repeatingProof :
    repeatingProof.Reachable ∧ repeatingProof.size < capacity ∧
      repeatingProof.concluded = false ∧ repeatingProof.activeKey? 4 = some 4 ∧
      (∀ l ∈ ([2, 2, -4] : Clause), l.Proper) ∧ (∀ l ∈ ([2, -4] : Clause), l.Proper) ∧
      ∃ record q, repeatingProof.record? 4 = some record ∧ record.clause = [2, -4, 2] ∧
        repeatingProof.delete 4 = (.ok 4, q) ∧
        q.addPremise 4 true [2, 2, -4] true = (.ok 4, repeatingProof) ∧
        ∃ later, q.addPremise 4 true [2, -4] true = (.ok 5, later) ∧
          repeatingProof.Supersedes 4 4 record (.premise 4 true [2, -4]) later := by
  have hp : repeatingProof.Reachable := Reachable.start.run _
  have hsize : repeatingProof.size < capacity := by decide
  have hopen : repeatingProof.concluded = false := by decide
  have hid : repeatingProof.activeKey? 4 = some 4 := by decide
  have hproper : ∀ l ∈ ([2, 2, -4] : Clause), l.Proper := by decide
  have hproper' : ∀ l ∈ ([2, -4] : Clause), l.Proper := by decide
  have hfound : repeatingProof.record? 4 = some (.derived 4 false [2, -4, 2] [1, 0]) := by decide
  obtain ⟨record, q, hrecord, hdelete, -, hback, -, -⟩ :=
    restore_removed hp hsize hopen hid hproper true
  obtain ⟨record', q', hrecord', hdelete', -, -, hanew, -⟩ :=
    restore_removed hp hsize hopen hid hproper' true
  obtain rfl : q = q' := congrArg Prod.snd (hdelete.symm.trans hdelete')
  obtain rfl := Option.some.inj (hfound.symm.trans hrecord)
  obtain rfl := Option.some.inj (hfound.symm.trans hrecord')
  have hperm : ([2, -4, 2] : Clause).Perm [2, 2, -4] := by decide
  have hother : ¬ ([2, -4, 2] : Clause).Perm [2, -4] := by decide
  exact ⟨hp, hsize, hopen, hid, hproper, hproper', _, q, hfound, rfl, hdelete, hback hperm,
    hanew hother⟩

end Proof
end Interpolation
