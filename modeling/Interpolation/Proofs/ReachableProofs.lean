import Interpolation.Cone
import Interpolation.Proofs.Operations

/-!
# The proofs that recording can reach

Whatever operations are tried on a proof, in whatever order, accepted or refused,
each does one of a few things to it: nothing, or a new record with the maps
brought up to date, or a record marked active or inactive, or a conclusion.
`Change` lists them, each with what was checked before it was done, and every
operation is one of them (`change_apply`).

From that list follows what every reachable proof is like (`WellFormed`).  Two of
its parts carry the construction of interpolants.  Keys are positions and a record
is made after the records that it refers to, so derivations go down in keys; and
no literal is zero, since a clause is looked at before it is recorded.

* `change_apply` --- what an operation can do;
* `Reachable.wellFormed` --- what every reachable proof is like.
-/

namespace Interpolation

namespace Proof

/-- The proofs that operations can reach. -/
inductive Reachable : Proof → Prop
  /-- Nothing is recorded at first. -/
  | start : Reachable {}
  /-- Any operation may follow. -/
  | step {p : Proof} (operation : Operation) : Reachable p → Reachable (operation.apply p)

/-- The proof after a list of operations. -/
def run (p : Proof) (operations : List Operation) : Proof :=
  operations.foldl (fun q operation => operation.apply q) p

theorem Reachable.run {p : Proof} (h : Reachable p) (operations : List Operation) :
    Reachable (p.run operations) := by
  induction operations generalizing p with
  | nil => exact h
  | cons operation rest ih => exact ih (h.step operation)

/-- Whether a record may be made of a clause with an identifier: the clause has
proper literals, and a derived one comes from active clauses. -/
structure Enterable (p : Proof) (id : Nat) (record : Record) : Prop where
  /-- The record is that of the identifier, and active. -/
  named : record.id = some id ∧ record.active = true
  /-- The literals are proper. -/
  proper : ∀ l ∈ record.clause, l.Proper
  /-- What a derived clause refers to is active, and a premise refers to nothing. -/
  source : (record.source = .premise ∧ record.antecedents = []) ∨
    (record.source = .derived ∧ ∃ ids, p.resolveIds ids = .ok record.antecedents)

/-- What one operation can do to a proof. -/
inductive Change (p : Proof) : Proof → Prop
  /-- Nothing is changed. -/
  | kept : Change p p
  /-- The first identifier is noted. -/
  | begun (firstId : Nat) : p.firstId = none → Change p { p with firstId := some firstId }
  /-- There is no room for a record, and its identifier is no longer a deleted one. -/
  | full (id : Nat) : p.concluded = false → p.activeKey? id = none → ¬ p.size < capacity →
      Change p { p with deleted := p.deleted.erase id }
  /-- A record is made. -/
  | entered (id : Nat) (record : Record) : p.concluded = false → p.activeKey? id = none →
      p.size < capacity → p.Enterable id record →
      Change p { p with
        records := p.records.push record
        active := p.active.insert id p.size
        deleted := p.deleted.erase id }
  /-- A deleted record is made active again. -/
  | revived (id key : Nat) (clause : Clause) : p.concluded = false → p.activeKey? id = none →
      p.revivable? id clause = some key → Change p (p.revive id key)
  /-- A record is made inactive. -/
  | removed (id key : Nat) : p.activeKey? id = some key →
      Change p { p.mark key false with
        active := p.active.erase id
        deleted := p.deleted.insert id key }
  /-- The formula is refuted, and it is not said how. -/
  | unwitnessed : p.concluded = false →
      Change p { p with refutation := some ⟨.conflict, [], none⟩ }
  /-- The formula is refuted by an empty clause on record. -/
  | witnessed (chain : List Nat) (key : Nat) (record : Record) : p.concluded = false →
      p.resolveIds chain = .ok [key] → p.record? key = some record → record.clause = [] →
      Change p { p with refutation := some ⟨.conflict, chain, some key⟩ }
  /-- The formula is refuted by an empty clause that is recorded for the purpose. -/
  | derived (chain keys : List Nat) : p.concluded = false → p.resolveIds chain = .ok keys →
      keys ≠ [] → p.size < capacity →
      Change p { p with
        records := p.records.push (.unnamed keys)
        refutation := some ⟨.conflict, chain, some p.size⟩ }
  /-- There is no model relative to something else. -/
  | relative (conclusion : Conclusion) (chain keys : List Nat) : conclusion ≠ .conflict →
      p.concluded = false → p.resolveIds chain = .ok keys →
      Change p { p with refutation := some ⟨conclusion, chain, none⟩ }
  /-- A relative conclusion is withdrawn. -/
  | withdrawn : p.concluded = false → Change p { p with refutation := none }
  /-- Everything is released. -/
  | reset : Change p {}

/-! ## Every operation is one of the changes -/

/-- Every outcome of an operation is one of the changes. -/
theorem change_of_outcome {p : Proof} {operation : Operation}
    {result : Except ProofError (Option Nat) × Proof} (h : operation.Outcome p result) :
    Change p result.2 := by
  cases h with
  | refused => exact .kept
  | full id _ hopen hid hfull => exact .full id hopen hid hfull
  | begun firstId hfirst => exact .begun firstId hfirst
  | kept => exact .kept
  | revived id redundant clause key hopen _ hid hkey => exact .revived id key clause hopen hid hkey
  | premise id redundant clause restored hopen hproper hid _ hsize =>
    exact .entered id _ hopen hid hsize ⟨⟨rfl, rfl⟩, hproper, Or.inl ⟨rfl, rfl⟩⟩
  | derived id redundant clause ids keys hopen hproper hid hkeys hsize =>
    exact .entered id _ hopen hid hsize ⟨⟨rfl, rfl⟩, hproper, Or.inr ⟨rfl, ids, hkeys⟩⟩
  | deleted id key hid => exact .removed id key hid
  | relative conclusion chain keys hconclusion hopen hkeys =>
    exact .relative conclusion chain keys hconclusion hopen hkeys
  | unwitnessed hopen => exact .unwitnessed hopen
  | witnessed chain key record hopen hkeys hrecord hclause =>
    exact .witnessed chain key record hopen hkeys hrecord hclause
  | concluded chain keys hopen hkeys hne hsize => exact .derived chain keys hopen hkeys hne hsize
  | withdrawn hopen => exact .withdrawn hopen
  | reset => exact .reset

/-- **Whatever an operation does is one of the changes.** -/
theorem change_apply (p : Proof) (operation : Operation) : Change p (operation.apply p) := by
  rw [← Operation.snd_attempt]
  exact change_of_outcome (Operation.outcome_attempt p operation)

/-! ## What every reachable proof is like -/

end Proof

/-- Whether two records agree in everything but whether the clause is active. -/
structure Record.Agrees (r s : Record) : Prop where
  /-- The identifier is the same. -/
  id : s.id = r.id
  /-- The literals are the same, in the same order. -/
  clause : s.clause = r.clause
  /-- The solver may forget both clauses at will, or neither. -/
  redundant : s.redundant = r.redundant
  /-- The clause comes from the same source. -/
  source : s.source = r.source
  /-- The antecedents are the same, in the same order. -/
  antecedents : s.antecedents = r.antecedents

namespace Proof

theorem lt_size_of_record? {p : Proof} {key : Nat} {record : Record}
    (h : p.record? key = some record) : key < p.size :=
  (Array.getElem?_eq_some_iff.mp h).1

theorem record?_push (p : Proof) (record : Record) (key : Nat) :
    { p with records := p.records.push record }.record? key =
      if key = p.size then some record else p.record? key :=
  Array.getElem?_push

/-- A record that is marked keeps all that was recorded of its clause. -/
theorem record?_mark (p : Proof) (k : Nat) (active : Bool) (key : Nat) :
    (p.mark k active).record? key =
      (p.record? key).map fun record => if k = key then { record with active } else record := by
  show (p.records.modify k _)[key]? = _
  rw [Array.getElem?_modify]
  split
  · rfl
  · exact Option.map_id'.symm

theorem record?_of_mark {p : Proof} {k key : Nat} {active : Bool} {record : Record}
    (h : (p.mark k active).record? key = some record) :
    ∃ former, p.record? key = some former ∧ former.Agrees record := by
  rw [record?_mark, Option.map_eq_some_iff] at h
  obtain ⟨former, hformer, rfl⟩ := h
  refine ⟨former, hformer, ?_⟩
  split <;> exact ⟨rfl, rfl, rfl, rfl, rfl⟩

/-- What holds of a proof however it was recorded. -/
structure WellFormed (p : Proof) : Prop where
  /-- A record refers only to records made before it. -/
  descends : ∀ {key record}, p.record? key = some record → ∀ k ∈ record.antecedents, k < key
  /-- The literals on record are proper. -/
  proper : ∀ {key record}, p.record? key = some record → ∀ l ∈ record.clause, l.Proper
  /-- Active clauses are on record. -/
  active : ∀ {id key}, p.activeKey? id = some key → key < p.size
  /-- Deleted clauses are on record. -/
  deleted : ∀ {id key}, p.deleted.find? id = some key → key < p.size
  /-- The witness of a refutation is an empty clause on record. -/
  empty : ∀ {r key}, p.refutation = some r → r.witness = some key →
    ∃ record, p.record? key = some record ∧ record.clause = []
  /-- A refutation of the formula that names clauses has a witness. -/
  witnessed : ∀ {r}, p.refutation = some r → r.conclusion = .conflict → r.chain ≠ [] →
    ∃ key, r.witness = some key

namespace WellFormed

variable {p : Proof}

theorem initial : WellFormed {} where
  descends h := absurd (lt_size_of_record? h) (Nat.not_lt_zero _)
  proper h := absurd (lt_size_of_record? h) (Nat.not_lt_zero _)
  active h := nomatch h
  deleted h := nomatch h
  empty h := nomatch h
  witnessed h := nomatch h

/-- A record may be added when it refers to what is on record already. -/
theorem push (hp : p.WellFormed) (record : Record) (hbelow : ∀ k ∈ record.antecedents, k < p.size)
    (hproper : ∀ l ∈ record.clause, l.Proper) :
    WellFormed { p with records := p.records.push record } := by
  have hsize : p.records.size < (p.records.push record).size := by
    rw [Array.size_push]
    exact Nat.lt_succ_self _
  refine ⟨?_, ?_, ?_, ?_, ?_, hp.witnessed⟩
  · intro key r h
    rw [record?_push] at h
    split at h
    · obtain rfl : record = r := Option.some.inj h
      rename_i hkey
      rwa [hkey]
    · exact hp.descends h
  · intro key r h
    rw [record?_push] at h
    split at h
    · obtain rfl : record = r := Option.some.inj h
      exact hproper
    · exact hp.proper h
  · intro id key h
    exact Nat.lt_trans (hp.active h) hsize
  · intro id key h
    exact Nat.lt_trans (hp.deleted h) hsize
  · intro r key hr hkey
    obtain ⟨record', hrecord', hempty⟩ := hp.empty hr hkey
    refine ⟨record', ?_, hempty⟩
    rw [record?_push, if_neg (Nat.ne_of_lt (lt_size_of_record? hrecord'))]
    exact hrecord'

theorem mark (hp : p.WellFormed) (k : Nat) (active : Bool) : (p.mark k active).WellFormed := by
  have hsize : (p.mark k active).size = p.size := Array.size_modify
  refine ⟨?_, ?_, ?_, ?_, ?_, hp.witnessed⟩
  · intro key record h
    obtain ⟨former, hformer, hagrees⟩ := record?_of_mark h
    rw [hagrees.antecedents]
    exact hp.descends hformer
  · intro key record h
    obtain ⟨former, hformer, hagrees⟩ := record?_of_mark h
    rw [hagrees.clause]
    exact hp.proper hformer
  · intro id key h
    rw [hsize]
    exact hp.active h
  · intro id key h
    rw [hsize]
    exact hp.deleted h
  · intro r key hr hkey
    obtain ⟨record, hrecord, hempty⟩ := hp.empty hr hkey
    refine ⟨_, by rw [record?_mark, hrecord, Option.map_some], ?_⟩
    split <;> exact hempty

theorem insertActive (hp : p.WellFormed) (id : Nat) {key : Nat} (hkey : key < p.size) :
    WellFormed { p with active := p.active.insert id key } := by
  refine { hp with active := ?_ }
  intro id' key' h
  simp only [activeKey?, NatMap.find?_insert] at h
  split at h
  · obtain rfl : key = key' := Option.some.inj h
    exact hkey
  · exact hp.active h

theorem eraseActive (hp : p.WellFormed) (id : Nat) :
    WellFormed { p with active := p.active.erase id } := by
  refine { hp with active := ?_ }
  intro id' key' h
  simp only [activeKey?, NatMap.find?_erase] at h
  split at h
  · exact absurd h (by simp)
  · exact hp.active h

theorem insertDeleted (hp : p.WellFormed) (id : Nat) {key : Nat} (hkey : key < p.size) :
    WellFormed { p with deleted := p.deleted.insert id key } := by
  refine { hp with deleted := ?_ }
  intro id' key' h
  simp only [NatMap.find?_insert] at h
  split at h
  · obtain rfl : key = key' := Option.some.inj h
    exact hkey
  · exact hp.deleted h

theorem eraseDeleted (hp : p.WellFormed) (id : Nat) :
    WellFormed { p with deleted := p.deleted.erase id } := by
  refine { hp with deleted := ?_ }
  intro id' key' h
  simp only [NatMap.find?_erase] at h
  split at h
  · exact absurd h (by simp)
  · exact hp.deleted h

end WellFormed

/-- What is referred to is on record. -/
theorem WellFormed.resolved {p : Proof} (hp : p.WellFormed) {ids keys : List Nat}
    (h : p.resolveIds ids = .ok keys) : ∀ k ∈ keys, k < p.size := by
  intro k hk
  have hmem : some k ∈ ids.map p.activeKey? := by
    rw [resolveIds_eq_ok_iff.mp h]
    exact List.mem_map_of_mem hk
  obtain ⟨id, -, hid⟩ := List.mem_map.mp hmem
  exact hp.active hid

/-- What a record may be entered with is on record. -/
theorem WellFormed.enterable {p : Proof} (hp : p.WellFormed) {id : Nat} {record : Record}
    (h : p.Enterable id record) : ∀ k ∈ record.antecedents, k < p.size := by
  rcases h.source with ⟨-, hnone⟩ | ⟨-, ids, hids⟩
  · rw [hnone]
    exact List.forall_mem_nil _
  · exact hp.resolved hids

/-- A proof is well formed after a change. -/
theorem WellFormed.change {p q : Proof} (hp : p.WellFormed) (h : p.Change q) : q.WellFormed := by
  cases h with
  | kept => exact hp
  | begun firstId => exact { hp with }
  | full id => exact hp.eraseDeleted id
  | entered id record hopen hid hsize hrecord =>
    have hpush := hp.push record (hp.enterable hrecord) hrecord.proper
    refine (hpush.insertActive id ?_).eraseDeleted id
    show p.records.size < (p.records.push record).size
    rw [Array.size_push]
    exact Nat.lt_succ_self _
  | revived id key clause hopen hid hkey =>
    have hlt : key < p.size := hp.deleted (Option.eq_some_of_filter_eq_some hkey)
    refine ((hp.mark key true).insertActive id ?_).eraseDeleted id
    exact Nat.lt_of_lt_of_eq hlt Array.size_modify.symm
  | removed id key hkey =>
    refine ((hp.mark key false).eraseActive id).insertDeleted id ?_
    exact Nat.lt_of_lt_of_eq (hp.active hkey) Array.size_modify.symm
  | unwitnessed hopen =>
    refine { hp with empty := ?_, witnessed := ?_ }
    · rintro r key hr hkey
      obtain rfl : _ = r := Option.some.inj hr
      exact absurd hkey (by simp)
    · rintro r hr - hchain
      obtain rfl : _ = r := Option.some.inj hr
      exact absurd rfl hchain
  | witnessed chain key record hopen hchain hrecord hempty =>
    refine { hp with empty := ?_, witnessed := ?_ }
    · rintro r k hr hk
      obtain rfl : _ = r := Option.some.inj hr
      obtain rfl : key = k := Option.some.inj hk
      exact ⟨record, hrecord, hempty⟩
    · rintro r hr - -
      obtain rfl : _ = r := Option.some.inj hr
      exact ⟨key, rfl⟩
  | derived chain keys hopen hchain hne hsize =>
    have hpush := hp.push (.unnamed keys) (hp.resolved hchain) (List.forall_mem_nil _)
    refine { hpush with empty := ?_, witnessed := ?_ }
    · rintro r k hr hk
      obtain rfl : _ = r := Option.some.inj hr
      obtain rfl : p.size = k := Option.some.inj hk
      refine ⟨.unnamed keys, ?_, rfl⟩
      exact (record?_push p (.unnamed keys) p.size).trans (if_pos rfl)
    · rintro r hr - -
      obtain rfl : _ = r := Option.some.inj hr
      exact ⟨p.size, rfl⟩
  | relative conclusion chain keys hconclusion hopen hchain =>
    refine { hp with empty := ?_, witnessed := ?_ }
    · rintro r key hr hkey
      obtain rfl : _ = r := Option.some.inj hr
      exact absurd hkey (by simp)
    · rintro r hr hconflict -
      obtain rfl : _ = r := Option.some.inj hr
      exact absurd hconflict hconclusion
  | withdrawn hopen =>
    exact { hp with empty := (nomatch ·), witnessed := (nomatch ·) }
  | reset => exact initial

/-- **Every reachable proof is well formed.** -/
theorem Reachable.wellFormed {p : Proof} (h : Reachable p) : p.WellFormed := by
  induction h with
  | start => exact .initial
  | step operation _ ih => exact ih.change (change_apply _ operation)

/-- Derivations go down in keys. -/
theorem WellFormed.descends_antecedentsAt {p : Proof} (hp : p.WellFormed) :
    Descends p.antecedentsAt := by
  intro key k hk
  unfold antecedentsAt at hk
  cases hrecord : p.record? key with
  | none =>
    rw [hrecord] at hk
    exact absurd hk List.not_mem_nil
  | some record =>
    rw [hrecord] at hk
    exact hp.descends hrecord k hk

end Proof
end Interpolation
