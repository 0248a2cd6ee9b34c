import Interpolation.Proofs.ReachableProofs
import Mathlib.Data.List.Nodup
import Mathlib.Data.Nat.Find

/-!
# The maps of a proof and its records

A proof says in several places what has become of a clause.  The record has a flag; the
map of active clauses sends the clause's identifier to the record, or else the map of
deleted clauses does; and the refutation names the one record that has no identifier.
Each operation brings these up to date one at a time, and identifiers come back for
clauses that have nothing to do with one another, so what one place says could drift away
from what another says.  It does not.

What keeps them together is a single fact about identifiers: looking one up, among the
active clauses first and the deleted ones after that, finds the last record made with it
(`Indexed.latest`).  Bringing a record back or deleting it leaves every look-up as it was,
and making a record changes the look-up of its own identifier alone; the flags then follow
because no two identifiers are looked up at one record.

Only a proof with every key in use is exempt: there a clause that is refused for want of
room still takes its identifier away from the deleted ones.

* `Reachable.traced` --- what is found under an identifier is the last record made with it, with
  or without a key to spare;
* `Findable.outcome` --- an identifier leads to a record unless a clause with it is refused for
  want of room;
* `Indexed.change` --- what one operation preserves;
* `Indexed.activeCount_eq` --- as many identifiers are active as records are flagged;
* `Reachable.coherent` --- what holds of every proof with a key to spare.
-/

namespace Interpolation
namespace Proof

/-! ## Identifiers on record -/

/-- The identifier in the record at a key. -/
def idAt? (p : Proof) (key : Nat) : Option Nat := (p.record? key).bind Record.id

/-- Whether the record at a key has an identifier, and is the last one made with it. -/
def Newest (p : Proof) (id key : Nat) : Prop :=
  p.idAt? key = some id ∧ ∀ k, p.idAt? k = some id → k ≤ key

variable {p q : Proof} {id key : Nat} {record : Record}

theorem idAt?_eq_some_iff :
    p.idAt? key = some id ↔ ∃ record, p.record? key = some record ∧ record.id = some id :=
  Option.bind_eq_some_iff

theorem lt_size_of_idAt? (h : p.idAt? key = some id) : key < p.size := by
  obtain ⟨record, hrecord, -⟩ := idAt?_eq_some_iff.mp h
  exact lt_size_of_record? hrecord

theorem idAt?_push (p : Proof) (record : Record) (key : Nat) :
    { p with records := p.records.push record }.idAt? key =
      if key = p.size then record.id else p.idAt? key := by
  unfold idAt?
  rw [record?_push]
  split <;> rfl

/-- A record of the longer proof is the new one or one of those before it. -/
theorem record?_push_cases {made : Record}
    (h : { p with records := p.records.push made }.record? key = some record) :
    key = p.size ∧ record = made ∨ key < p.size ∧ p.record? key = some record := by
  rw [record?_push] at h
  split at h
  · rename_i hkey
    exact Or.inl ⟨hkey, (Option.some.inj h).symm⟩
  · exact Or.inr ⟨lt_size_of_record? h, h⟩

@[simp] theorem idAt?_mark (p : Proof) (k : Nat) (active : Bool) (key : Nat) :
    (p.mark k active).idAt? key = p.idAt? key := by
  unfold idAt?
  rw [record?_mark]
  cases p.record? key with
  | none => rfl
  | some record =>
    show Record.id (if k = key then { record with active } else record) = record.id
    split <;> rfl

/-- There is one last record of an identifier. -/
theorem Newest.eq {k : Nat} (h : p.Newest id key) (h' : p.Newest id k) : key = k :=
  Nat.le_antisymm (h'.2 key h.1) (h.2 k h'.1)

/-- An identifier on record has a last record. -/
theorem exists_newest (h : p.idAt? key = some id) : ∃ k, p.Newest id k := by
  have hle : ∀ {k}, p.idAt? k = some id → k ≤ p.size :=
    fun hk => Nat.le_of_lt (lt_size_of_idAt? hk)
  let last : Nat := Nat.findGreatest (fun k => p.idAt? k = some id) p.size
  have hlast : p.idAt? last = some id :=
    Nat.findGreatest_spec (P := fun k => p.idAt? k = some id) (hle h) h
  exact ⟨last, hlast, fun k hk =>
    Nat.le_findGreatest (P := fun k => p.idAt? k = some id) (hle hk) hk⟩

/-- Whether a record is the last one of an identifier depends on the identifiers of the
records and on nothing else. -/
theorem newest_congr (h : ∀ k, q.idAt? k = p.idAt? k) : q.Newest id key ↔ p.Newest id key := by
  simp only [Newest, h]

/-- A new record is the last one of its identifier. -/
theorem newest_push_self (h : record.id = some id) :
    { p with records := p.records.push record }.Newest id key ↔ key = p.size := by
  have hself : { p with records := p.records.push record }.idAt? p.size = some id := by
    rw [idAt?_push, if_pos rfl, h]
  have hle : ∀ k, { p with records := p.records.push record }.idAt? k = some id → k ≤ p.size := by
    intro k hk
    have hlt : k < (p.records.push record).size := lt_size_of_idAt? hk
    rw [Array.size_push] at hlt
    exact Nat.le_of_lt_succ hlt
  constructor
  · exact fun hkey => Nat.le_antisymm (hle key hkey.1) (hkey.2 p.size hself)
  · rintro rfl
    exact ⟨hself, hle⟩

/-- A new record changes nothing for other identifiers. -/
theorem newest_push_of_ne (h : record.id ≠ some id) :
    { p with records := p.records.push record }.Newest id key ↔ p.Newest id key := by
  have hid : ∀ k, { p with records := p.records.push record }.idAt? k = some id ↔
      p.idAt? k = some id := by
    intro k
    rw [idAt?_push]
    split
    · rename_i hk
      refine iff_of_false h fun hk' => ?_
      exact absurd (lt_size_of_idAt? hk') (by omega)
    · exact Iff.rfl
  simp only [Newest, hid]

/-! ## Looking identifiers up -/

/-- A record that is made is found under its identifier, and nothing else is found anew. -/
theorem latestKey?_entered (p : Proof) (id : Nat) (record : Record) (other : Nat) :
    (p.entered id record).latestKey? other =
      if other = id then some p.size else p.latestKey? other := by
  simp only [latestKey?, activeKey?, entered, NatMap.find?_insert, NatMap.find?_erase]
  split
  · exact Option.some_or
  · rfl

/-- To bring a record back changes nothing that is found. -/
theorem latestKey?_revive (hid : p.activeKey? id = none) (hkey : p.deleted.find? id = some key)
    (other : Nat) : (p.revive id key).latestKey? other = p.latestKey? other := by
  simp only [latestKey?, activeKey?, revive, NatMap.find?_insert, NatMap.find?_erase]
  split
  · rename_i heq
    rw [heq, show p.active.find? id = none from hid, hkey]
    rfl
  · rfl

/-- Nor does it to delete one. -/
theorem latestKey?_removed (hid : p.activeKey? id = some key) (other : Nat) :
    (p.removed id key).latestKey? other = p.latestKey? other := by
  simp only [latestKey?, activeKey?, removed, NatMap.find?_insert, NatMap.find?_erase]
  split
  · rename_i heq
    rw [heq, show p.active.find? id = some key from hid]
    rfl
  · rfl

/-- Whether what is found under an identifier, if anything is, is the last record made with it. -/
def Traced (p : Proof) : Prop := ∀ id key, p.latestKey? id = some key → p.Newest id key

/-- Where the same is found under every identifier, and the identifiers on record are the same,
it is found as rightly. -/
theorem Traced.congr (hp : p.Traced) (hlatest : ∀ id, q.latestKey? id = p.latestKey? id)
    (hid : ∀ key, q.idAt? key = p.idAt? key) : q.Traced := by
  intro id key h
  rw [hlatest] at h
  exact (newest_congr hid).mpr (hp id key h)

/-- **What is found under an identifier stays the last record made with it,** even when there is
no key to spare. -/
theorem Traced.change (hp : p.Traced) (h : p.Change q) : q.Traced := by
  cases h with
  | full id _ hid =>
    intro other key h
    by_cases heq : other = id
    · rw [heq, latestKey?] at h
      simp only [activeKey?] at h hid
      rw [hid, NatMap.find?_erase_self] at h
      exact absurd h (by simp)
    · refine hp other key ?_
      simp only [latestKey?, activeKey?] at h ⊢
      rwa [NatMap.find?_erase, if_neg heq] at h
  | entered id record _ _ _ hrecord =>
    intro other key (h : (p.entered id record).latestKey? other = some key)
    rw [latestKey?_entered] at h
    split at h
    · rename_i heq
      exact (newest_push_self (heq ▸ hrecord.named.1)).mpr (Option.some.inj h).symm
    · rename_i hne
      refine (newest_push_of_ne ?_).mpr (hp other key h)
      rw [hrecord.named.1]
      exact fun heq => hne (Option.some.inj heq).symm
  | revived id key clause _ hid hkey =>
    have hdeleted : p.deleted.find? id = some key := Option.eq_some_of_filter_eq_some hkey
    exact hp.congr (latestKey?_revive hid hdeleted) (idAt?_mark p key true)
  | removed id key hkey => exact hp.congr (latestKey?_removed hkey) (idAt?_mark p key false)
  | derived chain keys =>
    intro id key h
    exact (newest_push_of_ne (Option.some_ne_none _).symm).mpr (hp id key h)
  | reset => exact fun id key h => absurd h.symm (Option.some_ne_none key)
  | kept | begun | unwitnessed | witnessed | relative | withdrawn => exact hp

theorem Reachable.traced (h : p.Reachable) : p.Traced := by
  induction h with
  | start => exact fun id key h => absurd h.symm (Option.some_ne_none key)
  | step operation _ ih => exact ih.change (change_apply _ operation)

/-- Whether an identifier leads to a record, if any was made with it. -/
def Findable (p : Proof) (id : Nat) : Prop :=
  ∀ key, p.idAt? key = some id → ∃ k, p.latestKey? id = some k

theorem findable_initial (id : Nat) : Findable {} id := fun _ hkey =>
  absurd (lt_size_of_idAt? hkey) (Nat.not_lt_zero _)

theorem Findable.congr (hp : p.Findable id)
    (hlatest : ∀ other, q.latestKey? other = p.latestKey? other)
    (hid : ∀ key, q.idAt? key = p.idAt? key) : q.Findable id := by
  intro key hkey
  rw [hid] at hkey
  rw [hlatest]
  exact hp key hkey

/-- **An identifier leads to a record until a clause with it is refused for want of room.** -/
theorem Findable.outcome {operation : Operation} {result : Except ProofError (Option Nat) × Proof}
    (hp : p.Findable id) (h : operation.Outcome p result)
    (hroom : result.1 = .error .storageExhausted → operation.newId? ≠ some id) :
    result.2.Findable id := by
  have hentered (other : Nat) {record : Record} (hrecord : record.id = some other) :
      (p.entered other record).Findable id := by
    intro key (hkey : { p with records := p.records.push record }.idAt? key = some id)
    rw [latestKey?_entered]
    by_cases heq : id = other
    · exact ⟨p.size, if_pos heq⟩
    · rw [idAt?_push, hrecord] at hkey
      rw [if_neg heq]
      split at hkey
      · exact absurd (Option.some.inj hkey).symm heq
      · exact hp key hkey
  cases h with
  | full other hother =>
    -- it is another identifier that is forgotten
    have hne : id ≠ other := fun heq => hroom rfl (heq ▸ hother)
    intro key hkey
    obtain ⟨k, hk⟩ := hp key hkey
    refine ⟨k, ?_⟩
    rw [← hk, latestKey?, latestKey?]
    simp only [activeKey?, NatMap.find?_erase, if_neg hne]
  | revived other redundant clause key _ _ hid hkey =>
    have hdeleted : p.deleted.find? other = some key := Option.eq_some_of_filter_eq_some hkey
    exact hp.congr (latestKey?_revive hid hdeleted) (idAt?_mark p key true)
  | deleted other key hid => exact hp.congr (latestKey?_removed hid) (idAt?_mark p key false)
  | premise other => exact hentered other rfl
  | derived other => exact hentered other rfl
  | concluded chain keys =>
    intro key (hkey : { p with records := p.records.push (.unnamed keys) }.idAt? key = some id)
    rw [idAt?_push] at hkey
    split at hkey
    · exact absurd hkey.symm (Option.some_ne_none id)
    · exact hp key hkey
  | reset => exact findable_initial id
  | refused | begun | kept | relative | unwitnessed | witnessed | withdrawn => exact hp

/-! ## What ties maps and records together -/

/-- What one operation preserves of the agreement between the maps and the records. -/
structure Indexed (p : Proof) : Prop where
  /-- No identifier is among the active ones and the deleted ones at once. -/
  disjoint : ∀ id, p.activeKey? id = none ∨ p.deleted.find? id = none
  /-- What is found under an identifier is the last record made with it. -/
  latest : ∀ {id key}, p.latestKey? id = some key ↔ p.Newest id key
  /-- A record is flagged when it is that of an active clause. -/
  flagged : ∀ {key record}, p.record? key = some record →
    (record.active = true ↔ ∃ id, p.activeKey? id = some key)
  /-- Premises are derived from nothing. -/
  premise : ∀ {key record}, p.record? key = some record → record.source = .premise →
    record.antecedents = []
  /-- A record without an identifier is the witness of a refutation of the formula. -/
  unnamed : ∀ {key record}, p.record? key = some record → record.id = none →
    ∃ r, p.refutation = some r ∧ r.conclusion = .conflict ∧ r.witness = some key

namespace Indexed

theorem initial : Indexed {} where
  disjoint _ := Or.inl rfl
  latest {_ key} := ⟨fun h => absurd h.symm (Option.some_ne_none key),
    fun h => absurd (lt_size_of_idAt? h.1) (Nat.not_lt_zero _)⟩
  flagged h := absurd (lt_size_of_record? h) (Nat.not_lt_zero _)
  premise h := absurd (lt_size_of_record? h) (Nat.not_lt_zero _)
  unnamed h := absurd (lt_size_of_record? h) (Nat.not_lt_zero _)

theorem newest_of_active (hp : p.Indexed) (h : p.activeKey? id = some key) : p.Newest id key :=
  hp.latest.mp (by rw [latestKey?, h, Option.some_or])

theorem findable (hp : p.Indexed) (id : Nat) : p.Findable id := fun _ hid =>
  (exists_newest hid).imp fun _ hk => hp.latest.mpr hk

/-- Different identifiers lead to different records. -/
theorem activeKey?_inj (hp : p.Indexed) {id' : Nat} (h : p.activeKey? id = some key)
    (h' : p.activeKey? id' = some key) : id = id' := by
  have hid := (hp.newest_of_active h).1
  rw [(hp.newest_of_active h').1] at hid
  exact (Option.some.inj hid).symm

/-- As long as the formula has not been refuted, every record has an identifier. -/
theorem id_ne_none (hp : p.Indexed) (hopen : p.concluded = false)
    (h : p.record? key = some record) : record.id ≠ none := by
  intro hid
  obtain ⟨r, hr, hconflict, -⟩ := hp.unnamed h hid
  have hconcluded : p.concluded = true := by
    unfold concluded
    rw [hr]
    exact decide_eq_true hconflict
  rw [hconcluded] at hopen
  exact absurd hopen (by decide)

/-! ## The changes that operations make -/

/-- Nothing but the refutation changes. -/
theorem refute (hp : p.Indexed) (hopen : p.concluded = false) (r : Option Refutation) :
    Indexed { p with refutation := r } :=
  { hp with unnamed := fun h hid => absurd hid (hp.id_ne_none hopen h) }

/-- A record is made, and its identifier becomes active. -/
theorem enter (hp : p.Indexed) (hopen : p.concluded = false)
    (hid : p.activeKey? id = none) (hrecord : p.Enterable id record) :
    Indexed { p with
      records := p.records.push record
      active := p.active.insert id p.size
      deleted := p.deleted.erase id } where
  disjoint id' := by
    simp only [activeKey?, NatMap.find?_insert, NatMap.find?_erase]
    split
    · exact Or.inr rfl
    · exact hp.disjoint id'
  latest {id' key'} := by
    show (p.entered id record).latestKey? id' = some key' ↔ _
    rw [latestKey?_entered]
    split
    · rename_i h
      rw [Option.some_inj, eq_comm]
      exact (newest_push_self (h ▸ hrecord.named.1)).symm
    · rename_i h
      refine hp.latest.trans (newest_push_of_ne ?_).symm
      rw [hrecord.named.1]
      exact fun h' => h (Option.some.inj h').symm
  flagged {key' record'} h := by
    simp only [activeKey?, NatMap.find?_insert]
    rcases record?_push_cases h with ⟨rfl, rfl⟩ | ⟨hlt, hold⟩
    · exact iff_of_true hrecord.named.2 ⟨id, if_pos rfl⟩
    · rw [hp.flagged hold]
      refine exists_congr fun id' => ?_
      split
      · rename_i h
        rw [h, hid]
        refine iff_of_false (Option.some_ne_none key').symm fun hsize => ?_
        have : p.size = key' := Option.some.inj hsize
        omega
      · exact Iff.rfl
  premise {key' record'} h hsource := by
    rcases record?_push_cases h with ⟨-, rfl⟩ | ⟨-, hold⟩
    · rcases hrecord.source with ⟨-, hnone⟩ | ⟨hderived, -⟩
      · exact hnone
      · rw [hderived] at hsource
        exact absurd hsource (by decide)
    · exact hp.premise hold hsource
  unnamed {key' record'} h hnone := by
    rcases record?_push_cases h with ⟨-, rfl⟩ | ⟨-, hold⟩
    · rw [hrecord.named.1] at hnone
      exact absurd hnone (Option.some_ne_none id)
    · exact absurd hnone (hp.id_ne_none hopen hold)

/-- A record is flagged or not, and the two maps exchange its identifier accordingly, so
that what is found under the identifier stays what it was. -/
theorem remark (hp : p.Indexed) (hid : p.latestKey? id = some key) (flag : Bool)
    {active deleted : NatMap Nat}
    (hactive : ∀ id', active.find? id' =
      if id' = id then (if flag then some key else none) else p.activeKey? id')
    (hdeleted : ∀ id', deleted.find? id' =
      if id' = id then (if flag then none else some key) else p.deleted.find? id') :
    Indexed { p.mark key flag with active, deleted } where
  disjoint id' := by
    show active.find? id' = none ∨ deleted.find? id' = none
    rw [hactive, hdeleted]
    split
    · cases flag
      · exact Or.inl rfl
      · exact Or.inr rfl
    · exact hp.disjoint id'
  latest {id' key'} := by
    have hlook : (active.find? id').or (deleted.find? id') = p.latestKey? id' := by
      rw [hactive, hdeleted]
      split
      · rename_i h
        rw [h, hid]
        cases flag <;> rfl
      · rfl
    show (active.find? id').or (deleted.find? id') = some key' ↔ _
    rw [hlook]
    exact hp.latest.trans (newest_congr fun k => idAt?_mark p key flag k).symm
  flagged {key' record'} h := by
    show _ ↔ ∃ id', active.find? id' = some key'
    obtain ⟨former, hformer, rfl⟩ :=
      Option.map_eq_some_iff.mp ((record?_mark p key flag key').symm.trans h)
    have hnewest := hp.latest.mp hid
    by_cases hkey : key = key'
    · subst hkey
      rw [if_pos rfl]
      show flag = true ↔ _
      cases flag with
      | true => exact iff_of_true rfl ⟨id, (hactive id).trans (if_pos rfl)⟩
      | false =>
        refine iff_of_false (by decide) ?_
        rintro ⟨id', h'⟩
        rw [hactive] at h'
        split at h'
        · exact absurd h'.symm (Option.some_ne_none key)
        · rename_i hne
          have hid' := (hp.newest_of_active h').1
          rw [hnewest.1] at hid'
          exact hne (Option.some.inj hid').symm
    · rw [if_neg hkey, hp.flagged hformer]
      refine exists_congr fun id' => ?_
      rw [hactive]
      split
      · rename_i hid'
        subst hid'
        refine iff_of_false (fun h' => hkey (hnewest.eq (hp.newest_of_active h'))) ?_
        cases flag
        · exact (Option.some_ne_none key').symm
        · exact fun h' => hkey (Option.some.inj h')
      · exact Iff.rfl
  premise {key' record'} h hsource := by
    obtain ⟨former, hformer, hagrees⟩ := record?_of_mark (p := p) h
    rw [hagrees.antecedents]
    exact hp.premise hformer (hagrees.source.symm.trans hsource)
  unnamed {key' record'} h hnone := by
    obtain ⟨former, hformer, hagrees⟩ := record?_of_mark (p := p) h
    exact hp.unnamed hformer (hagrees.id.symm.trans hnone)

/-- The empty clause is derived, and is the witness of the refutation from then on. -/
theorem derive (hp : p.Indexed) (hopen : p.concluded = false) (chain keys : List Nat) :
    Indexed { p with
      records := p.records.push (.unnamed keys)
      refutation := some ⟨.conflict, chain, some p.size⟩ } where
  disjoint := hp.disjoint
  latest := hp.latest.trans (newest_push_of_ne (Option.some_ne_none _).symm).symm
  flagged {key' record'} h := by
    rcases record?_push_cases (p := p) h with ⟨rfl, rfl⟩ | ⟨-, hold⟩
    · refine iff_of_false Bool.false_ne_true ?_
      rintro ⟨id, hid⟩
      exact absurd (lt_size_of_idAt? (hp.newest_of_active hid).1) (Nat.lt_irrefl _)
    · exact hp.flagged hold
  premise {key' record'} h hsource := by
    rcases record?_push_cases (p := p) h with ⟨-, rfl⟩ | ⟨-, hold⟩
    · exact absurd hsource (show Source.derived ≠ .premise by decide)
    · exact hp.premise hold hsource
  unnamed {key' record'} h hnone := by
    rcases record?_push_cases (p := p) h with ⟨rfl, -⟩ | ⟨-, hold⟩
    · exact ⟨_, rfl, rfl, rfl⟩
    · exact absurd hnone (hp.id_ne_none hopen hold)

/-- **The maps and the records agree after a change**, as long as there is a key to spare. -/
theorem change (hp : p.Indexed) (h : p.Change q) (hsize : q.size < capacity) : q.Indexed := by
  cases h with
  | kept => exact hp
  | begun firstId hfirst => exact { hp with }
  | full id hopen hid hfull => exact absurd hsize hfull
  | entered id record hopen hid _ hrecord => exact hp.enter hopen hid hrecord
  | revived id key clause hopen hid hkey =>
    have hfound : p.latestKey? id = some key := by
      rw [latestKey?, hid, Option.none_or]
      exact Option.eq_some_of_filter_eq_some hkey
    exact hp.remark hfound true (fun id' => NatMap.find?_insert p.active id id' key)
      fun id' => NatMap.find?_erase p.deleted id id'
  | removed id key hkey =>
    have hfound : p.latestKey? id = some key := by
      rw [latestKey?, hkey, Option.some_or]
    exact hp.remark hfound false (fun id' => NatMap.find?_erase p.active id id')
      fun id' => NatMap.find?_insert p.deleted id id' key
  | unwitnessed hopen => exact hp.refute hopen _
  | witnessed chain key record hopen => exact hp.refute hopen _
  | derived chain keys hopen => exact hp.derive hopen chain keys
  | relative conclusion chain keys _ hopen => exact hp.refute hopen _
  | withdrawn hopen => exact hp.refute hopen _
  | reset => exact initial

end Indexed

/-- A change leaves every record where it is, unless it releases them all. -/
theorem Change.size_le (h : p.Change q) : p.size ≤ q.size ∨ q = {} := by
  cases h with
  | entered => exact Or.inl (by simp [size])
  | revived => exact Or.inl (by simp [size, revive, mark])
  | removed => exact Or.inl (by simp [size, mark])
  | derived => exact Or.inl (by simp [size])
  | reset => exact Or.inr rfl
  | _ => exact Or.inl (Nat.le_refl _)

/-- The maps and the records of every reachable proof agree, as long as there is a key to
spare. -/
theorem Reachable.indexed (h : p.Reachable) (hsize : p.size < capacity) : p.Indexed := by
  induction h with
  | start => exact .initial
  | @step p operation _ ih =>
    have hchange := change_apply p operation
    rcases hchange.size_le with hle | hreset
    · exact (ih (Nat.lt_of_le_of_lt hle hsize)).change hchange hsize
    · rw [hreset]
      exact .initial

/-! ## Counting -/

/-- The keys of the flagged records, in ascending order. -/
def flaggedKeys (p : Proof) : List Nat :=
  (p.records.toList.zipIdx.filter fun entry => entry.1.active).map Prod.snd

theorem mem_flaggedKeys_iff :
    key ∈ p.flaggedKeys ↔ ∃ record, p.record? key = some record ∧ record.active = true := by
  simp only [flaggedKeys, List.mem_map, List.mem_filter, List.mem_zipIdx_iff_getElem?,
    Array.getElem?_toList]
  constructor
  · rintro ⟨⟨record, k⟩, ⟨hrecord, hactive⟩, rfl⟩
    exact ⟨record, hrecord, hactive⟩
  · rintro ⟨record, hrecord, hactive⟩
    exact ⟨(record, key), ⟨hrecord, hactive⟩, rfl⟩

theorem nodup_flaggedKeys (p : Proof) : p.flaggedKeys.Nodup := by
  have hkeys : (p.records.toList.zipIdx.map Prod.snd).Nodup := by
    rw [List.zipIdx_map_snd]
    exact List.nodup_range'
  exact hkeys.sublist (List.filter_sublist.map Prod.snd)

theorem length_flaggedKeys (p : Proof) :
    p.flaggedKeys.length = p.records.countP fun record => record.active := by
  rw [flaggedKeys, List.length_map, ← List.countP_eq_length_filter, ← Array.countP_toList]
  conv_rhs => rw [← List.zipIdx_map_fst 0 p.records.toList, List.countP_map]
  rfl

/-- As many identifiers are active as records are flagged. -/
theorem Indexed.activeCount_eq (hp : p.Indexed) :
    p.activeCount = p.records.countP fun record => record.active := by
  have hnodup : (p.active.entries.map Prod.snd).Nodup := by
    refine List.Nodup.map_on ?_ (p.active.ascending.imp fun hlt heq => ?_)
    · rintro ⟨id, key⟩ hid ⟨id', key'⟩ hid' rfl
      rw [hp.activeKey?_inj (NatMap.mem_entries_iff.mp hid) (NatMap.mem_entries_iff.mp hid')]
    · rw [heq] at hlt
      exact Nat.lt_irrefl _ hlt
  have hmem : ∀ key, key ∈ p.active.entries.map Prod.snd ↔ key ∈ p.flaggedKeys := by
    intro key
    rw [mem_flaggedKeys_iff, List.mem_map]
    constructor
    · rintro ⟨⟨id, k⟩, hid, rfl⟩
      have hkey : p.activeKey? id = some k := NatMap.mem_entries_iff.mp hid
      obtain ⟨record, hrecord, -⟩ := idAt?_eq_some_iff.mp (hp.newest_of_active hkey).1
      exact ⟨record, hrecord, (hp.flagged hrecord).mpr ⟨id, hkey⟩⟩
    · rintro ⟨record, hrecord, hactive⟩
      obtain ⟨id, hid⟩ := (hp.flagged hrecord).mp hactive
      exact ⟨(id, key), NatMap.mem_entries_iff.mpr hid, rfl⟩
  have hperm := (List.perm_ext_iff_of_nodup hnodup (nodup_flaggedKeys p)).mpr hmem
  calc p.activeCount = (p.active.entries.map Prod.snd).length := (List.length_map _).symm
    _ = p.flaggedKeys.length := hperm.length_eq
    _ = p.records.countP fun record => record.active := length_flaggedKeys p

/-! ## The agreement of maps and records -/

/-- That everything a proof says of what has become of its clauses is in agreement. -/
structure Coherent (p : Proof) : Prop where
  /-- No identifier is among the active ones and the deleted ones at once. -/
  disjoint : ∀ id, p.activeKey? id = none ∨ p.deleted.find? id = none
  /-- An identifier with a record is in one of the two maps, and an identifier that is in
  one of them has a record there, the last one made with it. -/
  mapped : ∀ id key, p.activeKey? id = some key ∨ p.deleted.find? id = some key ↔
    p.Newest id key
  /-- The most recent record with an identifier is what it is said to be. -/
  latest : ∀ id key, p.latestKey? id = some key ↔ p.Newest id key
  /-- An identifier without a most recent record has no record. -/
  absent : ∀ id, p.latestKey? id = none ↔ ∀ key record, p.record? key = some record →
    record.id ≠ some id
  /-- A record is flagged just when its identifier is active and leads to it. -/
  flagged : ∀ key record, p.record? key = some record →
    (record.active = true ↔ ∃ id, record.id = some id ∧ p.activeKey? id = some key)
  /-- As many clauses are active as records are flagged. -/
  count : p.activeCount = p.records.countP fun record => record.active
  /-- Premises are derived from nothing. -/
  premise : ∀ key record, p.record? key = some record → record.source = .premise →
    record.antecedents = []
  /-- The literals on record are proper. -/
  proper : ∀ key record, p.record? key = some record → ∀ l ∈ record.clause, l.Proper
  /-- A record without an identifier is inactive, and is the witness of a refutation of the
  formula. -/
  unnamed : ∀ key record, p.record? key = some record → record.id = none →
    record.active = false ∧
      ∃ r, p.refutation = some r ∧ r.conclusion = .conflict ∧ r.witness = some key
  /-- There is at most one record without an identifier. -/
  unnamed_eq : ∀ key record key' record', p.record? key = some record → record.id = none →
    p.record? key' = some record' → record'.id = none → key = key'
  /-- A refutation of the formula that names clauses has an empty clause on record for its
  witness. -/
  witnessed : ∀ r, p.refutation = some r → r.conclusion = .conflict → r.chain ≠ [] →
    ∃ key record, r.witness = some key ∧ p.record? key = some record ∧ record.clause = []

/-- A flag says the same as the identifier of its record. -/
theorem Indexed.active_iff (hp : p.Indexed) (h : p.record? key = some record) :
    record.active = true ↔ ∃ id, record.id = some id ∧ p.activeKey? id = some key := by
  rw [hp.flagged h]
  refine exists_congr fun id => ⟨fun hid => ⟨?_, hid⟩, And.right⟩
  obtain ⟨record', hrecord', hid'⟩ := idAt?_eq_some_iff.mp (hp.newest_of_active hid).1
  obtain rfl : record = record' := Option.some.inj (h.symm.trans hrecord')
  exact hid'

/-- An identifier leads nowhere just when no record was made with it. -/
theorem Indexed.latestKey?_eq_none_iff (hp : p.Indexed) :
    p.latestKey? id = none ↔ ∀ key record, p.record? key = some record → record.id ≠ some id := by
  constructor
  · intro hnone key record hrecord hid
    obtain ⟨k, hk⟩ := hp.findable id key (idAt?_eq_some_iff.mpr ⟨record, hrecord, hid⟩)
    rw [hnone] at hk
    exact absurd hk.symm (Option.some_ne_none k)
  · intro hnone
    cases hlatest : p.latestKey? id with
    | none => rfl
    | some key =>
      obtain ⟨record, hrecord, hid⟩ := idAt?_eq_some_iff.mp (hp.latest.mp hlatest).1
      exact absurd hid (hnone key record hrecord)

/-- Looking an identifier up in both maps is looking in each. -/
theorem Indexed.latestKey?_eq_some_iff (hp : p.Indexed) :
    p.latestKey? id = some key ↔ p.activeKey? id = some key ∨ p.deleted.find? id = some key := by
  rcases hp.disjoint id with h | h
  · rw [latestKey?, h, Option.none_or]
    simp
  · rw [latestKey?, h, Option.or_none]
    simp

/-- **The maps, the flags and the refutation of a proof agree with its records**, whatever
was done to it and in whatever order, as long as there is a key to spare. -/
theorem Reachable.coherent (h : p.Reachable) (hsize : p.size < capacity) : p.Coherent where
  disjoint := (h.indexed hsize).disjoint
  mapped _ _ := (h.indexed hsize).latestKey?_eq_some_iff.symm.trans (h.indexed hsize).latest
  latest _ _ := (h.indexed hsize).latest
  absent _ := (h.indexed hsize).latestKey?_eq_none_iff
  flagged _ _ hrecord := (h.indexed hsize).active_iff hrecord
  count := (h.indexed hsize).activeCount_eq
  premise _ _ := (h.indexed hsize).premise
  proper _ _ := h.wellFormed.proper
  unnamed key record hrecord hnone := by
    refine ⟨?_, (h.indexed hsize).unnamed hrecord hnone⟩
    rw [← Bool.not_eq_true, (h.indexed hsize).active_iff hrecord, hnone]
    rintro ⟨id, hid, -⟩
    exact absurd hid.symm (Option.some_ne_none id)
  unnamed_eq key record key' record' hrecord hnone hrecord' hnone' := by
    obtain ⟨r, hr, -, hkey⟩ := (h.indexed hsize).unnamed hrecord hnone
    obtain ⟨r', hr', -, hkey'⟩ := (h.indexed hsize).unnamed hrecord' hnone'
    obtain rfl : r = r' := Option.some.inj (hr.symm.trans hr')
    exact Option.some.inj (hkey.symm.trans hkey')
  witnessed r hr hconflict hchain := by
    obtain ⟨key, hkey⟩ := h.wellFormed.witnessed hr hconflict hchain
    obtain ⟨record, hrecord, hempty⟩ := h.wellFormed.empty hr hkey
    exact ⟨key, record, hkey, hrecord, hempty⟩

/-- Identifier 1 is deleted and put back twice, the second time with other literals; then it
is deleted once more and given to a derived clause, and two clauses refute the formula. -/
def reusingRun : List Operation :=
  [.premise 1 false [1, 2] false, .delete 1, .premise 1 false [2, 1] true, .delete 1,
    .premise 1 false [1] true, .premise 2 false [-1] false, .derived 3 true [2] [1],
    .delete 1, .derived 1 true [1] [3, 2], .conclude .conflict [1, 2]]

theorem coherent_reusingRun : (run {} reusingRun).Reachable ∧
    (run {} reusingRun).size < capacity ∧ (run {} reusingRun).Coherent :=
  ⟨Reachable.start.run _, by decide, Reachable.coherent (Reachable.start.run _) (by decide)⟩

end Proof
end Interpolation
