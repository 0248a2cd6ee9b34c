import Interpolation.Proofs.RecordMaps
import Mathlib.Data.List.Induction

/-!
# Where records come from

A derivation outlives the clauses that it is about.  They can be deleted, put back, and put
back with other literals, and the solver may give their identifiers to clauses that have
nothing to do with them; a derivation recorded earlier still has to mean what it meant then.
It does, because it refers to records and a record, once made, stays where it is and says
what it said.

Of what an operation does to a proof this needs only what it does to the records, and that
is little (`Operation.Effect`): it leaves them alone, or flags one of them anew, or makes one
more.  A record that is made is given by the operation and by the keys of what the operation
refers to, and those keys are looked up at that moment and never again.

* `Operation.effect_apply` --- what an operation does to the records;
* `Extends.run` --- records stay, up to their flags;
* `exists_operation_of_record?` --- every record was made by one operation of the run;
* `run_keepsAncestry` --- records stay, derivations go down in keys, and what a record refers to
  is what was active under the identifiers given when it was made.
-/

namespace Interpolation

/-! ## What operations make of records -/

namespace Record.Agrees

theorem refl (r : Record) : r.Agrees r := ⟨rfl, rfl, rfl, rfl, rfl⟩

theorem symm {r s : Record} (h : r.Agrees s) : s.Agrees r :=
  ⟨h.id.symm, h.clause.symm, h.redundant.symm, h.source.symm, h.antecedents.symm⟩

theorem trans {r s t : Record} (h : r.Agrees s) (h' : s.Agrees t) : r.Agrees t where
  id := h'.id.trans h.id
  clause := h'.clause.trans h.clause
  redundant := h'.redundant.trans h.redundant
  source := h'.source.trans h.source
  antecedents := h'.antecedents.trans h.antecedents

end Record.Agrees

namespace Operation

/-- What an operation can do to the records of a proof, short of releasing them. -/
inductive Effect (p : Proof) (operation : Operation) : Array Record → Prop
  /-- The records are left alone. -/
  | none : Effect p operation p.records
  /-- A record is flagged as active or not. -/
  | marked (key : Nat) (flag : Bool) : Effect p operation (p.mark key flag).records
  /-- A record is made of what the operation gives and refers to. -/
  | made (keys : List Nat) (record : Record) : p.resolveIds operation.refersTo = .ok keys →
      operation.record? keys = some record → Effect p operation (p.records.push record)

variable {p : Proof} {operation : Operation} {id key : Nat} {record : Record} {keys : List Nat}

/-- Short of releasing them all, an operation does one of three things to the records. -/
theorem Outcome.effect {result : Except ProofError (Option Nat) × Proof}
    (h : Outcome p operation result) (hreset : operation ≠ .reset) :
    Effect p operation result.2.records := by
  cases h with
  | revived id redundant clause key => exact .marked key true
  | premise id redundant clause => exact .made [] (.premise id redundant clause) rfl rfl
  | derived id redundant clause ids keys _ _ _ hkeys =>
    exact .made keys (.derived id redundant clause keys) hkeys rfl
  | deleted id key => exact .marked key false
  | concluded chain keys _ hkeys => exact .made keys (.unnamed keys) hkeys rfl
  | reset => exact absurd rfl hreset
  | refused | full | begun | kept | relative | unwitnessed | witnessed | withdrawn => exact .none

theorem effect_apply (p : Proof) (h : operation ≠ .reset) :
    Effect p operation (operation.apply p).records := by
  rw [← snd_attempt]
  exact (outcome_attempt p operation).effect h

/-- A record that is made refers to what the operation refers to. -/
theorem antecedents_of_record? (hkeys : p.resolveIds operation.refersTo = .ok keys)
    (hrecord : operation.record? keys = some record) : record.antecedents = keys := by
  cases operation with
  | premise id redundant clause restored =>
    obtain rfl : _ = record := Option.some.inj hrecord
    exact Except.ok.inj hkeys
  | derived id redundant clause antecedents =>
    obtain rfl : _ = record := Option.some.inj hrecord
    rfl
  | conclude conclusion chain =>
    cases conclusion with
    | conflict =>
      obtain rfl : _ = record := Option.some.inj hrecord
      rfl
    | assumptions => exact absurd hrecord.symm (Option.some_ne_none record)
    | constraint => exact absurd hrecord.symm (Option.some_ne_none record)
  | «begin» | delete | withdraw | reset => exact absurd hrecord.symm (Option.some_ne_none record)

/-- A record is where it was afterwards, up to its flag. -/
theorem Effect.exists_later {records : Array Record} (h : Effect p operation records)
    (hrecord : p.record? key = some record) :
    ∃ later, records[key]? = some later ∧ record.Agrees later := by
  cases h with
  | none => exact ⟨record, hrecord, .refl record⟩
  | marked k flag =>
    refine ⟨_, (Proof.record?_mark p k flag key).trans (by rw [hrecord, Option.map_some]), ?_⟩
    split <;> exact ⟨rfl, rfl, rfl, rfl, rfl⟩
  | made keys made =>
    have hne : key ≠ p.size := Nat.ne_of_lt (Proof.lt_size_of_record? hrecord)
    exact ⟨record, (Proof.record?_push p made key).trans ((if_neg hne).trans hrecord), .refl record⟩

/-- A record was where it is before, up to its flag, or it has been made. -/
theorem Effect.exists_former {records : Array Record} (h : Effect p operation records)
    (hrecord : records[key]? = some record) :
    (∃ former, p.record? key = some former ∧ former.Agrees record) ∨
      key = p.size ∧ ∃ keys, p.resolveIds operation.refersTo = .ok keys ∧
        operation.record? keys = some record := by
  cases h with
  | none => exact Or.inl ⟨record, hrecord, .refl record⟩
  | marked k flag => exact Or.inl (Proof.record?_of_mark (p := p) hrecord)
  | made keys made hkeys hmade =>
    rcases Proof.record?_push_cases (p := p) hrecord with ⟨hkey, rfl⟩ | ⟨-, hold⟩
    · exact Or.inr ⟨hkey, keys, hkeys, hmade⟩
    · exact Or.inl ⟨record, hold, .refl record⟩

end Operation

namespace Proof

variable {p q : Proof} {operation : Operation} {id key : Nat} {record : Record}
  {operations : List Operation}

/-! ## Records stay -/

/-- Whether every record of one proof is in another at the same key, up to its flag. -/
def Extends (p q : Proof) : Prop :=
  ∀ key record, p.record? key = some record →
    ∃ later, q.record? key = some later ∧ record.Agrees later

namespace Extends

theorem refl (p : Proof) : p.Extends p := fun _ record h => ⟨record, h, .refl record⟩

theorem trans {r : Proof} (h : p.Extends q) (h' : q.Extends r) : p.Extends r := by
  intro key record hrecord
  obtain ⟨later, hlater, hagrees⟩ := h key record hrecord
  obtain ⟨last, hlast, hagrees'⟩ := h' key later hlater
  exact ⟨last, hlast, hagrees.trans hagrees'⟩

/-- A proof that extends another has at least as many records. -/
theorem size_le (h : p.Extends q) : p.size ≤ q.size := by
  by_contra hlt
  have hq : q.size < p.records.size := Nat.lt_of_not_le hlt
  obtain ⟨later, hlater, -⟩ := h _ _ (Array.getElem?_eq_getElem hq)
  exact Nat.lt_irrefl _ (lt_size_of_record? hlater)

/-- A record may be added to both. -/
theorem push (h : p.Extends q) (hsize : q.size = p.size) (record : Record) :
    Extends { p with records := p.records.push record }
      { q with records := q.records.push record } := by
  intro key found hfound
  rw [record?_push, hsize]
  rcases record?_push_cases hfound with ⟨hkey, rfl⟩ | ⟨hlt, hold⟩
  · rw [if_pos hkey]
    exact ⟨found, rfl, .refl found⟩
  · rw [if_neg (Nat.ne_of_lt hlt)]
    exact h key found hold

/-- A record may be flagged anew in the one and not in the other. -/
theorem mark (h : p.Extends q) (k : Nat) (flag : Bool) : (p.mark k flag).Extends q := by
  intro key record hrecord
  obtain ⟨former, hformer, hagrees⟩ := record?_of_mark hrecord
  obtain ⟨later, hlater, hagrees'⟩ := h key former hformer
  exact ⟨later, hlater, hagrees.symm.trans hagrees'⟩

/-- An operation that does not release the records keeps them. -/
theorem apply (h : operation ≠ .reset) : p.Extends (operation.apply p) :=
  fun _ _ hrecord => (Operation.effect_apply p h).exists_later hrecord

/-- A run that does not release the records keeps them. -/
theorem run (h : .reset ∉ operations) : p.Extends (p.run operations) := by
  induction operations generalizing p with
  | nil => exact .refl p
  | cons operation rest ih =>
    obtain ⟨hne, hrest⟩ := List.ne_and_not_mem_of_not_mem_cons h
    exact (apply hne.symm).trans (ih hrest)

end Extends

theorem run_append (p : Proof) (before after : List Operation) :
    p.run (before ++ after) = (p.run before).run after := List.foldl_append

/-! ## Records are made of what is active -/

/-- Whether an identifier is that of an active clause, recorded at a key. -/
def Denotes (p : Proof) (id key : Nat) : Prop :=
  p.activeKey? id = some key ∧
    ∃ record, p.record? key = some record ∧ record.id = some id ∧ record.active = true

theorem Indexed.denotes (hp : p.Indexed) (h : p.activeKey? id = some key) : p.Denotes id key := by
  obtain ⟨record, hrecord, hid⟩ := idAt?_eq_some_iff.mp (hp.newest_of_active h).1
  exact ⟨h, record, hrecord, hid, (hp.flagged hrecord).mpr ⟨id, h⟩⟩

/-- What identifiers are resolved to is what they denote, position by position. -/
theorem Indexed.forall₂_denotes (hp : p.Indexed) {ids keys : List Nat}
    (h : p.resolveIds ids = .ok keys) : List.Forall₂ p.Denotes ids keys := by
  have hmap : List.Forall₂ (· = ·) (ids.map p.activeKey?) (keys.map some) := by
    rw [resolveIds_eq_ok_iff.mp h]
    exact List.forall₂_refl _
  rw [List.forall₂_map_left_iff, List.forall₂_map_right_iff] at hmap
  exact hmap.imp fun _ _ hid => hp.denotes hid

/-- Every record that a run leaves was there before, or one operation of the run made it. -/
theorem exists_operation_of_record? (h : .reset ∉ operations)
    (hrecord : (p.run operations).record? key = some record) :
    (∃ former, p.record? key = some former ∧ former.Agrees record) ∨
      ∃ before operation after, operations = before ++ operation :: after ∧
        key = (p.run before).size ∧
        ∃ keys made, (p.run before).resolveIds operation.refersTo = .ok keys ∧
          operation.record? keys = some made ∧ made.Agrees record := by
  induction operations using List.reverseRecOn generalizing record with
  | nil => exact Or.inl ⟨record, hrecord, .refl record⟩
  | append_singleton before operation ih =>
    rw [run_append] at hrecord
    rw [List.mem_append, not_or] at h
    have hne : operation ≠ .reset := fun heq => h.2 (heq ▸ List.mem_cons_self)
    rcases (Operation.effect_apply _ hne).exists_former hrecord with
      ⟨former, hformer, hagrees⟩ | ⟨hkey, keys, hkeys, hmade⟩
    · rcases ih h.1 hformer with ⟨first, hfirst, hagrees'⟩ |
        ⟨earlier, made', between, rfl, hkey, keys, made, hkeys, hmade, hagrees'⟩
      · exact Or.inl ⟨first, hfirst, hagrees'.trans hagrees⟩
      · refine Or.inr ⟨earlier, made', between ++ [operation], ?_, hkey, keys, made, hkeys, hmade,
          hagrees'.trans hagrees⟩
        rw [List.append_assoc, List.cons_append]
    · exact Or.inr ⟨before, operation, [], rfl, hkey, keys, record, hkeys, hmade, .refl record⟩

/-- That derivations mean at the end of a run what they meant when they were recorded. -/
structure KeepsAncestry (operations : List Operation) : Prop where
  /-- What is on record at any point of the run is there at its end, up to its flag. -/
  stays : ∀ before after, operations = before ++ after →
    (run {} before).Extends (run {} operations)
  /-- Records refer to smaller keys. -/
  descends : ∀ key record, (run {} operations).record? key = some record →
    ∀ k ∈ record.antecedents, k < key
  /-- Every record was made by one operation of the run, at the first key that was free, and
  refers to what the identifiers given to that operation denoted just before it. -/
  made : ∀ key record, (run {} operations).record? key = some record →
    ∃ before operation after, operations = before ++ operation :: after ∧
      (run {} before).size = key ∧
      (∃ made, operation.record? record.antecedents = some made ∧ made.Agrees record) ∧
      List.Forall₂ (run {} before).Denotes operation.refersTo record.antecedents

/-- **Derivations keep their ancestry** in a run that never releases the records. -/
theorem run_keepsAncestry (h : .reset ∉ operations) (hsize : (run {} operations).size < capacity) :
    KeepsAncestry operations := by
  have hextends : ∀ before after, operations = before ++ after →
      (run {} before).Extends (run {} operations) := by
    rintro before after rfl
    rw [run_append]
    exact Extends.run fun hmem => h (List.mem_append_right before hmem)
  refine ⟨hextends, fun key record hrecord => ?_, fun key record hrecord => ?_⟩
  · exact (Reachable.start.run operations).wellFormed.descends hrecord
  · rcases exists_operation_of_record? h hrecord with ⟨former, hformer, -⟩ |
      ⟨before, operation, after, hsplit, hkey, keys, made, hkeys, hmade, hagrees⟩
    · exact absurd (lt_size_of_record? hformer) (Nat.not_lt_zero key)
    · have hantecedents : record.antecedents = keys := by
        rw [hagrees.antecedents, Operation.antecedents_of_record? hkeys hmade]
      have hbefore : (run {} before).size < capacity :=
        Nat.lt_of_le_of_lt (hextends before _ hsplit).size_le hsize
      have hindexed := (Reachable.start.run before).indexed hbefore
      refine ⟨before, operation, after, hsplit, hkey.symm, ⟨made, ?_, hagrees⟩, ?_⟩
      · rw [hantecedents, hmade]
      · rw [hantecedents]
        exact hindexed.forall₂_denotes hkeys

theorem run_keepsAncestry_reusingRun : .reset ∉ reusingRun ∧
    (run {} reusingRun).size < capacity ∧ KeepsAncestry reusingRun := by
  have hreset : .reset ∉ reusingRun := by simp [reusingRun]
  exact ⟨hreset, by decide, run_keepsAncestry hreset (by decide)⟩

end Proof
end Interpolation
