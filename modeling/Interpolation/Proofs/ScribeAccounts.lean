import Interpolation.Proofs.AssumptionClauses
import Interpolation.Proofs.FinalRefutations
import Interpolation.Proofs.RelayAnswers
import Interpolation.Proofs.Restorations
import Interpolation.Proofs.Deletions

/-!
# The accounts of a scribe

A scribe counts the clauses of the formula, the derived clauses and the deletions that it
accepts, and the events that it passes on and that are answered with an error.  What it counts
and what is on record are kept apart, and the one does not say much about the other at once: a
clause that is put back while it is active is counted, and changes nothing; a clause that was
deleted and is put back is counted, and makes no record; and a conclusion can make a record that
is not counted at all.

Here a scribe is followed through a course of events, in which consumers come and go, the
surroundings are changed by others, and everything is released now and then (`Move`).  The
occasions since the last release are remembered, each with the scribe as it was at the time
(`Occasion`), so that it can be said of an event what it was when it came.  Then the books
balance at every point of the course (`Accounts`).

* `Proof.Posted` --- what an accepted event does to what is on record;
* `Relay.forwarded_note`, `Relay.failed_note` --- what any event does to the counts of a relay;
* `Accounts.move` --- every move keeps the books balanced;
* `accounts_run` --- the books balance after any course of moves.
-/

namespace Interpolation

namespace NatMap

variable {α : Type} {m : NatMap α} {k : Nat} {a : α}

theorem length_insertIn {l : List (Nat × α)} (h : findIn k l = none) :
    (insertIn k a l).length = l.length + 1 := by
  induction l with
  | nil => rfl
  | cons d rest ih =>
    have hd : d.1 ≠ k := fun hd => by simp [findIn, hd] at h
    have hrest : findIn k rest = none := by simpa [findIn, hd] using h
    unfold insertIn
    split
    · rfl
    · rw [if_neg (Ne.symm hd), List.length_cons, ih hrest, List.length_cons]

/-- A new key makes a map larger by one. -/
theorem size_insert (h : m.find? k = none) : (m.insert k a).size = m.size + 1 :=
  length_insertIn h

/-- Without one of its keys a map is smaller by one. -/
theorem size_erase (h : m.find? k = some a) : (m.erase k).size + 1 = m.size := by
  rw [← size_insert (a := a) (find?_erase_self m k), insert_erase h]

end NatMap

/-! ## What an event is when it comes -/

namespace Event

/-- Whether an event announces a clause of the formula. -/
def isPremise : Event → Bool
  | premise .. => true
  | _ => false

/-- Whether an event announces a derived clause. -/
def isDerived : Event → Bool
  | derived .. => true
  | _ => false

/-- Whether an event announces a deletion. -/
def isDelete : Event → Bool
  | delete .. => true
  | _ => false

/-- Whether an event puts back a clause with an identifier that is active. -/
def keepsActive (p : Proof) : Event → Bool
  | premise id _ _ true => p.contains id
  | _ => false

/-- Whether an event puts back a clause whose record is made active again for it. -/
def revives (p : Proof) : Event → Bool
  | premise id _ clause true => !p.contains id && (p.revivable? id clause).isSome
  | _ => false

/-- Whether an event announces a clause of the formula that is neither active nor on record to be
made active again. -/
def isNews (p : Proof) (e : Event) : Bool := e.isPremise && !e.keepsActive p && !e.revives p

/-- Whether an event concludes with an empty clause that was never named: from a chain with
members, which is not the identifier of an empty clause. -/
def namesNone (p : Proof) : Event → Bool
  | unsat .conflict [] => false
  | unsat .conflict [id] => !(p.get? id).any fun r => r.clause.isEmpty
  | unsat .conflict _ => true
  | _ => false

end Event

/-! ## What an accepted event does to what is on record -/

namespace Proof

variable {p : Proof}

/-- Whether there is a record without an identifier. -/
def HasUnnamed (p : Proof) : Prop := ∃ key < p.size, p.idAt? key = none

theorem hasUnnamed_push (p : Proof) (record : Record) :
    { p with records := p.records.push record }.HasUnnamed ↔
      p.HasUnnamed ∨ record.id = none := by
  have hsize : { p with records := p.records.push record }.size = p.size + 1 := Array.size_push _
  simp only [HasUnnamed, hsize, idAt?_push]
  constructor
  · rintro ⟨key, hkey, hid⟩
    split at hid
    · exact Or.inr hid
    · exact Or.inl ⟨key, by omega, hid⟩
  · rintro (⟨key, hkey, hid⟩ | hid)
    · exact ⟨key, by omega, by rwa [if_neg (by omega)]⟩
    · exact ⟨p.size, by omega, by rwa [if_pos rfl]⟩

theorem hasUnnamed_mark (p : Proof) (key : Nat) (active : Bool) :
    (p.mark key active).HasUnnamed ↔ p.HasUnnamed := by
  have hsize : (p.mark key active).size = p.size := Array.size_modify
  simp only [HasUnnamed, hsize, idAt?_mark]

/-- What an accepted event makes of what is on record. -/
structure Posted (p : Proof) (e : Event) (q : Proof) : Prop where
  /-- A clause that comes is active from then on, unless it was before, and a clause that is
  deleted no longer is. -/
  active : q.activeCount + e.isDelete.toNat + (e.keepsActive p).toNat =
    p.activeCount + e.isPremise.toNat + e.isDerived.toNat
  /-- A record is made of a derived clause, of a clause of the formula that is news, and of an
  empty clause that was never named. -/
  size : q.size = p.size + e.isDerived.toNat + (e.isNews p).toNat + (e.namesNone p).toNat
  /-- Only the last has no identifier. -/
  unnamed : q.HasUnnamed ↔ p.HasUnnamed ∨ e.namesNone p = true

theorem activeCount_entered {id : Nat} (hid : p.activeKey? id = none) (record : Record) :
    (p.entered id record).activeCount = p.activeCount + 1 := NatMap.size_insert hid

theorem size_entered (p : Proof) (id : Nat) (record : Record) :
    (p.entered id record).size = p.size + 1 := Array.size_push _

theorem hasUnnamed_entered (p : Proof) (id : Nat) {record : Record} (h : record.id = some id) :
    (p.entered id record).HasUnnamed ↔ p.HasUnnamed := by
  refine (hasUnnamed_push p record).trans (or_iff_left ?_)
  simp [h]

theorem posted_premise {id : Nat} {redundant : Bool} {clause : Clause} {restored : Bool}
    {key : Option Nat} {q : Proof}
    (h : Operation.attempt p (.premise id redundant clause restored) = (.ok key, q)) :
    p.Posted (.premise id redundant clause restored) q := by
  have houtcome := Operation.outcome_premise p id redundant clause restored
  rw [h] at houtcome
  cases houtcome with
  | kept id redundant clause key hopen hproper hid =>
    have hcontains : p.contains id = true := contains_eq_true_iff.mpr ⟨key, hid⟩
    exact ⟨by simp [Event.isDelete, Event.keepsActive, Event.isPremise, Event.isDerived, hcontains],
      by simp [Event.isDerived, Event.isNews, Event.keepsActive, hcontains, Event.namesNone],
      by simp [Event.namesNone]⟩
  | revived id redundant clause key hopen hproper hid hrevive =>
    have hcontains : p.contains id = false := contains_eq_false_iff.mpr hid
    refine ⟨?_, ?_, ?_⟩
    · have hcount : (p.revive id key).activeCount = p.activeCount + 1 := NatMap.size_insert hid
      simp [Event.isDelete, Event.keepsActive, Event.isPremise, Event.isDerived, hcontains, hcount]
    · have hsize : (p.revive id key).size = p.size := Array.size_modify
      simp [Event.isDerived, Event.isNews, Event.keepsActive, Event.revives, hcontains, hrevive,
        Event.namesNone, hsize]
    · refine (hasUnnamed_mark p key true).trans ?_
      simp [Event.namesNone]
  | premise id redundant clause restored hopen hproper hid hrevive hsize =>
    have hcontains : p.contains id = false := contains_eq_false_iff.mpr hid
    have hkeeps : (Event.premise id redundant clause restored).keepsActive p = false := by
      cases restored with
      | false => rfl
      | true => exact hcontains
    have hrevives : (Event.premise id redundant clause restored).revives p = false := by
      cases restored with
      | false => rfl
      | true => simp [Event.revives, hrevive rfl]
    refine ⟨?_, ?_, ?_⟩
    · simp [Event.isDelete, Event.isPremise, Event.isDerived, hkeeps, activeCount_entered hid]
    · simp [Event.isDerived, Event.isNews, Event.isPremise, hkeeps, hrevives, Event.namesNone,
        size_entered]
    · refine (hasUnnamed_entered p id rfl).trans ?_
      simp [Event.namesNone]

theorem posted_derived {id : Nat} {redundant : Bool} {clause : Clause} {antecedents : List Nat}
    {key : Option Nat} {q : Proof}
    (h : Operation.attempt p (.derived id redundant clause antecedents) = (.ok key, q)) :
    p.Posted (.derived id redundant clause antecedents) q := by
  have houtcome := Operation.outcome_derived p id redundant clause antecedents
  rw [h] at houtcome
  cases houtcome with
  | derived id redundant clause ids keys hopen hproper hid hkeys hsize =>
    refine ⟨?_, ?_, ?_⟩
    · simp [Event.isDelete, Event.isPremise, Event.isDerived, Event.keepsActive,
        activeCount_entered hid]
    · simp [Event.isDerived, Event.isNews, Event.isPremise, Event.namesNone, size_entered]
    · refine (hasUnnamed_entered p id rfl).trans ?_
      simp [Event.namesNone]

theorem posted_delete {id : Nat} (redundant : Bool) (clause : Clause) {key : Option Nat}
    {q : Proof} (h : Operation.attempt p (.delete id) = (.ok key, q)) :
    p.Posted (.delete id redundant clause) q := by
  have houtcome := Operation.outcome_attempt p (.delete id)
  rw [h] at houtcome
  cases houtcome with
  | deleted id key hid =>
    refine ⟨?_, ?_, ?_⟩
    · have hcount : (p.removed id key).activeCount + 1 = p.activeCount := NatMap.size_erase hid
      simp [Event.isDelete, Event.isPremise, Event.isDerived, Event.keepsActive, hcount]
    · simp [Event.isDerived, Event.isNews, Event.isPremise, Event.namesNone, size_removed]
    · refine (hasUnnamed_mark p key false).trans ?_
      simp [Event.namesNone]

/-- What leaves the records and the active clauses alone is not counted. -/
theorem posted_of_eq {e : Event} {q : Proof} (hactive : q.active = p.active)
    (hrecords : q.records = p.records) (hdelete : e.isDelete = false)
    (hpremise : e.isPremise = false) (hderived : e.isDerived = false)
    (hkeeps : e.keepsActive p = false) (hnone : e.namesNone p = false) : p.Posted e q := by
  have hcount : q.activeCount = p.activeCount := congrArg NatMap.size hactive
  have hsize : q.size = p.size := congrArg Array.size hrecords
  have hunnamed : q.HasUnnamed ↔ p.HasUnnamed := by
    simp only [HasUnnamed, idAt?, record?, size, hrecords]
  refine ⟨?_, ?_, ?_⟩
  · simp [hcount, hdelete, hpremise, hderived, hkeeps]
  · simp [Event.isNews, hsize, hpremise, hderived, hnone]
  · simp [hunnamed, hnone]

theorem posted_begin {firstId : Nat} {key : Option Nat} {q : Proof}
    (h : Operation.attempt p (.begin firstId) = (.ok key, q)) : p.Posted (.begin firstId) q := by
  have houtcome := Operation.outcome_attempt p (.begin firstId)
  rw [h] at houtcome
  cases houtcome with
  | begun => exact posted_of_eq rfl rfl rfl rfl rfl rfl rfl

theorem posted_sat (model : Clause) {key : Option Nat} {q : Proof}
    (h : Operation.attempt p .withdraw = (.ok key, q)) : p.Posted (.sat model) q := by
  have houtcome := Operation.outcome_attempt p .withdraw
  rw [h] at houtcome
  cases houtcome with
  | withdrawn => exact posted_of_eq rfl rfl rfl rfl rfl rfl rfl

/-- **The witness of a conclusion is on record or is a clause that was never named.** -/
theorem witness_eq {chain keys : List Nat} (hkeys : p.resolveIds chain = .ok keys) :
    if (Event.unsat .conflict chain).namesNone p then p.witness keys = witness.derive p keys
    else ∃ key?, p.witness keys = .ok (key?, p) := by
  have hmap := resolveIds_eq_ok_iff.mp hkeys
  match chain, keys with
  | [], [] => exact ⟨none, rfl⟩
  | [id], [key] =>
    have hid : p.activeKey? id = some key := (List.cons.inj hmap).1
    have hempty : ((p.get? id).any fun r => r.clause.isEmpty) = p.isEmptyAt key := by
      rw [get?, hid]
      rfl
    simp only [Event.namesNone, hempty, witness_singleton]
    cases p.isEmptyAt key with
    | false => rfl
    | true => exact ⟨some key, rfl⟩
  | id :: id' :: rest, key :: key' :: others => rfl
  | [], _ :: _ => exact absurd hmap (by simp)
  | _ :: _, [] => exact absurd hmap (by simp)
  | [_], _ :: _ :: _ => exact absurd hmap (by simp)
  | _ :: _ :: _, [_] => exact absurd hmap (by simp)

theorem posted_conflict {chain keys : List Nat} (hopen : p.concluded = false)
    (hkeys : p.resolveIds chain = .ok keys) {key : Option Nat} {q : Proof}
    (h : Operation.attempt p (.conclude .conflict chain) = (.ok key, q)) :
    p.Posted (.unsat .conflict chain) q := by
  have hwitness := witness_eq hkeys
  simp only [Operation.attempt, conclude, checkOpen_eq_ok_iff.mpr hopen, hkeys] at h
  cases hnone : (Event.unsat .conflict chain).namesNone p with
  | false =>
    rw [hnone, if_neg Bool.false_ne_true] at hwitness
    obtain ⟨key?, hkey⟩ := hwitness
    rw [hkey] at h
    obtain rfl := (Prod.mk.inj h).2
    exact posted_of_eq rfl rfl rfl rfl rfl rfl hnone
  | true =>
    rw [hnone, if_pos rfl] at hwitness
    by_cases hsize : p.size < capacity
    · rw [hwitness, witness.derive, store?_of_lt hsize] at h
      obtain rfl := (Prod.mk.inj h).2
      refine ⟨rfl, ?_, ?_⟩
      · rw [hnone]
        exact Array.size_push _
      · refine (hasUnnamed_push p (.unnamed keys)).trans ?_
        simp [hnone, Record.unnamed]
    · rw [hwitness, witness.derive, store?_of_not_lt hsize] at h
      exact absurd (Prod.mk.inj h).1 (by simp [Except.map])

theorem posted_unsat {conclusion : Conclusion} {chain : List Nat} {key : Option Nat} {q : Proof}
    (h : Operation.attempt p (.conclude conclusion chain) = (.ok key, q)) :
    p.Posted (.unsat conclusion chain) q := by
  have houtcome := Operation.outcome_conclude p conclusion chain
  rw [h] at houtcome
  cases houtcome with
  | relative conclusion chain keys hconclusion hopen hkeys =>
    refine posted_of_eq rfl rfl rfl rfl rfl rfl ?_
    cases conclusion with
    | conflict => exact absurd rfl hconclusion
    | assumptions | constraint => rfl
  | unwitnessed hopen => exact posted_of_eq rfl rfl rfl rfl rfl rfl rfl
  | witnessed chain key record hopen hkeys => exact posted_conflict hopen hkeys h
  | concluded chain keys hopen hkeys => exact posted_conflict hopen hkeys h

end Proof

namespace Journal

open Proof

variable {j : Journal} {e : Event}

/-- An accepted event leaves what an operation leaves that was accepted, if it calls for one. -/
theorem exists_attempt_of_ok (h : (j.keep e).1 = .ok ()) {operation : Operation}
    (hoperation : e.operation? = some operation) :
    ∃ key, operation.attempt j.proof = (.ok key, (j.keep e).2.proof) := by
  rw [proof_keep, hoperation]
  rw [keep_eq, hoperation] at h
  obtain ⟨key, hkey⟩ := exists_ok_of_settle h
  exact ⟨key, Prod.ext hkey (operation.snd_attempt j.proof)⟩

/-- **An accepted event is posted as what it was when it came.** -/
theorem posted_keep (h : (j.keep e).1 = .ok ()) : j.proof.Posted e (j.keep e).2.proof := by
  have hproof {operation : Operation} (hoperation : e.operation? = some operation) :=
    exists_attempt_of_ok h hoperation
  have hnone (hoperation : e.operation? = none) : (j.keep e).2.proof = j.proof := by
    rw [proof_keep, hoperation]
  cases e with
  | premise id redundant clause restored =>
    obtain ⟨key, hkey⟩ := hproof rfl
    exact posted_premise hkey
  | derived id redundant clause antecedents =>
    obtain ⟨key, hkey⟩ := hproof rfl
    exact posted_derived hkey
  | delete id redundant clause =>
    obtain ⟨key, hkey⟩ := hproof rfl
    exact posted_delete redundant clause hkey
  | unsat conclusion chain =>
    obtain ⟨key, hkey⟩ := hproof rfl
    exact posted_unsat hkey
  | «begin» firstId =>
    obtain ⟨key, hkey⟩ := hproof rfl
    exact posted_begin hkey
  | sat model =>
    obtain ⟨key, hkey⟩ := hproof rfl
    exact posted_sat model hkey
  | _ =>
    rw [hnone rfl]
    exact posted_of_eq rfl rfl rfl rfl rfl rfl rfl

/-- A refused event leaves the records and the active clauses alone. -/
theorem records_keep_of_error {cause : ProofError} (h : (j.keep e).1 = .error cause) :
    (j.keep e).2.proof.records = j.proof.records ∧ (j.keep e).2.proof.active = j.proof.active := by
  obtain ⟨operation, -, hrefused, hkeep⟩ := exists_refused h
  rw [hkeep]
  have houtcome := Operation.outcome_attempt j.proof operation
  generalize operation.attempt j.proof = result at houtcome hrefused
  cases houtcome with
  | refused | full => exact ⟨rfl, rfl⟩
  | _ => exact absurd hrefused (by simp)

/-- A refutation of the formula stays on record, and once it is there no empty clause is recorded
for want of a name. -/
theorem concluded_keep (hconcluded : j.proof.concluded = true) (e : Event) :
    (j.keep e).2.proof.concluded = true := by
  rw [concluded, (proof_keep_of_concluded hconcluded e).2]
  exact hconcluded

theorem namesNone_of_concluded (h : (j.keep e).1 = .ok ()) (hconcluded : j.proof.concluded = true) :
    e.namesNone j.proof = false := by
  have hsize := (posted_keep h).size
  rw [(proof_keep_of_concluded hconcluded e).1] at hsize
  cases hnone : e.namesNone j.proof with
  | false => rfl
  | true =>
    rw [hnone, Bool.toNat_true] at hsize
    omega

/-- An empty clause is recorded for want of a name with a refutation of the formula only. -/
theorem concluded_of_namesNone (h : (j.keep e).1 = .ok ()) (hnone : e.namesNone j.proof = true) :
    (j.keep e).2.proof.concluded = true := by
  have hunsat : ∃ chain, e = .unsat .conflict chain := by
    unfold Event.namesNone at hnone
    split at hnone
    all_goals first | exact ⟨_, rfl⟩ | exact absurd hnone Bool.false_ne_true
  obtain ⟨chain, rfl⟩ := hunsat
  obtain ⟨key, hkey⟩ := exists_attempt_of_ok h rfl
  have houtcome := Operation.outcome_attempt j.proof (.conclude .conflict chain)
  rw [hkey] at houtcome
  obtain ⟨witness, hrefutation⟩ := houtcome.refutation_of_conclude rfl
  rw [concluded, hrefutation]
  rfl

/-- The counts of a journal move on with what is accepted. -/
theorem counts_accept (j : Journal) (e : Event) :
    (j.accept e).premises = j.premises + e.isPremise.toNat ∧
      (j.accept e).derived = j.derived + e.isDerived.toNat ∧
      (j.accept e).deleted = j.deleted + e.isDelete.toNat := by
  cases e with
  | solve =>
    simp only [accept]
    split <;> exact ⟨rfl, rfl, rfl⟩
  | _ => exact ⟨rfl, rfl, rfl⟩

/-- What an event, accepted or not, makes of a journal. -/
structure Booked (j : Journal) (e : Event) (accepted : Bool) (k : Journal) : Prop where
  /-- A clause of the formula is counted. -/
  premises : k.premises = j.premises + (accepted && e.isPremise).toNat
  /-- A derived clause is counted. -/
  derived : k.derived = j.derived + (accepted && e.isDerived).toNat
  /-- A deletion is counted. -/
  deleted : k.deleted = j.deleted + (accepted && e.isDelete).toNat
  /-- What comes is active from then on, and what is deleted no longer is. -/
  active : k.proof.activeCount + (accepted && e.isDelete).toNat +
      (accepted && e.keepsActive j.proof).toNat =
    j.proof.activeCount + (accepted && e.isPremise).toNat + (accepted && e.isDerived).toNat
  /-- Records are made. -/
  size : k.proof.size = j.proof.size + (accepted && e.isDerived).toNat +
    (accepted && e.isNews j.proof).toNat + (accepted && e.namesNone j.proof).toNat
  /-- One kind of them has no identifier. -/
  unnamed : k.proof.HasUnnamed ↔
    j.proof.HasUnnamed ∨ (accepted && e.namesNone j.proof) = true
  /-- The formula is refuted with those, if it was not before. -/
  concluded : j.proof.concluded = true ∨ (accepted && e.namesNone j.proof) = true →
    k.proof.concluded = true
  /-- It is refuted once. -/
  once : j.proof.concluded = true → (accepted && e.namesNone j.proof) = false

/-- **An event is booked as what it was when it came.** -/
theorem booked_keep (j : Journal) (e : Event) :
    j.Booked e (j.keep e).1.isOk (j.keep e).2 := by
  cases hkeep : (j.keep e).1 with
  | ok u =>
    obtain ⟨hactive, hsize, hunnamed⟩ := posted_keep hkeep
    obtain ⟨hpremises, hderived, hdeleted⟩ := counts_accept { j with proof := (j.keep e).2.proof } e
    rw [← keep_of_ok hkeep] at hpremises hderived hdeleted
    exact ⟨hpremises, hderived, hdeleted, hactive, hsize, hunnamed,
      fun h => h.elim (concluded_keep · e) (concluded_of_namesNone hkeep),
      namesNone_of_concluded hkeep⟩
  | error cause =>
    obtain ⟨hrecords, hactive⟩ := records_keep_of_error hkeep
    obtain ⟨operation, -, -, hleft⟩ := exists_refused hkeep
    have hunnamed : (j.keep e).2.proof.HasUnnamed ↔ j.proof.HasUnnamed := by
      simp only [HasUnnamed, idAt?, record?, size, hrecords]
    exact ⟨by rw [hleft]; rfl, by rw [hleft]; rfl, by rw [hleft]; rfl, congrArg NatMap.size hactive,
      congrArg Array.size hrecords, hunnamed.trans (or_iff_left Bool.false_ne_true).symm,
      fun h => concluded_keep (h.resolve_right Bool.false_ne_true) e, fun _ => rfl⟩

end Journal

/-! ## What an event does to the counts of a relay -/

namespace Relay

open Keeper

variable {α ε τ : Type} [Keeper α]

/-- Whether an event is accepted and there is a consumer to pass it on to. -/
def passesOn (r : Relay α τ) (e : Event) : Bool :=
  (keep r.keeper e).1.isOk && r.consumer.isSome

variable [Observer ε τ]

/-- Whether an event is passed on and answered with an error. -/
def fails (surroundings : ε) (r : Relay α τ) (e : Event) : Bool :=
  (keep r.keeper e).1.isOk &&
    r.consumer.any fun consumer => !(Observer.note surroundings consumer e).outcome.isOk

/-- **The counts of a relay go up by what an event was when it came.** -/
theorem counts_note (r : Relay α τ) (surroundings : ε) (e : Event) :
    (Relay.note surroundings r e).observer.forwarded = r.forwarded + (r.passesOn e).toNat ∧
      (Relay.note surroundings r e).observer.failed =
        r.failed + (r.fails surroundings e).toNat := by
  unfold passesOn fails
  cases hkeep : (keep r.keeper e).1 with
  | error cause =>
    rw [note_of_error hkeep]
    exact ⟨rfl, rfl⟩
  | ok u =>
    rw [note_of_ok hkeep]
    cases r.consumer with
    | none => exact ⟨rfl, rfl⟩
    | some consumer =>
      simp only [Option.any_some, Option.isSome_some]
      obtain ⟨outcome, later, outside⟩ := Observer.note surroundings consumer e
      cases outcome <;> exact ⟨rfl, rfl⟩

end Relay

/-! ## Occasions and moves -/

/-- An event of which a scribe is told, in surroundings. -/
structure Occasion (ε τ : Type) where
  /-- The surroundings, as they were when the event came. -/
  surroundings : ε
  /-- The scribe, as it was when the event came. -/
  scribe : Scribe τ
  /-- The event. -/
  event : Event

namespace Occasion

variable {ε τ : Type}

/-- What was on record when the event came. -/
def proof (o : Occasion ε τ) : Proof := o.scribe.keeper.proof

/-- Whether the scribe accepted the event. -/
def accepted (o : Occasion ε τ) : Bool := (o.scribe.keeper.keep o.event).1.isOk

/-- Whether a clause of the formula was accepted. -/
def premise (o : Occasion ε τ) : Bool := o.accepted && o.event.isPremise

/-- Whether a derived clause was accepted. -/
def derived (o : Occasion ε τ) : Bool := o.accepted && o.event.isDerived

/-- Whether a deletion was accepted. -/
def deleted (o : Occasion ε τ) : Bool := o.accepted && o.event.isDelete

/-- Whether a clause was put back with an identifier that was active, and accepted. -/
def keptActive (o : Occasion ε τ) : Bool := o.accepted && o.event.keepsActive o.proof

/-- Whether a clause of the formula was accepted that was neither active nor on record to be made
active again. -/
def news (o : Occasion ε τ) : Bool := o.accepted && o.event.isNews o.proof

/-- Whether a conclusion was accepted for which an empty clause was recorded. -/
def namedNone (o : Occasion ε τ) : Bool := o.accepted && o.event.namesNone o.proof

/-- Whether the event was accepted and there was a consumer to pass it on to. -/
def passedOn (o : Occasion ε τ) : Bool := o.scribe.passesOn o.event

/-- Whether the event was passed on and the consumer answered with an error. -/
def failed [Observer ε τ] (o : Occasion ε τ) : Bool := o.scribe.fails o.surroundings o.event

end Occasion

/-- What can happen to a scribe with consumers of some type in some surroundings. -/
inductive Move (ε τ : Type)
  /-- The scribe is told of an event. -/
  | note (e : Event)
  /-- A consumer is connected, in place of the one before. -/
  | connect (consumer : τ)
  /-- The consumer is released. -/
  | release
  /-- Everything recorded is released, and the counts start again. -/
  | reset
  /-- The surroundings are changed by others. -/
  | outside (f : ε → ε)

/-- A scribe in its surroundings, with the occasions since its start or the last time that
everything recorded was released, the latest first. -/
structure Course (ε τ : Type) where
  /-- The scribe. -/
  scribe : Scribe τ
  /-- Its surroundings. -/
  surroundings : ε
  /-- The occasions. -/
  told : List (Occasion ε τ)

namespace Course

variable {ε τ : Type}

/-- What is on record. -/
def proof (c : Course ε τ) : Proof := c.scribe.keeper.proof

/-- A course at its start. -/
def start (τ : Type) (surroundings : ε) : Course ε τ := ⟨.new τ, surroundings, []⟩

variable [Observer ε τ]

/-- What becomes of a scribe and its surroundings with a move. -/
def move (c : Course ε τ) : Move ε τ → Course ε τ
  | .note e =>
    let reaction : Reaction ε (Scribe τ) := Observer.note c.surroundings c.scribe e
    ⟨reaction.observer, reaction.surroundings, ⟨c.surroundings, c.scribe, e⟩ :: c.told⟩
  | .connect consumer => { c with scribe := (c.scribe.connect consumer).2 }
  | .release => { c with scribe := c.scribe.release.2 }
  | .reset => { c with scribe := c.scribe.reset, told := [] }
  | .outside f => { c with surroundings := f c.surroundings }

/-- The course that moves lead to. -/
def run (c : Course ε τ) (moves : List (Move ε τ)) : Course ε τ := moves.foldl move c

end Course

/-! ## The books -/

/-- The balance of the books of a scribe at a point of its course. -/
structure Accounts {ε τ : Type} [Observer ε τ] (c : Course ε τ) : Prop where
  /-- The first count is that of the clauses of the formula that were accepted. -/
  premises : c.scribe.keeper.premises = c.told.countP Occasion.premise
  /-- The second is that of the derived clauses. -/
  derived : c.scribe.keeper.derived = c.told.countP Occasion.derived
  /-- The third is that of the deletions. -/
  deleted : c.scribe.keeper.deleted = c.told.countP Occasion.deleted
  /-- What came is active, was deleted, or was active already when it came. -/
  active : c.proof.activeCount + c.scribe.keeper.deleted + c.told.countP Occasion.keptActive =
    c.scribe.keeper.premises + c.scribe.keeper.derived
  /-- There is a record of each derived clause, of each clause of the formula that was news when
  it came, and of an empty clause if one was concluded with that was never named. -/
  records : c.proof.size = c.scribe.keeper.derived + c.told.countP Occasion.news +
    if c.told.any Occasion.namedNone then 1 else 0
  /-- The last is the one without an identifier. -/
  unnamed : c.told.any Occasion.namedNone = true ↔
    ∃ key record, c.proof.record? key = some record ∧ record.id = none
  /-- With it the formula is refuted. -/
  concluded : c.told.any Occasion.namedNone = true → c.proof.concluded = true
  /-- What was passed on is what was accepted while there was a consumer. -/
  forwarded : c.scribe.forwarded = c.told.countP Occasion.passedOn
  /-- What failed is what the consumer answered with an error. -/
  failed : c.scribe.failed = c.told.countP Occasion.failed

theorem Proof.hasUnnamed_iff {p : Proof} :
    p.HasUnnamed ↔ ∃ key record, p.record? key = some record ∧ record.id = none := by
  constructor
  · rintro ⟨key, hkey, hid⟩
    have hrecord : p.record? key = some p.records[key] := Array.getElem?_eq_getElem hkey
    refine ⟨key, _, hrecord, ?_⟩
    rwa [idAt?, hrecord] at hid
  · rintro ⟨key, record, hrecord, hid⟩
    exact ⟨key, lt_size_of_record? hrecord, by rw [idAt?, hrecord]; exact hid⟩

namespace Accounts

variable {ε τ : Type}

theorem countP_cons (f : Occasion ε τ → Bool) (o : Occasion ε τ) (told : List (Occasion ε τ)) :
    (o :: told).countP f = told.countP f + (f o).toNat := by
  rw [List.countP_cons]
  cases f o <;> rfl

variable [Observer ε τ] {c : Course ε τ}

/-- Where nothing has happened yet the books are empty, whoever is listening. -/
theorem empty (consumer : Option τ) (surroundings : ε) :
    Accounts ⟨{ Scribe.new τ with consumer }, surroundings, []⟩ := by
  refine ⟨rfl, rfl, rfl, rfl, rfl, iff_of_false Bool.false_ne_true ?_, fun h => ?_, rfl, rfl⟩
  · rintro ⟨key, record, hrecord, -⟩
    exact absurd hrecord (by simp [Course.proof, Scribe.new, Proof.record?])
  · exact absurd h Bool.false_ne_true

/-- The books stay balanced when the scribe is told of an event. -/
theorem note (h : Accounts c) (e : Event) : Accounts (c.move (.note e)) := by
  have hkeeper : (c.move (.note e)).scribe.keeper = (c.scribe.keeper.keep e).2 := Relay.keeper_note
  have hproof : (c.move (.note e)).proof = (c.scribe.keeper.keep e).2.proof :=
    congrArg Journal.proof hkeeper
  let o : Occasion ε τ := ⟨c.surroundings, c.scribe, e⟩
  have htold : (c.move (.note e)).told = o :: c.told := rfl
  have hbooked : c.scribe.keeper.Booked e o.accepted (c.scribe.keeper.keep e).2 :=
    c.scribe.keeper.booked_keep e
  obtain ⟨hforwarded, hfailed⟩ := c.scribe.counts_note c.surroundings e
  -- a clause that was never named is concluded with once, so the record of it is counted once
  have hnamed : (c.move (.note e)).told.any Occasion.namedNone =
      (o.namedNone || c.told.any Occasion.namedNone) := rfl
  have honce : c.told.any Occasion.namedNone = true → o.namedNone = false := fun hany =>
    hbooked.once (h.concluded hany)
  have hone : (if (o.namedNone || c.told.any Occasion.namedNone) = true then 1 else 0) =
      o.namedNone.toNat + if c.told.any Occasion.namedNone then 1 else 0 := by
    cases hany : c.told.any Occasion.namedNone with
    | true => rw [honce hany]; rfl
    | false => cases o.namedNone <;> rfl
  refine ⟨?_, ?_, ?_, ?_, ?_, ?_, ?_, ?_, ?_⟩
  · rw [hkeeper, htold, countP_cons, ← h.premises]
    exact hbooked.premises
  · rw [hkeeper, htold, countP_cons, ← h.derived]
    exact hbooked.derived
  · rw [hkeeper, htold, countP_cons, ← h.deleted]
    exact hbooked.deleted
  · have hactive : (c.scribe.keeper.keep e).2.proof.activeCount + o.deleted.toNat +
        o.keptActive.toNat = c.proof.activeCount + o.premise.toNat + o.derived.toNat :=
      hbooked.active
    have hbefore := h.active
    have hdeleted : _ = _ + o.deleted.toNat := hbooked.deleted
    have hpremises : _ = _ + o.premise.toNat := hbooked.premises
    have hderived : _ = _ + o.derived.toNat := hbooked.derived
    rw [hproof, hkeeper, htold, countP_cons]
    omega
  · have hsize : (c.scribe.keeper.keep e).2.proof.size =
        c.proof.size + o.derived.toNat + o.news.toNat + o.namedNone.toNat := hbooked.size
    have hbefore := h.records
    have hderived : _ = _ + o.derived.toNat := hbooked.derived
    rw [hproof, hkeeper, hnamed, hone, htold, countP_cons]
    omega
  · rw [hproof, hnamed, Bool.or_eq_true, ← Proof.hasUnnamed_iff, hbooked.unnamed, or_comm,
      h.unnamed, ← Proof.hasUnnamed_iff]
    exact Iff.rfl
  · intro hany
    rw [hnamed, Bool.or_eq_true] at hany
    rw [hproof]
    exact hbooked.concluded (hany.symm.imp_left h.concluded)
  · rw [htold, countP_cons, ← h.forwarded]
    exact hforwarded
  · rw [htold, countP_cons, ← h.failed]
    exact hfailed

/-- **Every move keeps the books balanced.** -/
theorem move (h : Accounts c) (m : Move ε τ) : Accounts (c.move m) := by
  cases m with
  | note e => exact h.note e
  | reset => exact empty c.scribe.consumer c.surroundings
  | connect | release | outside =>
    exact ⟨h.premises, h.derived, h.deleted, h.active, h.records, h.unnamed, h.concluded,
      h.forwarded, h.failed⟩

theorem run (h : Accounts c) (moves : List (Move ε τ)) : Accounts (c.run moves) := by
  induction moves generalizing c with
  | nil => exact h
  | cons m rest ih => exact ih (h.move m)

end Accounts

/-- **The books of a scribe balance.**  Take a scribe from its start through any moves: events that
are accepted or refused, consumers of any kind that come and go and whose answers may be errors,
changes to the surroundings, and releases of everything recorded.  As far as events since the
last release go, the clauses of the formula and the derived clauses that were accepted are as many
as the active clauses, the deletions and the clauses that were put back while active together; there
is one record of each derived clause and of each clause of the formula that was neither active nor
made active again, and one more, without an identifier, if an empty clause was concluded with that
was never named; and the scribe has counted what was accepted while there was a consumer, and what
the consumer then answered with an error. -/
theorem accounts_run {ε τ : Type} [Observer ε τ] (surroundings : ε) (moves : List (Move ε τ)) :
    Accounts ((Course.start τ surroundings).run moves) :=
  (Accounts.empty none surroundings).run moves

-- a clause is put back while active, and again once deleted; the consumer answers each deletion
-- with an error, and misses the conclusion, for which an empty clause is recorded
example :
    let rejecting : Responder := ⟨fun e => if e.isDelete then .error (.rejected "full") else .ok ()⟩
    let c := (Course.start Responder ()).run
      [.note (.premise 9 false [4] false), .reset, .connect rejecting,
        .note (.premise 1 false [1, -2] false), .note (.premise 1 false [1, -2] true),
        .note (.delete 1 false []), .note (.delete 1 false []),
        .note (.premise 1 false [-2, 1] true), .note (.premise 2 false [2] false), .release,
        .note (.premise 3 false [-1] false), .note (.unsat .conflict [1, 2, 3])]
    (c.told.countP Occasion.premise, c.told.countP Occasion.keptActive,
        c.told.countP Occasion.news, c.proof.activeCount, c.proof.size) = (5, 1, 3, 3, 4) ∧
      (c.scribe.forwarded, c.scribe.failed) = (5, 1) := by
  decide +kernel

end Interpolation
