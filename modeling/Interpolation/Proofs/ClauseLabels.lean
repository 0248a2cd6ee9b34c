import Interpolation.Proofs.PendingLabels
import Interpolation.Proofs.RefusedEvents

/-!
# Labels belong to records

Identifiers come back.  A solver deletes a clause and gives its identifier to another, or puts a
clause back with other literals, and a label that was given to the one must not pass for the
label of the other; but where the clause itself is put back, its label should be there still.
So a session keeps labels by the keys of records.  That works as long as no key is labelled
before there is a record at it (`Dossier.Tied`): a record is then without a label when it is
made, and what happens to identifiers afterwards is no concern of it.

A caller knows clauses by their identifiers, and the clause that is meant is the last one
recorded with the identifier, deleted or not.  A session finds it, except where every key is in
use and the identifier was forgotten when another clause with it was refused; then there is a
record and no way to label it (`Session.setPart_of_full`).

* `Dossier.Tied`, `Session.tied_run` --- no key is labelled at which there is no record;
* `Session.partAt?_note`, `Session.keepsLabels_run` --- what is labelled stays labelled;
* `Session.findable_run` --- what can be labelled by its identifier;
* `Session.labels_follow_records` --- what labels are tied to, in every run.
-/

namespace Interpolation

/-- Spending a label bears on one key. -/
theorem Labelling.partAt?_spendPending {l : Labelling} {key other : Nat} (h : other ≠ key) :
    (l.spendPending key).2.partAt? other = l.partAt? other := by
  unfold spendPending
  split
  · rfl
  · rw [partAt?_setPartAt, if_neg h]
    rfl

/-- Whether a call can change the label of a record that there is. -/
def Call.relabels : Call → Bool
  | .setPart .. => true
  | .reset => true
  | _ => false

/-- Whether a call that is replied to so was refused for want of room, and would have brought in a
clause with an identifier. -/
def Call.exhausts (id : Nat) : Call → Reply → Bool
  | .note e, .noted (.error (.proof .storageExhausted)) => e.newId? == some id
  | _, _ => false

/-- Whether a step can change the label of a record that there is. -/
def Step.relabels {ε τ : Type} : Step ε τ → Bool
  | call c => c.relabels
  | _ => false

/-! ## Labelling by identifier -/

namespace Session

variable {τ : Type} {s : Session τ} {id key : Nat}

/-- The record that is found under an identifier is labelled. -/
theorem setPart_of_some (hs : s.proof.Traced) (h : s.proof.latestKey? id = some key) (part : Part) :
    s.setPart id part = .ok (s.withLabels (s.labels.setPartAt key part)) := by
  obtain ⟨record, hrecord, -⟩ := Proof.idAt?_eq_some_iff.mp (hs id key h).1
  have hfound : (s.proof.latestKey? id).filter (fun key => (s.proof.record? key).isSome) =
      some key := by
    rw [h, Option.filter_some, hrecord]
    rfl
  rw [setPart, Labelling.setPart, hfound]
  rfl

theorem setPart_of_none (h : s.proof.latestKey? id = none) (part : Part) :
    s.setPart id part = .error (.unknownClause id) := by
  rw [setPart, Labelling.setPart, h]
  rfl

/-- An identifier that leads to a record if it can leads to one that can be labelled. -/
theorem setPart_iff_of_findable (hs : s.proof.Traced) (hid : s.proof.Findable id) (part : Part) :
    (∃ t, s.setPart id part = .ok t) ↔
      ∃ key record, s.proof.record? key = some record ∧ record.id = some id := by
  cases hlatest : s.proof.latestKey? id with
  | none =>
    rw [setPart_of_none hlatest]
    refine iff_of_false (by simp) ?_
    rintro ⟨key, hkey⟩
    obtain ⟨k, hk⟩ := hid key (Proof.idAt?_eq_some_iff.mpr hkey)
    rw [hlatest] at hk
    exact absurd hk.symm (Option.some_ne_none k)
  | some key =>
    rw [setPart_of_some hs hlatest]
    exact iff_of_true ⟨_, rfl⟩ ⟨key, Proof.idAt?_eq_some_iff.mp (hs id key hlatest).1⟩

end Session

/-! ## Keys that are labelled -/

namespace Dossier

/-- What keeps labels from being those of records to come. -/
structure Tied (d : Dossier) : Prop where
  /-- The proof is one that can come about. -/
  reachable : d.journal.proof.Reachable
  /-- Labels are at the keys of records. -/
  labelled : ∀ {key part}, d.labels.partAt? key = some part → key < d.journal.proof.size

theorem tied_initial (config : Config) : Tied { config } where
  reachable := .start
  labelled h := absurd h.symm (Option.some_ne_none _)

/-- There is no label where there is no record. -/
theorem Tied.partAt?_eq_none {d : Dossier} (h : d.Tied) {key : Nat}
    (hkey : d.journal.proof.record? key = none) : d.labels.partAt? key = none := by
  cases hpart : d.labels.partAt? key with
  | none => rfl
  | some part =>
    have hrecord : d.journal.proof.record? key = some _ :=
      Array.getElem?_eq_getElem (h.labelled hpart)
    rw [hkey] at hrecord
    exact absurd hrecord.symm (Option.some_ne_none _)

/-- Whether a later dossier has the records of an earlier one, each with the label that it had, or
without a label if it had none. -/
structure KeepsLabels (d later : Dossier) : Prop where
  /-- The records are there, up to their flags. -/
  records : d.journal.proof.Extends later.journal.proof
  /-- They are labelled as they were. -/
  labels : ∀ {key}, key < d.journal.proof.size → later.labels.partAt? key = d.labels.partAt? key

namespace KeepsLabels

theorem refl (d : Dossier) : d.KeepsLabels d := ⟨.refl _, fun _ => rfl⟩

theorem trans {d e f : Dossier} (h : d.KeepsLabels e) (h' : e.KeepsLabels f) : d.KeepsLabels f where
  records := h.records.trans h'.records
  labels hkey := (h'.labels (Nat.lt_of_lt_of_le hkey h.records.size_le)).trans (h.labels hkey)

end KeepsLabels
end Dossier

namespace Session

open Observer

variable {ε τ : Type} [Observer ε τ] {surroundings : ε} {s : Session τ} {e : Event}

/-! ## What an event does -/

/-- No event takes a record away. -/
theorem extends_note : s.proof.Extends (note surroundings s e).observer.proof := by
  rw [proof_note]
  exact Journal.extends_keep s.keeper.journal e

/-- **An event leaves the labels of all records alone,** also when a label is spent on a record
that is made. -/
theorem partAt?_note {key : Nat} (hkey : key < s.proof.size) :
    (note surroundings s e).observer.labels.partAt? key = s.labels.partAt? key := by
  cases hbrings : e.bringsIn (note surroundings s e).outcome with
  | false => rw [labels_note_of_not hbrings]
  | true =>
    rw [(labels_note_of_bringsIn hbrings).1, Labelling.partAt?_spendPending (Nat.ne_of_lt hkey)]

/-- No label is spent unless one was said in advance and a fresh clause is brought in. -/
theorem labels_note_of_unspent (h : e.fresh = true → s.labels.pending = none) :
    (note surroundings s e).observer.labels = s.labels := by
  cases hbrings : e.bringsIn (note surroundings s e).outcome with
  | false => exact labels_note_of_not hbrings
  | true => exact labels_note_of_pending (h (Bool.and_eq_true_iff.mp hbrings).1) e

theorem tied_note (h : s.keeper.Tied) : (note surroundings s e).observer.keeper.Tied where
  reachable := by
    rw [journal_note, Journal.proof_keep]
    cases e.operation? with
    | none => exact h.reachable
    | some operation => exact h.reachable.step operation
  labelled {key part} hkey := by
    show key < (note surroundings s e).observer.proof.size
    by_cases hlt : key < s.proof.size
    · exact Nat.lt_of_lt_of_le hlt extends_note.size_le
    · -- a label beyond the records that there were was spent on one that was made
      have hnone : s.labels.partAt? key = none :=
        h.partAt?_eq_none (Array.getElem?_eq_none (Nat.le_of_not_lt hlt))
      change (note surroundings s e).observer.labels.partAt? key = some part at hkey
      cases hbrings : e.bringsIn (note surroundings s e).outcome with
      | false =>
        rw [labels_note_of_not hbrings, hnone] at hkey
        exact absurd hkey.symm (Option.some_ne_none part)
      | true =>
        obtain ⟨hlabels, id, redundant, clause, -, hproof⟩ := labels_note_of_bringsIn hbrings
        by_cases heq : key = s.proof.size
        · rw [heq, hproof]
          exact Nat.lt_of_lt_of_eq (Nat.lt_succ_self _) (Array.size_push _).symm
        · rw [hlabels, Labelling.partAt?_spendPending heq, hnone] at hkey
          exact absurd hkey.symm (Option.some_ne_none part)

/-! ## Calls and runs -/

/-- To label a clause is to label a record that there is. -/
theorem tied_setPart (h : s.keeper.Tied) {id : Nat} {part : Part} {t : Session τ}
    (ht : s.setPart id part = .ok t) : t.keeper.Tied := by
  have htraced : s.proof.Traced := h.reachable.traced
  cases hlatest : s.proof.latestKey? id with
  | none =>
    rw [setPart_of_none hlatest] at ht
    exact absurd ht (by simp)
  | some latest =>
    rw [setPart_of_some htraced hlatest] at ht
    obtain rfl := Except.ok.inj ht
    refine ⟨h.reachable, fun {key other} hkey => ?_⟩
    change (s.labels.setPartAt latest part).partAt? key = some other at hkey
    rw [Labelling.partAt?_setPartAt] at hkey
    split at hkey
    · rename_i heq
      rw [heq]
      exact Proof.lt_size_of_idAt? (htraced id latest hlatest).1
    · exact h.labelled hkey

theorem tied_perform (h : s.keeper.Tied) (c : Call) :
    (s.perform surroundings c).2.1.keeper.Tied := by
  have hconfig := exists_withConfig (s := s) (c := c) surroundings
  cases c with
  | note e => exact tied_note h
  | setMode | setCheckDerivations | setStrictChains | interpolate =>
    obtain ⟨config, hsame⟩ := hconfig rfl
    rw [hsame]
    exact ⟨h.reachable, h.labelled⟩
  | setScope | setNextPart => exact ⟨h.reachable, h.labelled⟩
  | setPart id part =>
    let Keeps : Session τ → Prop := fun t => t.keeper.Tied
    refine revise_ind (P := Keeps) h (s.labels.setPart s.proof id part) _ fun labels hlabels => ?_
    exact tied_setPart h (congrArg (Except.map s.withLabels) hlabels)
  | reset => exact Dossier.tied_initial s.config

/-- **No key is ever labelled before there is a record at it,** whatever a session is called to
do and whatever consumers it has meanwhile. -/
theorem tied_run (config : Config) (surroundings : ε) (steps : List (Step ε τ)) :
    ((new τ config).run surroundings steps).2.1.keeper.Tied :=
  run_ind (Dossier.tied_initial config) fun _ _ c _ h => tied_perform h c

theorem keepsLabels_perform {c : Call} (hc : c.relabels = false) :
    s.keeper.KeepsLabels (s.perform surroundings c).2.1.keeper := by
  have hconfig := exists_withConfig (s := s) (c := c) surroundings
  cases c with
  | note e => exact ⟨extends_note, partAt?_note⟩
  | setMode | setCheckDerivations | setStrictChains | interpolate =>
    obtain ⟨config, hsame⟩ := hconfig rfl
    rw [hsame]
    exact ⟨.refl _, fun _ => rfl⟩
  | setScope | setNextPart => exact ⟨.refl _, fun _ => rfl⟩
  | setPart | reset => exact absurd hc (by simp [Call.relabels])

/-- **A record keeps its label,** whatever becomes of its identifier. -/
theorem keepsLabels_run {steps : List (Step ε τ)} (hsteps : ∀ step ∈ steps, step.relabels = false) :
    s.keeper.KeepsLabels (s.run surroundings steps).2.1.keeper :=
  run_ind (P := s.keeper.KeepsLabels) (.refl s.keeper) fun _ _ _ hc h =>
    h.trans (keepsLabels_perform (hsteps _ (call_mem_of_mem_exchanges hc)))

/-! ## Identifiers that lead to records -/

/-- An identifier leads to a record after an event if it did before, unless the event is refused
for want of room and would bring in a clause with it. -/
theorem findable_note {id : Nat} (h : s.proof.Findable id)
    (hroom : (note surroundings s e).outcome = .error (.proof .storageExhausted) →
      e.newId? ≠ some id) : (note surroundings s e).observer.proof.Findable id := by
  rw [proof_note, Journal.proof_keep]
  cases hoperation : e.operation? with
  | none => exact h
  | some operation =>
    show (operation.apply s.proof).Findable id
    rw [← Operation.snd_attempt]
    refine h.outcome (operation.outcome_attempt s.proof) fun hfull => ?_
    have hkeep : (s.keeper.journal.keep e).1 = .error .storageExhausted := by
      rw [Journal.keep_eq, hoperation]
      exact Journal.settle_eq_error_iff.mpr hfull
    have hid := hroom (congrArg Reaction.outcome (note_of_error hkeep))
    rwa [Event.newId?, hoperation] at hid

theorem findable_perform {c : Call} {id : Nat} (h : s.proof.Findable id)
    (hc : c.exhausts id (s.perform surroundings c).1 = false) :
    (s.perform surroundings c).2.1.proof.Findable id := by
  have hconfig := exists_withConfig (s := s) (c := c) surroundings
  cases c with
  | note e =>
    refine findable_note h fun houtcome hid => ?_
    rw [perform, houtcome, Call.exhausts, hid] at hc
    exact absurd hc (by simp)
  | setMode | setCheckDerivations | setStrictChains | interpolate =>
    obtain ⟨config, hsame⟩ := hconfig rfl
    rw [hsame]
    exact h
  | setPart other part =>
    let Keeps : Session τ → Prop := fun t => t.proof.Findable id
    exact revise_ind (P := Keeps) h (s.labels.setPart s.proof other part) _ fun _ _ => h
  | setScope | setNextPart => exact h
  | reset => exact Proof.findable_initial id

/-- **An identifier leads to a record, if one was ever made with it, as long as no clause with it
was refused for want of room.** -/
theorem findable_run {id : Nat} {config : Config} {steps : List (Step ε τ)}
    (hroom : ∀ exchange ∈ (new τ config).exchanges surroundings steps,
      exchange.1.exhausts id exchange.2 = false) :
    ((new τ config).run surroundings steps).2.1.proof.Findable id :=
  run_ind (P := fun d => d.journal.proof.Findable id) (Proof.findable_initial id)
    fun _ _ _ hc h => findable_perform h (hroom _ hc)

/-! ## What labels are tied to -/

/-- What is so of the labels of a session at every point of a run. -/
structure FollowsRecords (surroundings : ε) (s : Session τ) : Prop where
  /-- Where there is a label there is a record. -/
  recorded : ∀ key part, s.labels.partAt? key = some part →
    ∃ record, s.proof.record? key = some record
  /-- An event changes no label, unless one was said in advance and it brings in a fresh
  clause. -/
  unchanged : ∀ e, e.bringsIn (note surroundings s e).outcome = false ∨ s.labels.pending = none →
    (note surroundings s e).observer.labels = s.labels
  /-- Even then it changes the label of no record that there was before. -/
  kept : ∀ e key record, s.proof.record? key = some record →
    (note surroundings s e).observer.labels.partAt? key = s.labels.partAt? key
  /-- A record that an event makes has no label, unless it is that of a fresh clause and a label
  was said in advance. -/
  unlabelled : ∀ e key record, s.proof.record? key = none →
    (note surroundings s e).observer.proof.record? key = some record →
    (e.fresh = true → s.labels.pending = none) →
    (note surroundings s e).observer.labels.partAt? key = none
  /-- To label a clause by its identifier is to label the last record made with the identifier,
  and to do nothing else. -/
  setPart_ok : ∀ id part t, s.setPart id part = .ok t →
    ∃ key, s.proof.Newest id key ∧ t = s.withLabels (s.labels.setPartAt key part)
  /-- It fails for one reason. -/
  setPart_error : ∀ id part cause, s.setPart id part = .error cause → cause = .unknownClause id
  /-- As long as there is a key to spare, it succeeds just when there is a record made with the
  identifier. -/
  setPart_iff : s.proof.size < Proof.capacity → ∀ id part,
    (∃ t, s.setPart id part = .ok t) ↔
      ∃ key record, s.proof.record? key = some record ∧ record.id = some id
  /-- Until something is labelled by its identifier or the session is started afresh, every record
  stays, up to its flag, and has the label that it has. -/
  survives : ∀ steps : List (Step ε τ), (∀ step ∈ steps, step.relabels = false) →
    ∀ key record, s.proof.record? key = some record →
      let later := (s.run surroundings steps).2.1
      (∃ last, later.proof.record? key = some last ∧ record.Agrees last) ∧
        later.labels.partAt? key = s.labels.partAt? key

theorem followsRecords_of_tied (h : s.keeper.Tied) : s.FollowsRecords surroundings where
  recorded _ _ hpart := ⟨_, Array.getElem?_eq_getElem (h.labelled hpart)⟩
  unchanged e hspared := hspared.elim labels_note_of_not fun hnone => labels_note_of_pending hnone e
  kept _ _ _ hrecord := partAt?_note (Proof.lt_size_of_record? hrecord)
  unlabelled _ _ _ hnone _ hspared := by
    rw [labels_note_of_unspent hspared]
    exact h.partAt?_eq_none hnone
  setPart_ok id part t ht := by
    cases hlatest : s.proof.latestKey? id with
    | none =>
      rw [setPart_of_none hlatest] at ht
      exact absurd ht (by simp)
    | some key =>
      rw [setPart_of_some h.reachable.traced hlatest] at ht
      exact ⟨key, h.reachable.traced id key hlatest, (Except.ok.inj ht).symm⟩
  setPart_error id part cause hcause := by
    cases hlatest : s.proof.latestKey? id with
    | none =>
      rw [setPart_of_none hlatest] at hcause
      exact (Except.error.inj hcause).symm
    | some key =>
      rw [setPart_of_some h.reachable.traced hlatest] at hcause
      exact absurd hcause (by simp)
  setPart_iff hsize id :=
    setPart_iff_of_findable h.reachable.traced ((h.reachable.indexed hsize).findable id)
  survives _ hsteps _ _ hrecord :=
    ⟨(keepsLabels_run hsteps).records _ _ hrecord,
      (keepsLabels_run hsteps).labels (Proof.lt_size_of_record? hrecord)⟩

/-- **Labels belong to records and not to identifiers.**  Let a new session be taken through any
steps, with any consumers and in any surroundings.  Every key that is labelled is that of a
record.  A record that an event makes is made without a label, even if records made with the same
identifier have labels, unless it is that of a fresh clause and takes the label said in advance;
other than that no event changes any label.  To label a clause by its identifier is to label the
last record made with it, whether the clause is active or deleted, and it can be done just when
there is one, as long as there is a key to spare or no clause with the identifier was ever refused
for want of room.  So a record has the label that it was given however often its clause is deleted
and put back and whatever its identifier is used for. -/
theorem labels_follow_records (config : Config) (surroundings : ε) (steps : List (Step ε τ)) :
    let ended := (new τ config).run surroundings steps
    ended.2.1.FollowsRecords ended.2.2 ∧
      ∀ id, (∀ exchange ∈ (new τ config).exchanges surroundings steps,
          exchange.1.exhausts id exchange.2 = false) →
        ∀ part, (∃ t, ended.2.1.setPart id part = .ok t) ↔
          ∃ key record, ended.2.1.proof.record? key = some record ∧ record.id = some id := by
  intro ended
  have htied : ended.2.1.keeper.Tied := tied_run config surroundings steps
  refine ⟨followsRecords_of_tied htied, fun id hroom => ?_⟩
  exact setPart_iff_of_findable htied.reachable.traced (findable_run hroom)

/-- Clause 1 is brought in and labelled. -/
def labellingSteps : List (Step Unit Silent) :=
  [.call (.note (.premise 1 false [1, 2] false)), .call (.setPart 1 .b)]

/-- Clause 1 is deleted and put back, deleted and put back with other literals, and deleted again,
before a derived clause takes over the identifier. -/
def reusingSteps : List (Step Unit Silent) :=
  [.call (.note (.delete 1 false [1, 2])), .call (.note (.premise 1 false [2, 1] true)),
    .call (.note (.delete 1 false [1, 2])), .call (.note (.premise 1 false [3] true)),
    .call (.note (.premise 2 false [-3, 4] false)), .call (.note (.derived 3 true [4] [1, 2])),
    .call (.note (.delete 1 false [3])), .call (.note (.derived 1 true [4, 5] [3]))]

/-- The label of clause 1 is that of its record to the end, while the clauses to which the
identifier passes have none. -/
theorem labels_follow_records_reuses :
    let labelled := ((new Silent {}).run () labellingSteps).2.1
    let later := (labelled.run () reusingSteps).2.1
    (∀ exchange ∈ (new Silent {}).exchanges () labellingSteps,
        exchange.1.exhausts 1 exchange.2 = false) ∧
      (∃ t, labelled.setPart 1 .a = .ok t) ∧
      (∀ step ∈ reusingSteps, step.relabels = false) ∧ labelled.labels.partAt? 0 = some .b ∧
      later.labels.partAt? 0 = some .b ∧ later.partOf 1 = .error (.unlabelledClause 1) := by
  intro labelled later
  have hroom : ∀ exchange ∈ (new Silent {}).exchanges () labellingSteps,
      exchange.1.exhausts 1 exchange.2 = false := by decide
  have hsteps : ∀ step ∈ reusingSteps, step.relabels = false := by decide
  have hlabelled : labelled.labels.partAt? 0 = some .b := by decide
  have hrecord : labelled.proof.record? 0 = some (.premise 1 false [1, 2]) := by decide
  obtain ⟨hfollows, hfound⟩ := labels_follow_records {} () labellingSteps
  have hsurvives := hfollows.survives reusingSteps hsteps 0 (.premise 1 false [1, 2]) hrecord
  exact ⟨hroom, (hfound 1 hroom .a).mpr ⟨0, _, hrecord, rfl⟩, hsteps, hlabelled,
    hsurvives.2.trans hlabelled, by decide⟩

/-! ## When every key is in use -/

/-- To announce events in turn is a run. -/
theorem run_eq_noteAll (surroundings : ε) (s : Session τ) (events : List Event) :
    (s.run surroundings (events.map fun e => .call (.note e))).2 =
      noteAll surroundings s events := by
  induction events generalizing s surroundings with
  | nil => rfl
  | cons e rest ih => exact ih _ _

theorem noteAll_concat (surroundings : ε) (s : Session τ) (events : List Event) (e : Event) :
    (noteAll surroundings s (events ++ [e])).1 =
      (note (noteAll surroundings s events).2 (noteAll surroundings s events).1 e).observer := by
  rw [noteAll, List.foldl_append]
  rfl

/-- When a clause was refused because no key was left, there is a record of its identifier, and
the identifier does not lead to it. -/
theorem setPart_of_worn {id n : Nat} (hs : s.proof.Reachable) (h : s.proof.Worn id (n + 1))
    (hn : ¬ n + 1 < Proof.capacity) :
    let refused : Session τ := (note surroundings s (.premise id false [] false)).observer
    (∃ key record, refused.proof.record? key = some record ∧ record.id = some id) ∧
      ∀ part, refused.setPart id part = .error (.unknownClause id) := by
  intro refused
  constructor
  · obtain ⟨record, hrecord, hid⟩ :=
      Proof.idAt?_eq_some_iff.mp (hs.traced id n (h.latestKey?_eq rfl)).1
    have hextends : s.proof.Extends refused.proof := extends_note
    obtain ⟨later, hlater, hagrees⟩ := hextends n record hrecord
    exact ⟨n, later, hlater, hagrees.id.trans hid⟩
  · exact setPart_of_none (latestKey?_of_worn h hn)

/-- A clause is brought in and deleted as many times as there are keys, and brought in again. -/
def overflow : List Event := wear 1 Proof.capacity ++ [.premise 1 false [] false]

/-- **A record can be left that cannot be labelled.**  Once every key was used for clause 1 and the
clause is refused, there are records made with identifier 1, and to label the last of them is
refused as though there were none. -/
theorem setPart_of_full :
    let refused := ((new Silent {}).run () (overflow.map fun e => .call (.note e))).2.1
    (∃ key record, refused.proof.record? key = some record ∧ record.id = some 1) ∧
      ∀ part, refused.setPart 1 part = .error (.unknownClause 1) := by
  -- the number of keys is not looked at from here on, so that no run of that length is evaluated
  obtain ⟨n, hn⟩ : ∃ n, Proof.capacity = n + 1 :=
    ⟨_, (Nat.sub_add_cancel Proof.one_le_capacity).symm⟩
  let worn : Session Silent × Unit := noteAll () (new Silent {}) (wear 1 (n + 1))
  have hworn : worn.1.proof.Worn 1 (n + 1) := worn_wear () 1 (n + 1) (Nat.le_of_eq hn.symm)
  have htied : worn.1.keeper.Tied := by
    have hrun := tied_run (τ := Silent) {} () ((wear 1 (n + 1)).map fun e => .call (.note e))
    rwa [run_eq_noteAll] at hrun
  have hrefused : ((new Silent {}).run () (overflow.map fun e => .call (.note e))).2.1 =
      (note worn.2 worn.1 (.premise 1 false [] false)).observer := by
    rw [run_eq_noteAll, overflow, hn, noteAll_concat]
  rw [hrefused]
  exact setPart_of_worn htied.reachable hworn (by rw [hn]; exact Nat.lt_irrefl _)

end Session

end Interpolation
