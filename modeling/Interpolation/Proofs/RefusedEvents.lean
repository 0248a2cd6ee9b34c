import Interpolation.Proofs.ForwardedLogs
import Interpolation.Proofs.SessionRuns

/-!
# Refused events

A session refuses an event that does not fit what is on record, and a refusal should leave
everything as it was: the records with their flags, the identifiers, the conclusion, the phase
and the counts, the labels, and the consumer, who should hear nothing of it.  A caller who gets
an error can then put the matter right and go on.

That is so with one exception.  A clause that is brought in takes its identifier from the
deleted ones before room is sought for its record.  If by then every key is in use the clause is
refused, and its identifier, had it been a deleted one, is forgotten: the record is still there,
and can no longer be found by its identifier (`latestKey?_of_full`).

* `Operation.forget_of_exhausted`, `Operation.eq_of_refused` --- what a refusal leaves of a
  proof;
* `Proof.Worn`, `Session.worn_wear` --- how the keys can be used up on one identifier;
* `Session.note_of_refused` --- what a refusal leaves of a session.
-/

namespace Interpolation

/-! ## What a refusal leaves of a proof -/

/-- The proof in which an identifier is no longer among the deleted ones. -/
def Proof.forget (p : Proof) (id : Nat) : Proof := { p with deleted := p.deleted.erase id }

/-- Only a deleted identifier can be forgotten. -/
theorem Proof.forget_eq_self {p : Proof} {id : Nat} (h : p.deleted.find? id = none) :
    p.forget id = p := by
  have herase : p.deleted.erase id = p.deleted := by
    refine NatMap.ext fun k => ?_
    rw [NatMap.find?_erase]
    split
    · rename_i hk
      rw [hk, h]
    · rfl
  rw [forget, herase]

/-- Want of room is never found out by looking at the clause itself. -/
theorem Proof.checkClause_ne_exhausted (p : Proof) (id : Nat) (clause : Clause) :
    p.checkClause id clause ≠ .error .storageExhausted := by
  have hliterals : checkLiterals id clause ≠ .error .storageExhausted := by
    induction clause with
    | nil => simp [checkLiterals]
    | cons l rest ih =>
      unfold checkLiterals checkLiteral
      split
      · simp [bind, Except.bind]
      · split
        · simp [bind, Except.bind]
        · exact ih
  unfold checkClause checkOpen
  cases p.concluded with
  | true => simp [bind, Except.bind]
  | false => exact hliterals

/-- A record that there is no room for leaves its identifier forgotten. -/
theorem Proof.enter_of_exhausted {p : Proof} {id : Nat} {record : Record}
    (h : (p.enter id record).1 = .error .storageExhausted) :
    ¬ p.size < capacity ∧ (p.enter id record).2 = p.forget id := by
  by_cases hsize : p.size < capacity
  · rw [enter_of_lt hsize] at h
    exact absurd h (by simp)
  · rw [enter_of_not_lt hsize]
    exact ⟨hsize, rfl⟩

/-- There was no room for a premise only where a record was to be made of it. -/
theorem Proof.addPremise_of_exhausted {p : Proof} {id : Nat} {redundant restored : Bool}
    {clause : Clause}
    (h : (p.addPremise id redundant clause restored).1 = .error .storageExhausted) :
    p.addPremise id redundant clause restored = p.enter id (.premise id redundant clause) := by
  unfold addPremise at h ⊢
  cases hcheck : p.checkClause id clause with
  | error cause =>
    simp only [hcheck, Except.error.injEq] at h
    exact absurd (h ▸ hcheck) (p.checkClause_ne_exhausted id clause)
  | ok u =>
    simp only [hcheck] at h ⊢
    cases hkey : p.activeKey? id with
    | some key => cases restored <;> exact absurd h (by simp [hkey])
    | none =>
      cases restored with
      | false => rfl
      | true =>
        cases hrevive : p.revivable? id clause with
        | some key => exact absurd h (by simp [hkey, hrevive])
        | none => rfl

/-- There was no room for a derived clause only where a record was to be made of it. -/
theorem Proof.addDerived_of_exhausted {p : Proof} {id : Nat} {redundant : Bool} {clause : Clause}
    {ids : List Nat} (h : (p.addDerived id redundant clause ids).1 = .error .storageExhausted) :
    ∃ keys, p.addDerived id redundant clause ids =
      p.enter id (.derived id redundant clause keys) := by
  unfold addDerived at h ⊢
  cases hcheck : p.checkClause id clause with
  | error cause =>
    simp only [hcheck, Except.error.injEq] at h
    exact absurd (h ▸ hcheck) (p.checkClause_ne_exhausted id clause)
  | ok u =>
    simp only [hcheck] at h ⊢
    cases hcontains : p.contains id with
    | true => exact absurd h (by simp [hcontains])
    | false =>
      cases hkeys : p.resolveIds ids with
      | error antecedent => exact absurd h (by simp [hcontains, hkeys])
      | ok keys => exact ⟨keys, rfl⟩

namespace Operation

variable {p : Proof} {operation : Operation}

theorem fst_answering_eq_error_iff {α : Type} {key? : α → Option Nat}
    {result : Except ProofError α × Proof} {cause : ProofError} :
    (answering key? result).1 = .error cause ↔ result.1 = .error cause := by
  obtain ⟨answer, proof⟩ := result
  cases answer <;> simp [answering, Except.map]

/-- **For want of room the identifier of the clause brought in is forgotten.** -/
theorem forget_of_exhausted {id : Nat} (hid : operation.newId? = some id)
    (h : (operation.attempt p).1 = .error .storageExhausted) :
    ¬ p.size < Proof.capacity ∧ (operation.attempt p).2 = p.forget id := by
  cases operation with
  | premise id' redundant clause restored =>
    obtain rfl : id' = id := Option.some.inj hid
    have hadd : (p.addPremise id' redundant clause restored).1 = .error .storageExhausted :=
      fst_answering_eq_error_iff.mp h
    have henter := Proof.addPremise_of_exhausted hadd
    show _ ∧ (p.addPremise id' redundant clause restored).2 = _
    rw [henter] at hadd ⊢
    exact Proof.enter_of_exhausted hadd
  | derived id' redundant clause ids =>
    obtain rfl : id' = id := Option.some.inj hid
    have hadd : (p.addDerived id' redundant clause ids).1 = .error .storageExhausted :=
      fst_answering_eq_error_iff.mp h
    obtain ⟨keys, henter⟩ := Proof.addDerived_of_exhausted hadd
    show _ ∧ (p.addDerived id' redundant clause ids).2 = _
    rw [henter] at hadd ⊢
    exact Proof.enter_of_exhausted hadd
  | _ => exact absurd hid (by simp [newId?])

/-- **Any other refusal leaves the proof as it was,** whatever the cause. -/
theorem eq_of_refused {cause : ProofError} (h : (operation.attempt p).1 = .error cause)
    (hfull : cause = .storageExhausted →
      ∀ id, operation.newId? = some id → p.deleted.find? id = none) :
    (operation.attempt p).2 = p := by
  have houtcome := outcome_attempt p operation
  generalize operation.attempt p = result at h houtcome
  cases houtcome with
  | refused => rfl
  | full id hid =>
    obtain rfl : cause = .storageExhausted := (Except.error.inj h).symm
    exact Proof.forget_eq_self (hfull rfl id hid)
  | _ => exact absurd h (by simp)

end Operation

/-! ## Using up the keys -/

namespace Proof

theorem one_le_capacity : 1 ≤ capacity := by decide

/-- Whether every key so far went to clauses with one identifier, and the last was deleted. -/
structure Worn (p : Proof) (id n : Nat) : Prop where
  /-- So many keys are in use. -/
  size_eq : p.size = n
  /-- No active clause has the identifier. -/
  inactive : p.activeKey? id = none
  /-- The formula has not been refuted. -/
  unconcluded : p.concluded = false
  /-- The last key, if there is one, is that of the deleted clause. -/
  latest : ∀ k, n = k + 1 → p.deleted.find? id = some k

theorem worn_initial (id : Nat) : Worn {} id 0 where
  size_eq := rfl
  inactive := rfl
  unconcluded := rfl
  latest k hk := absurd hk (by simp)

namespace Worn

variable {p : Proof} {id n : Nat} (h : p.Worn id n)

include h

/-- The clause brought in next needs a record. -/
theorem addPremise_eq : p.addPremise id false [] false = p.enter id (.premise id false []) := by
  have hcheck : p.checkClause id [] = .ok () :=
    checkClause_eq_ok_iff.mpr ⟨h.unconcluded, by simp⟩
  simp only [addPremise, hcheck, h.inactive]

theorem addPremise_of_full (hn : ¬ n < capacity) :
    p.addPremise id false [] false = (.error .storageExhausted, p.forget id) := by
  have hsize : ¬ p.size < capacity := by rwa [h.size_eq]
  rw [h.addPremise_eq, enter_of_not_lt hsize]
  rfl

/-- The identifier is that of the last record. -/
theorem latestKey?_eq {k : Nat} (hk : n = k + 1) : p.latestKey? id = some k := by
  rw [latestKey?, h.inactive, h.latest k hk, Option.none_or]

/-- To bring a clause in and delete it takes one key. -/
theorem succ (hsize : n < capacity) :
    ((p.addPremise id false [] false).2.delete id).2.Worn id (n + 1) := by
  have hsize' : p.size < capacity := by rwa [h.size_eq]
  have hactive : (p.entered id (.premise id false [])).activeKey? id = some p.size :=
    NatMap.find?_insert_self _ _ _
  have hdelete : ((p.addPremise id false [] false).2.delete id).2 =
      (p.entered id (.premise id false [])).removed id p.size := by
    rw [h.addPremise_eq, enter_of_lt hsize', delete, hactive]
    rfl
  rw [hdelete]
  exact
    { size_eq := by simp [removed, entered, mark, size, ← h.size_eq]
      inactive := NatMap.find?_erase_self _ _
      unconcluded := h.unconcluded
      latest := by
        rintro k hk
        obtain rfl : n = k := Nat.succ.inj hk
        rw [← h.size_eq]
        exact NatMap.find?_insert_self _ _ _ }

end Worn
end Proof

/-- Brings a clause in and deletes it, as many times as is said. -/
def wear (id : Nat) : Nat → List Event
  | 0 => []
  | n + 1 => wear id n ++ [.premise id false [] false, .delete id false []]

namespace Session

open Observer Keeper

variable {ε τ : Type} [Observer ε τ]

/-- A new session can be brought to use up as many keys as there are. -/
theorem worn_wear (surroundings : ε) (id n : Nat) (hn : n ≤ Proof.capacity) :
    (noteAll surroundings (Session.new τ {}) (wear id n)).1.proof.Worn id n := by
  rw [proof, Relay.keeper_noteAll]
  induction n with
  | zero => exact Proof.worn_initial id
  | succ n ih =>
    rw [wear, keepAll_append]
    have hworn := ih (Nat.le_of_lt hn)
    generalize keepAll (Session.new τ {}).keeper (wear id n) = d at hworn ⊢
    have hproof : (keepAll d [.premise id false [] false, .delete id false []]).journal.proof =
        ((d.journal.proof.addPremise id false [] false).2.delete id).2 := by
      show ((d.keep _).2.keep _).2.journal.proof = _
      rw [Dossier.journal_keep, Journal.proof_keep, Dossier.journal_keep, Journal.proof_keep]
      rfl
    rw [hproof]
    exact hworn.succ hn

variable {surroundings : ε} {s : Session τ} {id n : Nat}

/-- When no key is left, the clause is refused. -/
theorem outcome_of_worn (h : s.proof.Worn id n) (hn : ¬ n < Proof.capacity) :
    (note surroundings s (.premise id false [] false)).outcome =
      .error (.proof .storageExhausted) := by
  have hjournal : (s.keeper.journal.keep (.premise id false [] false)).1 =
      .error .storageExhausted := by
    have hadd : s.keeper.journal.proof.addPremise id false [] false =
        (.error .storageExhausted, s.proof.forget id) := h.addPremise_of_full hn
    exact Journal.settle_eq_error_iff.mpr (congrArg Prod.fst hadd)
  rw [note_of_error hjournal]

/-- And its identifier is forgotten. -/
theorem latestKey?_of_worn (h : s.proof.Worn id n) (hn : ¬ n < Proof.capacity) :
    (note surroundings s (.premise id false [] false)).observer.proof.latestKey? id = none := by
  rw [proof_note, Journal.proof_keep]
  show (s.proof.addPremise id false [] false).2.latestKey? id = none
  rw [h.addPremise_of_full hn, Proof.latestKey?]
  show (s.proof.activeKey? id).or ((s.proof.deleted.erase id).find? id) = none
  rw [h.inactive, NatMap.find?_erase_self, Option.none_or]

/-- A session in which a number of keys were used, all for clauses with the same identifier. -/
def wornSession (n : Nat) : Session Recorder := (noteAll () (Session.new Recorder {}) (wear 1 n)).1

/-- A session in which every key is in use. -/
def fullSession : Session Recorder := wornSession Proof.capacity

theorem worn_wornSession {n : Nat} (hn : n ≤ Proof.capacity) : (wornSession n).proof.Worn 1 n :=
  worn_wear () 1 n hn

theorem worn_fullSession : fullSession.proof.Worn 1 Proof.capacity :=
  worn_wornSession (Nat.le_refl Proof.capacity)

theorem outcome_fullSession :
    (note () fullSession (.premise 1 false [] false)).outcome =
      .error (.proof .storageExhausted) :=
  outcome_of_worn worn_fullSession (Nat.lt_irrefl Proof.capacity)

end Session

/-! ## What a refusal leaves of a session -/

namespace Session

open Observer

variable {ε τ : Type}

/-- The session with another proof on record. -/
def withProof (s : Session τ) (proof : Proof) : Session τ :=
  { s with keeper := { s.keeper with journal := { s.keeper.journal with proof } } }

/-- The session in which an identifier is no longer among the deleted ones. -/
def forget (s : Session τ) (id : Nat) : Session τ := s.withProof (s.proof.forget id)

variable [Observer ε τ]

/-- A refusal comes from an operation on the proof, and changes nothing else; nor would it have
been otherwise with another consumer. -/
theorem exists_refused {surroundings : ε} {s : Session τ} {e : Event} {error : Error}
    (h : (note surroundings s e).outcome = .error error) (hown : error.isForwarding = false) :
    ∃ operation cause, e.operation? = some operation ∧ error = .proof cause ∧
      (operation.attempt s.proof).1 = .error cause ∧
      (∀ telling, s.react surroundings e telling = note surroundings s e) ∧
      note surroundings s e =
        ⟨.error error, s.withProof (operation.attempt s.proof).2, surroundings⟩ := by
  cases hjournal : (s.keeper.journal.keep e).1 with
  | ok u =>
    have hkeep : (Keeper.keep s.keeper e).1 = .ok () := (s.keeper.fst_keep e).trans hjournal
    have hforwarding : error.isForwarding = true := Relay.isForwarding_of_kept hkeep h
    exact absurd hforwarding (by simp [hown])
  | error cause =>
    obtain ⟨operation, hoperation, hrefused, hleft⟩ := Journal.exists_refused hjournal
    have hnote : note surroundings s e = _ := note_of_error hjournal
    rw [hnote] at h
    obtain rfl : error = .proof cause := (Except.error.inj h).symm
    have hkeep : (Keeper.keep s.keeper e).1 = .error cause := (s.keeper.fst_keep e).trans hjournal
    refine ⟨operation, cause, hoperation, rfl, hrefused, fun telling => ?_, hnote.trans ?_⟩
    · exact (Relay.react_of_error hkeep).trans (Relay.note_of_error hkeep).symm
    · rw [hleft]
      rfl

/-- **A refused event leaves no trace, unless it was refused for want of room.**  Let any session
answer any event with an error that is not one of passing events on.  If the event brings in no
clause with a deleted identifier, or is refused for any reason but that every key is in use, the
session is exactly as before, and so are its consumer and the surroundings.  In the case that is
left every key is in use, and the session is as before but that the identifier of the clause is
no longer among the deleted ones.  In neither case is the consumer told, for it would have been
the same whatever telling it had led to. -/
theorem note_of_refused (surroundings : ε) (s : Session τ) (e : Event) {error : Error}
    (h : (note surroundings s e).outcome = .error error) (hown : error.isForwarding = false) :
    (∀ telling, s.react surroundings e telling = note surroundings s e) ∧
    ((error = .proof .storageExhausted →
        ∀ id, e.newId? = some id → s.proof.deleted.find? id = none) →
      note surroundings s e = ⟨.error error, s, surroundings⟩) ∧
    (error = .proof .storageExhausted → ∀ id, e.newId? = some id →
      ¬ s.proof.size < Proof.capacity ∧
        note surroundings s e = ⟨.error error, s.forget id, surroundings⟩) := by
  obtain ⟨operation, cause, hoperation, rfl, hrefused, huntold, hnote⟩ := exists_refused h hown
  have hnewId : e.newId? = operation.newId? := by rw [Event.newId?, hoperation]; rfl
  refine ⟨huntold, ?_⟩
  rw [hnote, hnewId]
  constructor
  · intro hfull
    have hleft := Operation.eq_of_refused hrefused fun hcause => hfull (congrArg Error.proof hcause)
    rw [hleft]
    rfl
  · intro hcause id hid
    obtain rfl : cause = .storageExhausted := Error.proof.inj hcause
    obtain ⟨hsize, hleft⟩ := Operation.forget_of_exhausted hid hrefused
    exact ⟨hsize, by rw [hleft]; rfl⟩

/-- A session that has a recorder for its consumer and a label said in advance, and in which a
clause was deleted. -/
def expectantSession : Session Recorder :=
  setNextPart ((wornSession 1).connect {}).2 .a

theorem note_of_refused_expectantSession :
    ((note () expectantSession (.premise 1 false [2, 0] false)).outcome =
        .error (.proof (.zeroLiteral 1)) ∧
      note () expectantSession (.premise 1 false [2, 0] false) =
        ⟨.error (.proof (.zeroLiteral 1)), expectantSession, ()⟩) ∧
      note () fullSession (.premise 1 false [] false) =
        ⟨.error (.proof .storageExhausted), fullSession.forget 1, ()⟩ := by
  have hzero : (note () expectantSession (.premise 1 false [2, 0] false)).outcome =
      .error (.proof (.zeroLiteral 1)) := by decide
  refine ⟨⟨hzero, ?_⟩, ?_⟩
  · exact (note_of_refused () expectantSession _ hzero rfl).2.1 (by simp)
  · exact ((note_of_refused () fullSession _ outcome_fullSession rfl).2.2 rfl 1 rfl).2

/-- When no key is left, a clause that is refused can take with it what was known of its
identifier: the record of the clause deleted last was found by the identifier, and is not
found any more. -/
theorem latestKey?_of_full :
    (note () fullSession (.premise 1 false [] false)).outcome =
        .error (.proof .storageExhausted) ∧
      fullSession.proof.latestKey? 1 = some (Proof.capacity - 1) ∧
      (note () fullSession (.premise 1 false [] false)).observer.proof.latestKey? 1 = none := by
  have hbefore : fullSession.proof.latestKey? 1 = some (Proof.capacity - 1) :=
    worn_fullSession.latestKey?_eq (Nat.sub_add_cancel Proof.one_le_capacity).symm
  have hafter :
      (note () fullSession (.premise 1 false [] false)).observer.proof.latestKey? 1 = none :=
    latestKey?_of_worn worn_fullSession (Nat.lt_irrefl Proof.capacity)
  exact ⟨outcome_fullSession, hbefore, hafter⟩

end Session

end Interpolation
