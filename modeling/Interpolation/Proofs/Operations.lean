import Interpolation.Proof.Update

/-!
# Operations on a proof, and their outcomes

A proof is changed by operations alone.  What an operation answers, and what it leaves of the
proof, depends on a few questions: whether the formula has been refuted, whether the literals
are proper, whether an identifier is active or can be brought back, what the identifiers
referred to stand for, and whether there is a key to spare.  `Operation.Outcome` goes through
the answers, each case with the answer that the caller gets and with the proof afterwards.

Whatever is proved of all operations is proved by cases of that relation; nothing else needs
to look at how the operations are written down.

* `Operation.attempt` --- an operation with its answer;
* `Operation.outcome_attempt` --- what an operation can answer and leave behind;
* `Operation.Outcome.eq_of_error` --- a refusal leaves everything as it was, as long as
  there is a key to spare;
* `Operation.Outcome.attempt_eq` --- what is accepted when its conditions are met.
-/

namespace Interpolation

/-! ## Lists that grow at the end -/

/-- A list with one more at the end is taken apart there or before. -/
theorem concat_eq_append_cons_iff {α : Type} {l before after : List α} {x a : α} :
    l ++ [x] = before ++ a :: after ↔
      l = before ∧ x = a ∧ after = [] ∨ ∃ rest, l = before ++ a :: rest ∧ after = rest ++ [x] := by
  constructor
  · intro hsplit
    rcases List.eq_nil_or_concat after with rfl | ⟨rest, last, rfl⟩
    · obtain ⟨rfl, hlast⟩ := List.append_inj' hsplit rfl
      exact Or.inl ⟨rfl, List.singleton_inj.mp hlast, rfl⟩
    · rw [List.concat_eq_append, ← List.cons_append, ← List.append_assoc] at hsplit
      obtain ⟨rfl, hlast⟩ := List.append_inj' hsplit rfl
      rw [List.concat_eq_append, List.singleton_inj.mp hlast]
      exact Or.inr ⟨rest, rfl, rfl⟩
  · rintro (⟨rfl, rfl, rfl⟩ | ⟨rest, rfl, rfl⟩)
    · rfl
    · rw [List.append_assoc, List.cons_append]

/-! ## Computations that can fail -/

/-- One computation after another succeeds when both do. -/
theorem bind_eq_ok_iff {ε α β : Type} {x : Except ε α} {f : α → Except ε β} {b : β} :
    x >>= f = .ok b ↔ ∃ a, x = .ok a ∧ f a = .ok b := by
  cases x with
  | error e => simp [bind, Except.bind]
  | ok a => simp [bind, Except.bind]

/-- And it fails when the one does, or the other after it. -/
theorem bind_eq_error_iff {ε α β : Type} {x : Except ε α} {f : α → Except ε β} {e : ε} :
    x >>= f = .error e ↔ x = .error e ∨ ∃ a, x = .ok a ∧ f a = .error e := by
  cases x with
  | error e' => simp [bind, Except.bind]
  | ok a => simp [bind, Except.bind]

theorem foldlM_cons_eq_ok_iff {ε α β : Type} {f : β → α → Except ε β} {a : α} {l : List α}
    {b c : β} :
    (a :: l).foldlM f b = .ok c ↔ ∃ d, f b a = .ok d ∧ l.foldlM f d = .ok c := by
  rw [List.foldlM_cons, bind_eq_ok_iff]

/-- Every step of a fold that succeeds does. -/
theorem exists_of_foldlM_eq_ok {ε α β : Type} {f : β → α → Except ε β} {l : List α} {b c : β}
    (h : l.foldlM f b = .ok c) : ∀ a ∈ l, ∃ s t, f s a = .ok t := by
  induction l generalizing b with
  | nil => exact List.forall_mem_nil _
  | cons a l ih =>
    obtain ⟨d, ha, h⟩ := foldlM_cons_eq_ok_iff.mp h
    exact List.forall_mem_cons.mpr ⟨⟨b, d, ha⟩, ih h⟩

/-- **A fold fails at the first step that does.** -/
theorem foldlM_eq_error_iff {ε α β : Type} {f : β → α → Except ε β} {l : List α} {b : β} {e : ε} :
    l.foldlM f b = .error e ↔
      ∃ before a after c, l = before ++ a :: after ∧ before.foldlM f b = .ok c ∧
        f c a = .error e := by
  induction l generalizing b with
  | nil => simp [pure, Except.pure]
  | cons a l ih =>
    rw [List.foldlM_cons, bind_eq_error_iff]
    constructor
    · rintro (ha | ⟨c, hc, hl⟩)
      · exact ⟨[], a, l, b, rfl, rfl, ha⟩
      · obtain ⟨before, a', after, c', rfl, hbefore, ha'⟩ := ih.mp hl
        exact ⟨a :: before, a', after, c', rfl, foldlM_cons_eq_ok_iff.mpr ⟨c, hc, hbefore⟩, ha'⟩
    · rintro ⟨before, a', after, c, hsplit, hbefore, ha'⟩
      cases before with
      | nil =>
        obtain ⟨rfl, rfl⟩ := List.cons.inj hsplit
        obtain rfl := Except.ok.inj hbefore
        exact Or.inl ha'
      | cons first before =>
        obtain ⟨rfl, rfl⟩ := List.cons.inj hsplit
        obtain ⟨c', hc', hbefore⟩ := foldlM_cons_eq_ok_iff.mp hbefore
        exact Or.inr ⟨c', hc', ih.mpr ⟨before, a', after, c, rfl, hbefore, ha'⟩⟩

/-! ## Operations -/

/-- An operation on a proof, with its arguments. -/
inductive Operation
  /-- The first identifier to be used is noted. -/
  | begin (firstId : Nat)
  /-- A clause of the formula is recorded, fresh or restored. -/
  | premise (id : Nat) (redundant : Bool) (clause : Clause) (restored : Bool)
  /-- A derived clause is recorded. -/
  | derived (id : Nat) (redundant : Bool) (clause : Clause) (antecedents : List Nat)
  /-- A clause is deleted. -/
  | delete (id : Nat)
  /-- It is concluded that there is no model. -/
  | conclude (conclusion : Conclusion) (chain : List Nat)
  /-- A relative conclusion is withdrawn. -/
  | withdraw
  /-- Everything recorded is released. -/
  | reset

namespace Operation

/-- The proof after an operation, whether or not that was accepted. -/
def apply (p : Proof) : Operation → Proof
  | begin firstId => (p.begin firstId).2
  | premise id redundant clause restored => (p.addPremise id redundant clause restored).2
  | derived id redundant clause antecedents => (p.addDerived id redundant clause antecedents).2
  | delete id => (p.delete id).2
  | conclude conclusion chain => (p.conclude conclusion chain).2
  | withdraw => p.withdraw.2
  | reset => {}

/-- The result of an operation, with its answer read as a key or as none. -/
def answering {α : Type} (key? : α → Option Nat) (result : Except ProofError α × Proof) :
    Except ProofError (Option Nat) × Proof :=
  (result.1.map key?, result.2)

/-- What an operation answers, an error or the key that it returns if it returns one, together
with the proof afterwards. -/
def attempt (p : Proof) : Operation → Except ProofError (Option Nat) × Proof
  | begin firstId => answering (fun _ => none) (p.begin firstId)
  | premise id redundant clause restored =>
    answering some (p.addPremise id redundant clause restored)
  | derived id redundant clause antecedents =>
    answering some (p.addDerived id redundant clause antecedents)
  | delete id => answering some (p.delete id)
  | conclude conclusion chain => answering (fun _ => none) (p.conclude conclusion chain)
  | withdraw => answering (fun _ => none) p.withdraw
  | reset => (.ok none, {})

theorem snd_attempt (p : Proof) (operation : Operation) :
    (operation.attempt p).2 = operation.apply p := by
  cases operation <;> rfl

/-- The identifiers of the clauses that an operation derives something from. -/
def refersTo : Operation → List Nat
  | derived _ _ _ antecedents => antecedents
  | conclude _ chain => chain
  | _ => []

/-- The identifier of the clause that an operation brings in, if it brings one in. -/
def newId? : Operation → Option Nat
  | premise id .. => some id
  | derived id .. => some id
  | _ => none

/-- The record that an operation makes, if it makes one, when the clauses that it refers to
are recorded at the keys listed. -/
def record? (keys : List Nat) : Operation → Option Record
  | premise id redundant clause _ => some (.premise id redundant clause)
  | derived id redundant clause _ => some (.derived id redundant clause keys)
  | conclude .conflict _ => some (.unnamed keys)
  | _ => none

end Operation

namespace Proof

/-- The proof with a record made for an identifier, which is active from then on. -/
def entered (p : Proof) (id : Nat) (record : Record) : Proof :=
  { p with
    records := p.records.push record
    active := p.active.insert id p.size
    deleted := p.deleted.erase id }

/-- The proof with the record of an active clause made inactive. -/
def removed (p : Proof) (id key : Nat) : Proof :=
  { p.mark key false with
    active := p.active.erase id
    deleted := p.deleted.insert id key }

/-! ## What is looked at first -/

theorem checkOpen_eq_ok_iff {p : Proof} : p.checkOpen = .ok () ↔ p.concluded = false := by
  unfold checkOpen
  cases p.concluded <;> simp

/-- A clause passes when the formula has not been refuted and its literals are
proper. -/
theorem checkClause_eq_ok_iff {p : Proof} {id : Nat} {clause : Clause} :
    p.checkClause id clause = .ok () ↔ p.concluded = false ∧ ∀ l ∈ clause, l.Proper := by
  rw [← checkOpen_eq_ok_iff, ← @checkLiterals_eq_ok_iff id, checkClause, bind_eq_ok_iff]
  exact ⟨fun ⟨_, hopen, hliterals⟩ => ⟨hopen, hliterals⟩,
    fun ⟨hopen, hliterals⟩ => ⟨(), hopen, hliterals⟩⟩

theorem store?_of_lt {p : Proof} (h : p.size < capacity) (record : Record) :
    p.store? record = some (p.size, { p with records := p.records.push record }) := if_pos h

theorem store?_of_not_lt {p : Proof} (h : ¬ p.size < capacity) (record : Record) :
    p.store? record = none := if_neg h

theorem enter_of_lt {p : Proof} (h : p.size < capacity) (id : Nat) (record : Record) :
    p.enter id record = (.ok p.size, p.entered id record) := by
  have hstore := store?_of_lt (p := { p with deleted := p.deleted.erase id }) h record
  simp only [enter, hstore]
  rfl

theorem enter_of_not_lt {p : Proof} (h : ¬ p.size < capacity) (id : Nat) (record : Record) :
    p.enter id record = (.error .storageExhausted, { p with deleted := p.deleted.erase id }) := by
  have hstore := store?_of_not_lt (p := { p with deleted := p.deleted.erase id }) h record
  simp only [enter, hstore]

/-- The empty clause that a chain leads to is the only member of it, or is derived. -/
theorem witness_cases (p : Proof) (key : Nat) (keys : List Nat) :
    (keys = [] ∧ p.witness (key :: keys) = .ok (some key, p) ∧
        ∃ record, p.record? key = some record ∧ record.clause = []) ∨
      p.witness (key :: keys) = witness.derive p (key :: keys) := by
  cases keys with
  | cons k ks => exact Or.inr rfl
  | nil =>
    cases hrecord : p.record? key with
    | none => exact Or.inr (by simp only [witness, hrecord])
    | some record =>
      obtain ⟨id, clause, redundant, source, antecedents, active⟩ := record
      cases clause with
      | nil => exact Or.inl ⟨rfl, by simp only [witness, hrecord], _, rfl, rfl⟩
      | cons l rest => exact Or.inr (by simp only [witness, hrecord])

end Proof

/-! ## Outcomes -/

namespace Operation

/-- What an operation can answer and leave of a proof. -/
inductive Outcome (p : Proof) : Operation → Except ProofError (Option Nat) × Proof → Prop
  /-- The operation is refused, and nothing is changed. -/
  | refused {operation : Operation} (cause : ProofError) : Outcome p operation (.error cause, p)
  /-- There is no room for a record, and its identifier is no longer a deleted one. -/
  | full {operation : Operation} (id : Nat) : operation.newId? = some id →
      p.concluded = false → p.activeKey? id = none → ¬ p.size < Proof.capacity →
      Outcome p operation (.error .storageExhausted, { p with deleted := p.deleted.erase id })
  /-- The first identifier is noted. -/
  | begun (firstId : Nat) : p.firstId = none →
      Outcome p (.begin firstId) (.ok none, { p with firstId := some firstId })
  /-- A clause is put back that is active, and its record is kept. -/
  | kept (id : Nat) (redundant : Bool) (clause : Clause) (key : Nat) : p.concluded = false →
      (∀ l ∈ clause, l.Proper) → p.activeKey? id = some key →
      Outcome p (.premise id redundant clause true) (.ok (some key), p)
  /-- A clause is put back that was deleted, and its record is made active again. -/
  | revived (id : Nat) (redundant : Bool) (clause : Clause) (key : Nat) : p.concluded = false →
      (∀ l ∈ clause, l.Proper) → p.activeKey? id = none → p.revivable? id clause = some key →
      Outcome p (.premise id redundant clause true) (.ok (some key), p.revive id key)
  /-- A record is made of a clause of the formula. -/
  | premise (id : Nat) (redundant : Bool) (clause : Clause) (restored : Bool) :
      p.concluded = false → (∀ l ∈ clause, l.Proper) → p.activeKey? id = none →
      (restored = true → p.revivable? id clause = none) → p.size < Proof.capacity →
      Outcome p (.premise id redundant clause restored)
        (.ok (some p.size), p.entered id (.premise id redundant clause))
  /-- A record is made of a derived clause. -/
  | derived (id : Nat) (redundant : Bool) (clause : Clause) (ids keys : List Nat) :
      p.concluded = false → (∀ l ∈ clause, l.Proper) → p.activeKey? id = none →
      p.resolveIds ids = .ok keys → p.size < Proof.capacity →
      Outcome p (.derived id redundant clause ids)
        (.ok (some p.size), p.entered id (.derived id redundant clause keys))
  /-- A record is made inactive. -/
  | deleted (id key : Nat) : p.activeKey? id = some key →
      Outcome p (.delete id) (.ok (some key), p.removed id key)
  /-- There is no model relative to something else. -/
  | relative (conclusion : Conclusion) (chain keys : List Nat) : conclusion ≠ .conflict →
      p.concluded = false → p.resolveIds chain = .ok keys →
      Outcome p (.conclude conclusion chain)
        (.ok none, { p with refutation := some ⟨conclusion, chain, none⟩ })
  /-- The formula is refuted, and it is not said how. -/
  | unwitnessed : p.concluded = false →
      Outcome p (.conclude .conflict [])
        (.ok none, { p with refutation := some ⟨.conflict, [], none⟩ })
  /-- The formula is refuted by an empty clause on record. -/
  | witnessed (chain : List Nat) (key : Nat) (record : Record) : p.concluded = false →
      p.resolveIds chain = .ok [key] → p.record? key = some record → record.clause = [] →
      Outcome p (.conclude .conflict chain)
        (.ok none, { p with refutation := some ⟨.conflict, chain, some key⟩ })
  /-- The formula is refuted by an empty clause that is recorded for the purpose. -/
  | concluded (chain keys : List Nat) : p.concluded = false → p.resolveIds chain = .ok keys →
      keys ≠ [] → p.size < Proof.capacity →
      Outcome p (.conclude .conflict chain)
        (.ok none, { p with
          records := p.records.push (.unnamed keys)
          refutation := some ⟨.conflict, chain, some p.size⟩ })
  /-- A relative conclusion is withdrawn. -/
  | withdrawn : p.concluded = false →
      Outcome p .withdraw (.ok none, { p with refutation := none })
  /-- Everything is released. -/
  | reset : Outcome p .reset (.ok none, {})

variable (p : Proof)

theorem outcome_premise (id : Nat) (redundant : Bool) (clause : Clause) (restored : Bool) :
    Outcome p (.premise id redundant clause restored)
      (attempt p (.premise id redundant clause restored)) := by
  show Outcome p _ (answering some (p.addPremise id redundant clause restored))
  unfold Proof.addPremise
  cases hcheck : p.checkClause id clause with
  | error e => exact .refused e
  | ok u =>
    obtain ⟨hopen, hproper⟩ := Proof.checkClause_eq_ok_iff.mp hcheck
    cases hid : p.activeKey? id with
    | some key =>
      cases restored with
      | false => exact .refused (.duplicateClause id)
      | true => exact .kept id redundant clause key hopen hproper hid
    | none =>
      -- a clause is entered when it is fresh, and when there is no record of it to revive
      have hentered (hrevive : restored = true → p.revivable? id clause = none) :
          Outcome p (.premise id redundant clause restored)
            (answering some (p.enter id (.premise id redundant clause))) := by
        by_cases hsize : p.size < Proof.capacity
        · rw [Proof.enter_of_lt hsize]
          exact .premise id redundant clause restored hopen hproper hid hrevive hsize
        · rw [Proof.enter_of_not_lt hsize]
          exact .full id rfl hopen hid hsize
      cases restored with
      | false => exact hentered fun h => absurd h Bool.false_ne_true
      | true =>
        cases hrevive : p.revivable? id clause with
        | none => exact hentered fun _ => hrevive
        | some key => exact .revived id redundant clause key hopen hproper hid hrevive

theorem outcome_derived (id : Nat) (redundant : Bool) (clause : Clause) (ids : List Nat) :
    Outcome p (.derived id redundant clause ids)
      (attempt p (.derived id redundant clause ids)) := by
  show Outcome p _ (answering some (p.addDerived id redundant clause ids))
  unfold Proof.addDerived
  cases hcheck : p.checkClause id clause with
  | error e => exact .refused e
  | ok u =>
    obtain ⟨hopen, hproper⟩ := Proof.checkClause_eq_ok_iff.mp hcheck
    cases hcontains : p.contains id with
    | true => exact .refused (.duplicateClause id)
    | false =>
      have hid : p.activeKey? id = none := by
        simpa [Proof.contains, Proof.activeKey?, NatMap.contains] using hcontains
      cases hkeys : p.resolveIds ids with
      | error antecedent => exact .refused (.danglingAntecedent id antecedent)
      | ok keys =>
        show Outcome p _ (answering some (p.enter id (.derived id redundant clause keys)))
        by_cases hsize : p.size < Proof.capacity
        · rw [Proof.enter_of_lt hsize]
          exact .derived id redundant clause ids keys hopen hproper hid hkeys hsize
        · rw [Proof.enter_of_not_lt hsize]
          exact .full id rfl hopen hid hsize

theorem outcome_conclude (conclusion : Conclusion) (chain : List Nat) :
    Outcome p (.conclude conclusion chain) (attempt p (.conclude conclusion chain)) := by
  show Outcome p _ (answering (fun _ => none) (p.conclude conclusion chain))
  unfold Proof.conclude
  cases hcheck : p.checkOpen with
  | error e => exact .refused e
  | ok u =>
    have hopen := Proof.checkOpen_eq_ok_iff.mp hcheck
    cases hkeys : p.resolveIds chain with
    | error id => exact .refused (.unknownClause id)
    | ok keys =>
      cases conclusion with
      | assumptions => exact .relative .assumptions chain keys (by decide) hopen hkeys
      | constraint => exact .relative .constraint chain keys (by decide) hopen hkeys
      | conflict =>
        cases keys with
        | nil =>
          obtain rfl : chain = [] := by
            simpa using Proof.resolveIds_eq_ok_iff.mp hkeys
          exact .unwitnessed hopen
        | cons key keys =>
          rcases Proof.witness_cases p key keys with
            ⟨rfl, hwitness, record, hrecord, hclause⟩ | hderive
          · simp only [hwitness]
            exact .witnessed chain key record hopen hkeys hrecord hclause
          · by_cases hsize : p.size < Proof.capacity
            · simp only [hderive, Proof.witness.derive, Proof.store?_of_lt hsize]
              exact .concluded chain (key :: keys) hopen hkeys (List.cons_ne_nil key keys) hsize
            · simp only [hderive, Proof.witness.derive, Proof.store?_of_not_lt hsize]
              exact .refused .storageExhausted

/-- **What an operation answers and leaves behind is one of the outcomes.** -/
theorem outcome_attempt (operation : Operation) : Outcome p operation (operation.attempt p) := by
  cases operation with
  | «begin» firstId =>
    show Outcome p _ (answering (fun _ => none) (p.begin firstId))
    unfold Proof.begin
    cases hfirst : p.firstId with
    | some id => exact .refused .proofAlreadyBegun
    | none => exact .begun firstId hfirst
  | premise id redundant clause restored => exact outcome_premise p id redundant clause restored
  | derived id redundant clause ids => exact outcome_derived p id redundant clause ids
  | delete id =>
    show Outcome p _ (answering some (p.delete id))
    unfold Proof.delete
    cases hid : p.activeKey? id with
    | none => exact .refused (.unknownClause id)
    | some key => exact .deleted id key hid
  | conclude conclusion chain => exact outcome_conclude p conclusion chain
  | withdraw =>
    show Outcome p _ (answering (fun _ => none) p.withdraw)
    unfold Proof.withdraw
    cases hcheck : p.checkOpen with
    | error e => exact .refused e
    | ok u => exact .withdrawn (Proof.checkOpen_eq_ok_iff.mp hcheck)
  | reset => exact .reset

/-! ## Refusals -/

variable {p : Proof} {operation : Operation}

/-- A refusal leaves everything as it was, as long as there is a key to spare. -/
theorem Outcome.eq_of_error {result : Except ProofError (Option Nat) × Proof} {cause : ProofError}
    (h : Outcome p operation result) (hsize : p.size < Proof.capacity)
    (herror : result.1 = .error cause) : result.2 = p := by
  cases h with
  | refused => rfl
  | full _ _ _ _ hfull => exact absurd hsize hfull
  | _ => exact absurd herror (by simp)

/-! ## Acceptance -/

/-- Whether an operation reaches a conclusion. -/
def concludes : Operation → Bool
  | conclude .. => true
  | _ => false

/-- **Where the conditions of an outcome other than a refusal are met, that is the outcome.**  The
conditions for a conclusion overlap, since an empty clause on record could have been derived
again as well. -/
theorem Outcome.attempt_eq {result : Except ProofError (Option Nat) × Proof}
    (h : Outcome p operation result) {key : Option Nat} (hok : result.1 = .ok key)
    (hconcludes : operation.concludes = false) : operation.attempt p = result := by
  have hclause {id : Nat} {clause : Clause} (hopen : p.concluded = false)
      (hproper : ∀ l ∈ clause, l.Proper) : p.checkClause id clause = .ok () :=
    Proof.checkClause_eq_ok_iff.mpr ⟨hopen, hproper⟩
  cases h with
  | refused | full => exact absurd hok (by simp)
  | relative | unwitnessed | witnessed | concluded => exact absurd hconcludes (by simp [concludes])
  | begun firstId hfirst =>
    simp only [attempt, Proof.begin, hfirst]
    rfl
  | kept id redundant clause key hopen hproper hid =>
    simp only [attempt, Proof.addPremise, hclause hopen hproper, hid]
    rfl
  | revived id redundant clause key hopen hproper hid hrevive =>
    simp only [attempt, Proof.addPremise, hclause hopen hproper, hid, hrevive]
    rfl
  | premise id redundant clause restored hopen hproper hid hrevive hsize =>
    have henter := Proof.enter_of_lt hsize id (.premise id redundant clause)
    cases restored with
    | false =>
      simp only [attempt, Proof.addPremise, hclause hopen hproper, hid, henter]
      rfl
    | true =>
      simp only [attempt, Proof.addPremise, hclause hopen hproper, hid, hrevive rfl, henter]
      rfl
  | derived id redundant clause ids keys hopen hproper hid hkeys hsize =>
    have hcontains : p.contains id = false := by
      rw [Proof.contains, NatMap.contains, show p.active.find? id = none from hid]
      rfl
    have henter := Proof.enter_of_lt hsize id (.derived id redundant clause keys)
    simp only [attempt, Proof.addDerived, hclause hopen hproper, hcontains, hkeys, henter]
    rfl
  | deleted id key hid =>
    simp only [attempt, Proof.delete, hid]
    rfl
  | withdrawn hopen =>
    simp only [attempt, Proof.withdraw, Proof.checkOpen_eq_ok_iff.mpr hopen]
    rfl
  | reset => rfl

/-! ## The conclusion on record -/

variable {result : Except ProofError (Option Nat) × Proof}

/-- Whether an operation may bear on the conclusion on record. -/
def decides : Operation → Bool
  | conclude .. => true
  | withdraw => true
  | reset => true
  | _ => false

/-- Other operations leave the conclusion on record. -/
theorem Outcome.refutation_eq (h : Outcome p operation result)
    (hdecides : operation.decides = false) : result.2.refutation = p.refutation := by
  cases h with
  | relative | unwitnessed | witnessed | concluded | withdrawn | reset =>
    exact absurd hdecides (by simp [decides])
  | refused | full | begun | kept | revived | premise | derived | deleted => rfl

/-- So does whatever is refused. -/
theorem Outcome.refutation_of_error {cause : ProofError} (h : Outcome p operation result)
    (herror : result.1 = .error cause) : result.2.refutation = p.refutation := by
  cases h with
  | refused | full => rfl
  | _ => exact absurd herror (by simp)

/-- Once a conclusion is accepted there is one on record. -/
theorem Outcome.refutation_of_conclude {conclusion : Conclusion} {chain : List Nat}
    {key : Option Nat} (h : Outcome p (.conclude conclusion chain) result)
    (hok : result.1 = .ok key) :
    ∃ witness, result.2.refutation = some ⟨conclusion, chain, witness⟩ := by
  cases h with
  | refused | full => exact absurd hok (by simp)
  | relative | unwitnessed | witnessed | concluded => exact ⟨_, rfl⟩

/-- Once the withdrawal of a conclusion is accepted there is none on record. -/
theorem Outcome.refutation_of_withdraw {key : Option Nat} (h : Outcome p .withdraw result)
    (hok : result.1 = .ok key) : result.2.refutation = none := by
  cases h with
  | refused | full => exact absurd hok (by simp)
  | withdrawn => rfl

/-- **Once the formula is refuted nothing but a release of everything bears on that.** -/
theorem Outcome.refutation_of_concluded (h : Outcome p operation result)
    (hconcluded : p.concluded = true) (hreset : operation ≠ .reset) :
    result.2.refutation = p.refutation := by
  have hclosed : ¬ p.concluded = false := by simp [hconcluded]
  cases h with
  | relative _ _ _ _ hopen => exact absurd hopen hclosed
  | unwitnessed hopen => exact absurd hopen hclosed
  | witnessed _ _ _ hopen => exact absurd hopen hclosed
  | concluded _ _ hopen => exact absurd hopen hclosed
  | withdrawn hopen => exact absurd hopen hclosed
  | reset => exact absurd rfl hreset
  | refused | full | begun | kept | revived | premise | derived | deleted => rfl

/-- From then on there are no new records either. -/
theorem Outcome.size_of_concluded (h : Outcome p operation result)
    (hconcluded : p.concluded = true) (hreset : operation ≠ .reset) :
    result.2.size = p.size := by
  have hclosed : ¬ p.concluded = false := by simp [hconcluded]
  cases h with
  | kept _ _ _ _ hopen => exact absurd hopen hclosed
  | revived _ _ _ _ hopen => exact absurd hopen hclosed
  | premise _ _ _ _ hopen => exact absurd hopen hclosed
  | derived _ _ _ _ _ hopen => exact absurd hopen hclosed
  | concluded _ _ hopen => exact absurd hopen hclosed
  | reset => exact absurd rfl hreset
  | deleted id key => exact Array.size_modify
  | refused | full | begun | relative | unwitnessed | witnessed | withdrawn => rfl

end Operation
end Interpolation
