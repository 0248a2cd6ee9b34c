import Interpolation.Proofs.ForwardedLogs

/-!
# What a conclusion may name

A solver that works under assumptions announces clauses of negated assumptions, and concludes in
the end that there is no model under the assumptions, or under a constraint.  A scribe keeps
nothing of an assumption clause.  It passes the clause on, and is otherwise as if nothing had been
announced; so the identifier of the clause becomes that of an active clause no more than it was
before.

A conclusion has to name active clauses.  So an assumption clause is not what it may name, although
the solver has announced it: the conclusion is refused, for an identifier that is not that of an
active clause.  When all that it names are active a relative conclusion is accepted, unless the
formula itself has been refuted.

* `Proof.resolveIds_eq_error_iff` --- the first identifier that is not active is reported;
* `Journal.keepAll_filter` --- assumption clauses have no say in what is kept;
* `Journal.exists_newId_of_contains` --- where active identifiers come from;
* `Scribe.note_relative_conclusion` --- which relative conclusions are accepted after any events.
-/

namespace Interpolation

/-! ## Identifiers that are active -/

namespace Proof

variable {p : Proof} {id : Nat}

theorem contains_eq_true_iff : p.contains id = true ↔ ∃ key, p.activeKey? id = some key :=
  Option.isSome_iff_exists

theorem contains_eq_false_iff : p.contains id = false ↔ p.activeKey? id = none :=
  Option.isSome_eq_false_iff.trans Option.isNone_iff_eq_none

/-- **Of identifiers that are looked up the first that is not active is reported.** -/
theorem resolveIds_eq_error_iff {ids : List Nat} :
    p.resolveIds ids = .error id ↔
      ∃ front back, ids = front ++ id :: back ∧ (∀ k ∈ front, p.contains k = true) ∧
        p.contains id = false := by
  induction ids with
  | nil => simp [resolveIds]
  | cons first rest ih =>
    unfold resolveIds
    cases hfirst : p.activeKey? first with
    | none =>
      have hnot := contains_eq_false_iff.mpr hfirst
      constructor
      · intro h
        obtain rfl := Except.error.inj h
        exact ⟨[], rest, rfl, List.forall_mem_nil _, hnot⟩
      · rintro ⟨front, back, hsplit, hfront, -⟩
        cases front with
        | nil =>
          obtain ⟨rfl, -⟩ := List.cons.inj hsplit
          rfl
        | cons k front =>
          obtain ⟨rfl, -⟩ := List.cons.inj hsplit
          rw [hfront first List.mem_cons_self] at hnot
          exact absurd hnot (by simp)
    | some key =>
      have hactive := contains_eq_true_iff.mpr ⟨key, hfirst⟩
      have hrest : (p.resolveIds rest).map (key :: ·) = .error id ↔
          p.resolveIds rest = .error id := by
        cases p.resolveIds rest <;> simp [Except.map]
      dsimp only
      rw [hrest, ih]
      constructor
      · rintro ⟨front, back, rfl, hfront, hnot⟩
        exact ⟨first :: front, back, rfl, List.forall_mem_cons.mpr ⟨hactive, hfront⟩, hnot⟩
      · rintro ⟨front, back, hsplit, hfront, hnot⟩
        cases front with
        | nil =>
          obtain ⟨rfl, -⟩ := List.cons.inj hsplit
          rw [hactive] at hnot
          exact absurd hnot (by simp)
        | cons k front =>
          obtain ⟨rfl, hrest⟩ := List.cons.inj hsplit
          exact ⟨front, back, hrest, (List.forall_mem_cons.mp hfront).2, hnot⟩

theorem exists_resolveIds {ids : List Nat} (h : ∀ k ∈ ids, p.contains k = true) :
    ∃ keys, p.resolveIds ids = .ok keys := by
  cases hkeys : p.resolveIds ids with
  | ok keys => exact ⟨keys, rfl⟩
  | error id =>
    obtain ⟨front, back, rfl, -, hnot⟩ := resolveIds_eq_error_iff.mp hkeys
    rw [h id (by simp)] at hnot
    exact absurd hnot (by simp)

variable {conclusion : Conclusion} {chain : List Nat}

/-- A conclusion that names a clause which is not active is refused. -/
theorem conclude_of_unknown (hopen : p.concluded = false) (h : p.resolveIds chain = .error id) :
    p.conclude conclusion chain = (.error (.unknownClause id), p) := by
  simp only [conclude, checkOpen_eq_ok_iff.mpr hopen, h]

/-- A relative conclusion that names active clauses is accepted. -/
theorem conclude_of_relative (hopen : p.concluded = false) (hconclusion : conclusion ≠ .conflict)
    (h : ∀ k ∈ chain, p.contains k = true) :
    p.conclude conclusion chain =
      (.ok (), { p with refutation := some ⟨conclusion, chain, none⟩ }) := by
  obtain ⟨keys, hkeys⟩ := exists_resolveIds h
  cases conclusion with
  | conflict => exact absurd rfl hconclusion
  | assumptions | constraint => simp only [conclude, checkOpen_eq_ok_iff.mpr hopen, hkeys]

end Proof

/-- Whether an event announces a clause of negated assumptions. -/
def Event.isAssumptionClause : Event → Bool
  | .assumptionClause .. => true
  | _ => false

/-- An identifier that is active after an operation was so before, or was brought in by it. -/
theorem Operation.Outcome.contains {p : Proof} {operation : Operation}
    {result : Except ProofError (Option Nat) × Proof} (h : Outcome p operation result) {id : Nat}
    (hid : result.2.contains id = true) : p.contains id = true ∨ operation.newId? = some id := by
  have hinsert {other key : Nat} (hinserted : (p.active.insert other key).contains id = true) :
      p.contains id = true ∨ some other = some id := by
    rw [NatMap.contains, NatMap.find?_insert] at hinserted
    split at hinserted
    · rename_i heq
      exact Or.inr (congrArg some heq.symm)
    · exact Or.inl hinserted
  cases h with
  | revived | premise | derived => exact hinsert hid
  | deleted other key =>
    change (p.active.erase other).contains id = true at hid
    rw [NatMap.contains, NatMap.find?_erase] at hid
    split at hid
    · exact absurd hid (by simp)
    · exact Or.inl hid
  | reset => exact absurd hid Bool.false_ne_true
  | refused | full | begun | kept | relative | unwitnessed | witnessed | concluded | withdrawn =>
    exact Or.inl hid

namespace Journal

open Keeper

variable {j : Journal}

/-! ## Assumption clauses -/

/-- **Assumption clauses have no say in what is kept.** -/
theorem keepAll_filter (j : Journal) (events : List Event) :
    keepAll j (events.filter fun e => !e.isAssumptionClause) = keepAll j events := by
  induction events generalizing j with
  | nil => rfl
  | cons e rest ih =>
    cases hannounces : e.isAssumptionClause with
    | false =>
      rw [List.filter_cons_of_pos (by rw [hannounces]; rfl)]
      exact ih _
    | true =>
      rw [List.filter_cons_of_neg (by rw [hannounces]; decide), ih]
      cases e with
      | assumptionClause => rfl
      | _ => exact absurd hannounces Bool.false_ne_true

/-- **Only premises and derived clauses make an identifier active.** -/
theorem exists_newId_of_contains {events : List Event} {id : Nat}
    (h : (keepAll j events).proof.contains id = true) :
    j.proof.contains id = true ∨ ∃ e ∈ events, e.newId? = some id := by
  induction events generalizing j with
  | nil => exact Or.inl h
  | cons e rest ih =>
    rcases ih h with hkept | ⟨e', he', hid⟩
    · change (j.keep e).2.proof.contains id = true at hkept
      rw [proof_keep] at hkept
      cases hoperation : e.operation? with
      | none =>
        rw [hoperation] at hkept
        exact Or.inl hkept
      | some operation =>
        rw [hoperation] at hkept
        dsimp only at hkept
        rw [← Operation.snd_attempt] at hkept
        rcases (Operation.outcome_attempt j.proof operation).contains hkept with hold | hnew
        · exact Or.inl hold
        · refine Or.inr ⟨e, List.mem_cons_self, ?_⟩
          rw [Event.newId?, hoperation]
          exact hnew
    · exact Or.inr ⟨e', List.mem_cons_of_mem e he', hid⟩

variable {conclusion : Conclusion} {chain : List Nat}

theorem keep_unsat_of_unknown {id : Nat} (hopen : j.proof.concluded = false)
    (h : j.proof.resolveIds chain = .error id) :
    j.keep (.unsat conclusion chain) = (.error (.unknownClause id), j) := by
  simp only [keep, Proof.conclude_of_unknown hopen h, settle]

theorem keep_unsat_of_relative (hopen : j.proof.concluded = false)
    (hconclusion : conclusion ≠ .conflict) (h : ∀ k ∈ chain, j.proof.contains k = true) :
    j.keep (.unsat conclusion chain) =
      (.ok (), { j with
        proof := { j.proof with refutation := some ⟨conclusion, chain, none⟩ }
        phase := .unsatisfiable }) := by
  simp only [keep, Proof.conclude_of_relative hopen hconclusion h, settle]

end Journal

namespace Scribe

open Observer Keeper

variable {ε τ : Type} [Observer ε τ]

/-- **A relative conclusion is accepted just when it names active clauses, and to announce an
assumption clause makes none active.**  Tell any scribe of any events.  It keeps what it would have
kept had no assumption clauses been among them, and another one is accepted, passed on and not kept
either.  Unless the formula has been refuted, a conclusion relative to assumptions or a constraint
that names active clauses only is accepted and passed on, and it is then reported that there is no
model.  One that names others is refused for the first of them and goes no further, and nothing is
changed by it; in particular when it names what has been announced as an assumption clause, but was
not active before and is neither a premise nor a derived clause. -/
theorem note_relative_conclusion (surroundings : ε) (s : Scribe τ) (events : List Event) :
    let later := (noteAll surroundings s events).1
    let outside := (noteAll surroundings s events).2
    later.keeper = keepAll s.keeper (events.filter fun e => !e.isAssumptionClause) ∧
      (∀ id clause antecedents,
        (note outside later (.assumptionClause id clause antecedents)).observer.keeper =
            later.keeper ∧
          later.PassedOn outside (.assumptionClause id clause antecedents)) ∧
      (later.keeper.proof.concluded = false → ∀ conclusion, conclusion ≠ .conflict →
        (∀ chain, (∀ id ∈ chain, later.keeper.proof.contains id = true) →
          let concluded := (note outside later (.unsat conclusion chain)).observer.keeper
          later.PassedOn outside (.unsat conclusion chain) ∧ concluded.phase = .unsatisfiable ∧
            concluded.proof =
              { later.keeper.proof with refutation := some ⟨conclusion, chain, none⟩ }) ∧
        (∀ front id back, (∀ k ∈ front, later.keeper.proof.contains k = true) →
          later.keeper.proof.contains id = false →
          note outside later (.unsat conclusion (front ++ id :: back)) =
            ⟨.error (.proof (.unknownClause id)), later, outside⟩) ∧
        ∀ id, s.keeper.proof.contains id = false → (∀ e ∈ events, e.newId? ≠ some id) →
          note outside later (.unsat conclusion [id]) =
            ⟨.error (.proof (.unknownClause id)), later, outside⟩) := by
  intro later outside
  have hkeeper : later.keeper = keepAll s.keeper events :=
    Relay.keeper_noteAll surroundings s events
  have hrefused (hopen : later.keeper.proof.concluded = false) (conclusion : Conclusion)
      (front : List Nat) (id : Nat) (back : List Nat)
      (hfront : ∀ k ∈ front, later.keeper.proof.contains k = true)
      (hid : later.keeper.proof.contains id = false) :
      note outside later (.unsat conclusion (front ++ id :: back)) =
        ⟨.error (.proof (.unknownClause id)), later, outside⟩ := by
    have hkeep : keep later.keeper (.unsat conclusion (front ++ id :: back)) =
        (.error (.unknownClause id), later.keeper) :=
      Journal.keep_unsat_of_unknown hopen
        (Proof.resolveIds_eq_error_iff.mpr ⟨front, back, rfl, hfront, hid⟩)
    exact (Relay.note_of_error (congrArg Prod.fst hkeep)).trans (by rw [hkeep])
  refine ⟨?_, fun id clause antecedents => ⟨?_, ?_⟩, fun hopen conclusion hconclusion => ?_⟩
  · rw [hkeeper, Journal.keepAll_filter]
  · exact Relay.keeper_note
  · exact Relay.passedOn_of_ok rfl
  · refine ⟨fun chain hchain => ?_, ?_, fun id hid hevents => ?_⟩
    · have hkeep := Journal.keep_unsat_of_relative hopen hconclusion hchain
      intro concluded
      have hconcluded : concluded = (later.keeper.keep (.unsat conclusion chain)).2 :=
        Relay.keeper_note
      rw [hconcluded, hkeep]
      exact ⟨Relay.passedOn_of_ok (congrArg Prod.fst hkeep), rfl, rfl⟩
    · exact hrefused hopen conclusion
    · refine hrefused hopen conclusion [] id [] (List.forall_mem_nil _) ?_
      rw [← Bool.not_eq_true]
      intro hactive
      rw [hkeeper] at hactive
      rcases Journal.exists_newId_of_contains hactive with hold | ⟨e, he, hnew⟩
      · rw [hid] at hold
        exact absurd hold (by simp)
      · exact hevents e he hnew

/-- A scribe whose events are recorded. -/
def recordedScribe : Scribe Recorder := { keeper := {}, consumer := some {} }

/-- The clauses `1` and `¬1 ∨ ¬2` are solved under the assumption 2, and its negation follows. -/
def supposingRun : List Event :=
  [.premise 1 false [1] false, .premise 2 false [-1, -2] false, .assume 2, .solve,
    .assumptionClause 3 [-2] [1, 2]]

/-- The conclusion may name the two clauses, and no others. -/
theorem note_relative_conclusion_supposingRun :
    let later := (noteAll () recordedScribe supposingRun).1
    later.keeper.proof.concluded = false ∧ (∀ id ∈ [1, 2], later.keeper.proof.contains id = true) ∧
      later.PassedOn () (.unsat .assumptions [1, 2]) ∧
      (recordedScribe.keeper.proof.contains 3 = false ∧ ∀ e ∈ supposingRun, e.newId? ≠ some 3) ∧
      note () later (.unsat .constraint [3]) = ⟨.error (.proof (.unknownClause 3)), later, ()⟩ := by
  intro later
  have hopen : later.keeper.proof.concluded = false := by decide
  have hactive : ∀ id ∈ [1, 2], later.keeper.proof.contains id = true := by decide
  have hnew : ∀ e ∈ supposingRun, e.newId? ≠ some 3 := by decide
  obtain ⟨-, -, hconclusions⟩ := note_relative_conclusion () recordedScribe supposingRun
  obtain ⟨haccepted, -, -⟩ := hconclusions hopen .assumptions (by decide)
  obtain ⟨-, -, hrefused⟩ := hconclusions hopen .constraint (by decide)
  exact ⟨hopen, hactive, (haccepted [1, 2] hactive).1, ⟨rfl, hnew⟩, hrefused 3 rfl hnew⟩

/-- **The clause that follows from an assumption cannot be named,** although it was announced, and
accepted, with antecedents that are active.  The solve goes on being under way, and the recorder is
not told of the conclusion. -/
theorem unsat_of_assumptionClause :
    let before := (noteAll () recordedScribe (supposingRun.take 4)).1
    let announced := note () before (.assumptionClause 3 [-2] [1, 2])
    let concluded := note () announced.observer (.unsat .assumptions [3])
    before.keeper.proof.concluded = false ∧
      (∀ id ∈ [1, 2], before.keeper.proof.contains id = true) ∧ announced.outcome = .ok () ∧
      concluded.outcome = .error (.proof (.unknownClause 3)) ∧
      concluded.observer.keeper.phase = .solving ∧
      concluded.observer.forwarded = announced.observer.forwarded := by
  decide

end Scribe
end Interpolation
