import Interpolation.Proofs.ReplayFaults

/-!
# Chains of hints can be resolved

A solver checks a derived clause by propagation.  Every literal of the clause is made
false; each antecedent in turn has one literal left that is not false, which is made
true; and the last antecedent has none (`Propagates`).  A replay reads the same chain
backwards, as resolutions, and has to find the pivots.

It always can.  What is carried through the chain is that every literal of the
resolvent is false after the antecedents that are still to come, which are those
earlier in the chain.  A literal of an antecedent whose negation is in the resolvent
is then true at that moment, so it is not one of those that were false before, so it
is the unit.  Hence there is at most one pivot; if there is none the antecedent was
not needed, and the literal that it made true occurs nowhere in the resolvent.  In
the end only literals made false at the start are left, and they are those of the
clause.

It is for the pivot to be unique that the clause must not be a tautology: a literal
would be true and false at once.

* `Propagates.exists_runChain` --- a chain of hints can be resolved, to a part of the
  clause;
* `not_fault_of_propagates` --- a replay of such chains finds fault with nothing;
* `interpolate_of_propagates` --- it has an interpolant, unless fresh variables are
  lacking.
-/

namespace Interpolation

/-- Whether a literal is false when the literals listed are true. -/
def Falsified (assigned : List Literal) (l : Literal) : Prop := l.negate ∈ assigned

instance (assigned : List Literal) (l : Literal) : Decidable (Falsified assigned l) :=
  inferInstanceAs (Decidable (_ ∈ _))

/-- Whether a chain of antecedents propagates to a conflict from the literals assigned.
Each but the last has, up to repetition, one literal that is not false, which is then
made true, and the last has none. -/
def Propagates : List Literal → List Clause → Prop
  | _, [] => False
  | assigned, [last] => ∀ l ∈ last, Falsified assigned l
  | assigned, antecedent :: next :: rest =>
    ∃ unit ∈ antecedent, ¬ Falsified assigned unit ∧
      (∀ l ∈ antecedent, ¬ Falsified assigned l → l = unit) ∧
      Propagates (unit :: assigned) (next :: rest)

/-- Propagation can be carried out. -/
instance decidablePropagates (assigned : List Literal) :
    (chain : List Clause) → Decidable (Propagates assigned chain)
  | [] => inferInstanceAs (Decidable False)
  | [last] => inferInstanceAs (Decidable (∀ l ∈ last, Falsified assigned l))
  | antecedent :: next :: rest =>
    have (unit : Literal) : Decidable (Propagates (unit :: assigned) (next :: rest)) :=
      decidablePropagates (unit :: assigned) (next :: rest)
    inferInstanceAs (Decidable (∃ unit ∈ antecedent, ¬ Falsified assigned unit ∧
      (∀ l ∈ antecedent, ¬ Falsified assigned l → l = unit) ∧
      Propagates (unit :: assigned) (next :: rest)))

/-- Whether no literal is listed together with its negation. -/
def Unopposed (assigned : List Literal) : Prop := ∀ l ∈ assigned, ¬ Falsified assigned l

theorem Unopposed.cons {assigned : List Literal} (h : Unopposed assigned) {unit : Literal}
    (hunit : ¬ Falsified assigned unit) (hproper : unit.toInt ≠ 0) :
    Unopposed (unit :: assigned) := by
  intro l hl hfalse
  rcases List.mem_cons.mp hl with rfl | hl
  · rcases List.mem_cons.mp hfalse with hself | hmem
    · exact Literal.negate_ne_self hproper hself
    · exact hunit hmem
  · rcases List.mem_cons.mp hfalse with heq | hmem
    · refine hunit ?_
      rw [Falsified, ← heq, Literal.negate_negate]
      exact hl
    · exact h l hl hmem

/-- The literals that make a clause false are not opposed, if it is no tautology. -/
theorem unopposed_of_not_isTautology {clause : Clause} (h : clause.isTautology = false) :
    Unopposed (clause.map Literal.negate) := by
  intro l hl hfalse
  obtain ⟨m, hm, rfl⟩ := List.mem_map.mp hl
  obtain ⟨k, hk, hkm⟩ := List.mem_map.mp hfalse
  rw [Literal.negate_inj] at hkm
  refine absurd (Clause.isTautology_iff.mpr ⟨m, hm, ?_⟩) (by simp [h])
  rwa [← hkm]

/-- What is false once more is true is false already, the new literal's negation
apart. -/
theorem Falsified.of_cons {assigned : List Literal} {unit l : Literal}
    (h : Falsified (unit :: assigned) l) (hne : l ≠ unit.negate) : Falsified assigned l := by
  rcases List.mem_cons.mp h with heq | hmem
  · refine absurd ?_ hne
    rw [← heq, Literal.negate_negate]
  · exact hmem

/-! ## One antecedent -/

/-- The only literal of an antecedent whose negation can be in the resolvent is the
unit: any other was false before the antecedent, and cannot be true after it. -/
theorem eq_unit_of_mem {assigned : List Literal} {resolvent antecedent : Clause}
    {unit : Literal} (hopen : Unopposed assigned)
    (hunit : ∀ l ∈ antecedent, ¬ Falsified assigned l → l = unit)
    (hfalse : ∀ l ∈ resolvent, Falsified (unit :: assigned) l) {l : Literal}
    (hl : l ∈ antecedent) (hr : l.negate ∈ resolvent) : l = unit := by
  by_cases hbefore : Falsified assigned l
  · have htrue := hfalse l.negate hr
    rw [Falsified, Literal.negate_negate] at htrue
    rcases List.mem_cons.mp htrue with heq | hmem
    · exact heq
    · exact absurd hbefore (hopen l hmem)
  · exact hunit l hl hbefore

/-- **An antecedent is resolved on its unit or skipped, and the resolvent is false
before it.** -/
theorem exists_runChain_step {assigned : List Literal} {resolvent antecedent : Clause}
    {unit : Literal} (hopen : Unopposed assigned) (hmem : unit ∈ antecedent)
    (hunit : ∀ l ∈ antecedent, ¬ Falsified assigned l → l = unit)
    (hfalse : ∀ l ∈ resolvent, Falsified (unit :: assigned) l) :
    ∃ run, runChain false resolvent [antecedent] = some run ∧
      ∀ l ∈ run.resolvent, Falsified assigned l := by
  by_cases hclash : unit.negate ∈ resolvent
  · have hon : clash resolvent antecedent = .on unit :=
      clash_eq_on_iff.mpr ⟨⟨hmem, hclash⟩, fun l hl hr => eq_unit_of_mem hopen hunit hfalse hl hr⟩
    refine ⟨⟨resolve resolvent antecedent unit, [some unit]⟩, ?_, ?_⟩
    · rw [runChain, hon]
      rfl
    · intro l hl
      rcases mem_resolve_iff.mp hl with ⟨hl, hne⟩ | ⟨hl, hne⟩
      · exact (hfalse l hl).of_cons hne
      · exact Decidable.byContradiction fun hn => hne (hunit l hl hn)
  · have habsent : clash resolvent antecedent = .absent := by
      refine clash_eq_absent_iff.mpr fun l hl hr => hclash ?_
      rwa [eq_unit_of_mem hopen hunit hfalse hl hr] at hr
    refine ⟨⟨resolvent, [none]⟩, ?_, ?_⟩
    · rw [runChain, habsent]
      rfl
    · intro l hl
      refine (hfalse l hl).of_cons fun heq => hclash ?_
      rwa [← heq]

/-! ## The whole chain -/

/-- A chain may be read in two pieces. -/
theorem runChain_append {strict : Bool} {resolvent : Clause} {front back : List Clause}
    {run run' : ChainRun} (h : runChain strict resolvent front = some run)
    (h' : runChain strict run.resolvent back = some run') :
    runChain strict resolvent (front ++ back) =
      some ⟨run'.resolvent, run.pivots ++ run'.pivots⟩ := by
  induction front generalizing resolvent run with
  | nil =>
    obtain rfl := Option.some.inj h
    exact h'
  | cons antecedent front ih =>
    rw [List.cons_append]
    unfold runChain at h ⊢
    cases hclash : clash resolvent antecedent with
    | several =>
      rw [hclash] at h
      exact absurd h (by simp)
    | absent =>
      cases strict with
      | true =>
        rw [hclash] at h
        exact absurd h (by simp)
      | false =>
        rw [hclash] at h
        obtain ⟨run₀, hrun₀, rfl⟩ := Option.map_eq_some_iff.mp h
        have := ih hrun₀ h'
        simp [this]
    | on pivot =>
      rw [hclash] at h
      obtain ⟨run₀, hrun₀, rfl⟩ := Option.map_eq_some_iff.mp h
      have := ih hrun₀ h'
      simp [this]

/-- **A chain of hints can be resolved,** and the resolvent is false when the chain is
begun. -/
theorem Propagates.exists_runChain {assigned : List Literal} {chain : List Clause}
    (hopen : Unopposed assigned) (hproper : ∀ c ∈ chain, ∀ l ∈ c, l.toInt ≠ 0)
    (h : Propagates assigned chain) :
    ∃ last front run, chain.reverse = last :: front ∧ runChain false last front = some run ∧
      ∀ l ∈ run.resolvent, Falsified assigned l := by
  induction chain generalizing assigned with
  | nil => exact h.elim
  | cons antecedent rest ih =>
    cases rest with
    | nil => exact ⟨antecedent, [], ⟨antecedent, []⟩, rfl, rfl, h⟩
    | cons next rest =>
      obtain ⟨unit, hmem, hnot, hunit, hrest⟩ := h
      have hcons := hopen.cons hnot (hproper antecedent List.mem_cons_self unit hmem)
      obtain ⟨last, front, run, hreverse, hrun, hfalse⟩ :=
        ih hcons (fun c hc => hproper c (List.mem_cons_of_mem antecedent hc)) hrest
      obtain ⟨run', hrun', hfalse'⟩ := exists_runChain_step hopen hmem hunit hfalse
      refine ⟨last, front ++ [antecedent], _, ?_, runChain_append hrun hrun', hfalse'⟩
      rw [List.reverse_cons, hreverse, List.cons_append]

/-! ## A refutation by hints -/

/-- Whether every derived clause that the refutation rests on, the empty clause at the
end included, is no tautology and is reached by propagation. -/
def Proof.Propagated (p : Proof) : Prop :=
  ∀ key record, p.RestsOn key → p.record? key = some record → record.source = .derived →
    record.clause.isTautology = false ∧
      Propagates (record.clause.map Literal.negate) (record.antecedents.map p.clauseAt)

namespace Labelling

/-- Whether no premise that the refutation rests on has a variable that is local to the
other part. -/
def Partitions (labels : Labelling) (p : Proof) : Prop :=
  ∀ part clause, labels.Premise p part clause → ∀ l ∈ clause, labels.Allows part l

end Labelling

variable {p : Proof} {labels : Labelling} {config : Config}

theorem Proof.WellFormed.proper_clauseAt (hp : p.WellFormed) {key : Nat} {l : Literal}
    (hl : l ∈ p.clauseAt key) : l.Proper := by
  unfold clauseAt at hl
  split at hl
  · rename_i record hrecord
    exact hp.proper hrecord l hl
  · exact absurd hl List.not_mem_nil

/-- **A clause that is reached by propagation follows from its antecedents,** as long as skipping
is allowed. -/
theorem not_unfounded_of_propagates (hp : p.WellFormed)
    (hstrict : config.strictChains.value = false) {record : Record}
    (htautology : record.clause.isTautology = false)
    (hpropagates : Propagates (record.clause.map Literal.negate)
      (record.antecedents.map p.clauseAt)) : ¬ record.Unfounded p config := by
  have hproper : ∀ c ∈ record.antecedents.map p.clauseAt, ∀ l ∈ c, l.toInt ≠ 0 := by
    intro c hc l hl
    obtain ⟨k, -, rfl⟩ := List.mem_map.mp hc
    exact (hp.proper_clauseAt hl).1
  obtain ⟨last, front, run, hreverse, hrun, hfalse⟩ :=
    hpropagates.exists_runChain (unopposed_of_not_isTautology htautology) hproper
  rw [← List.map_reverse] at hreverse
  rw [unfounded_iff hreverse, hstrict, hrun]
  rintro (hnone | ⟨run', hrun', hderives⟩)
  · exact absurd hnone (by simp)
  · obtain rfl := Option.some.inj hrun'
    obtain ⟨-, l, hl, hnot⟩ := derives_eq_false_iff.mp hderives
    -- what is false from the start is a literal of the clause
    obtain ⟨m, hm, hml⟩ := List.mem_map.mp (hfalse l hl)
    rw [Literal.negate_inj.mp hml] at hm
    exact hnot hm

/-- **In a refutation by hints nothing is at fault.** -/
theorem not_fault_of_propagates (hp : p.WellFormed) (hstrict : config.strictChains.value = false)
    (hpartitions : labels.Partitions p) (hpropagated : p.Propagated) {key : Nat}
    {e : InterpolationError} (hrests : p.RestsOn key) : ¬ p.Fault labels config key e := by
  have hfounded {record : Record} (hrecord : p.record? key = some record)
      (hsource : record.source = .derived) : ¬ record.Unfounded p config := by
    obtain ⟨htautology, hpropagates⟩ := hpropagated key record hrests hrecord hsource
    exact not_unfounded_of_propagates hp hstrict htautology hpropagates
  intro h
  cases h with
  | @mislabelled record id part front l back hrecord hsource hid hpart hsplit _ hnot =>
    have hpremise : labels.Premise p part record.clause :=
      ⟨key, record, hrests, hrecord, hsource, hpart, rfl⟩
    refine hnot (hpartitions part record.clause hpremise l ?_)
    rw [hsplit]
    simp
  | unfounded hrecord hsource _ hunfounded => exact hfounded hrecord hsource hunfounded
  | unrefuted hrecord hsource _ hunfounded => exact hfounded hrecord hsource hunfounded

/-! ## Completeness -/

/-- A refutation of the formula that names clauses has an empty clause on record. -/
theorem exists_witnessOf (hp : p.WellFormed) {r : Refutation} (hr : p.refutation = some r)
    (hconflict : r.conclusion = .conflict) (hchain : r.chain ≠ []) :
    ∃ witness, witnessOf p = .ok witness := by
  obtain ⟨witness, hwitness⟩ := hp.witnessed hr hconflict hchain
  exact ⟨witness, witnessOf_eq_ok_iff.mpr ⟨r, hr, hconflict, hwitness⟩⟩

/-- **A refutation by hints has an interpolant,** unless the counter is no fresh
variable or there are too few of them.  Hints that turn out not to be needed do no
harm. -/
theorem interpolate_of_propagates (hp : p.Reachable) {r : Refutation}
    (hr : p.refutation = some r) (hconflict : r.conclusion = .conflict) (hchain : r.chain ≠ [])
    (hmode : config.mode.value = .asymmetric) (hstrict : config.strictChains.value = false)
    (hcovers : labels.Covers p) (hpartitions : labels.Partitions p) (hpropagated : p.Propagated)
    (next : Nat) :
    (∃ i, interpolate p labels config next = .ok i) ∨
      interpolate p labels config next = .error (.invalidFreshVariable next) ∨
      interpolate p labels config next = .error .atomsExhausted := by
  obtain ⟨witness, hwitness⟩ := exists_witnessOf hp.wellFormed hr hconflict hchain
  exact interpolate_of_sound hp hwitness hmode hcovers (fun key e hrests =>
    not_fault_of_propagates hp.wellFormed hstrict hpartitions hpropagated hrests) next

/-- The hypotheses hold of `splitRefutation`, where the hint `2 ∨ 4` is not needed. -/
theorem splitLabelling_conditions :
    splitLabelling.Covers splitRefutation ∧ splitLabelling.Partitions splitRefutation ∧
      splitRefutation.Propagated := by
  refine ⟨?_, ?_, ?_⟩
  · have hall : ∀ key < 7, (splitRefutation.record? key).all (fun record =>
        record.source = .premise → (splitLabelling.partAt? key).isSome) = true := by decide
    intro key record hrecord hsource
    have := hall key (Proof.lt_size_of_record? hrecord)
    rw [hrecord] at this
    exact of_decide_eq_true this hsource
  · have hall : ∀ key < 7, (splitLabelling.partAt? key).all (fun part =>
        (splitRefutation.record? key).all fun record =>
          ∀ l ∈ record.clause, splitLabelling.Allows part l) = true := by decide
    rintro part clause ⟨key, record, -, hrecord, -, hpart, rfl⟩
    have := hall key (Proof.lt_size_of_record? hrecord)
    rw [hpart, hrecord] at this
    exact of_decide_eq_true this
  · have hall : ∀ key < 7, (splitRefutation.record? key).all (fun record =>
        record.source = .derived → record.clause.isTautology = false ∧
          Propagates (record.clause.map Literal.negate)
            (record.antecedents.map splitRefutation.clauseAt)) = true := by decide
    intro key record _ hrecord hsource
    have := hall key (Proof.lt_size_of_record? hrecord)
    rw [hrecord] at this
    exact of_decide_eq_true this hsource

/-- Hints that are not needed included, `splitRefutation` is not rejected. -/
theorem interpolate_of_propagates_splitRefutation :
    splitRefutation.Reachable ∧
      splitRefutation.refutation = some ⟨.conflict, [3, 4, 6], some 6⟩ ∧
      ({} : Config).mode.value = .asymmetric ∧ ({} : Config).strictChains.value = false ∧
      splitLabelling.Covers splitRefutation ∧ splitLabelling.Partitions splitRefutation ∧
      splitRefutation.Propagated ∧
      ((∃ i, interpolate splitRefutation splitLabelling {} 20 = .ok i) ∨
        interpolate splitRefutation splitLabelling {} 20 = .error (.invalidFreshVariable 20) ∨
        interpolate splitRefutation splitLabelling {} 20 = .error .atomsExhausted) :=
  ⟨reachable_splitRefutation, rfl, rfl, rfl, splitLabelling_conditions.1,
    splitLabelling_conditions.2.1, splitLabelling_conditions.2.2,
    interpolate_of_propagates reachable_splitRefutation rfl rfl (List.cons_ne_nil 3 [4, 6]) rfl
      rfl splitLabelling_conditions.1 splitLabelling_conditions.2.1
      splitLabelling_conditions.2.2 20⟩

end Interpolation
