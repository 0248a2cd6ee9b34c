import Interpolation.Proofs.Ancestry
import Interpolation.Proofs.Naming
import Interpolation.Proofs.Replays
import Mathlib.Data.Finset.Card
import Mathlib.Data.Finset.Image

/-!
# What a replay finds fault with

A refutation can be on record and still not stand up to a replay.  A clause that is recorded as
derived need not follow from its antecedents, and the labels need not divide the formula.  What is
at fault can be said of each record by itself, without any replay (`Proof.Fault`).  A premise is
at fault if it has a variable that is local to the other part.  A derived clause is at fault if it
has no antecedents; or if one of them, read backwards, clashes with what the others have been
resolved to more than once, or not at all where that is not allowed; or if a literal is left over
that the clause does not have.  The chain is described for this by sets of literals
(`resolvedWith`), where the replay works on lists and looks for a pivot.

A replay fails just when a record that the refutation rests on is at fault, and then it names
the first of them.  Two things have to be seen for that.  Whatever a record was derived from is
visited before it, so that nothing is ever looked up in vain; and visiting a record fails, or does
not fail, whatever partial interpolants have been found so far.

* `runChain_eq_none_iff`, `toFinset_resolvent` --- chains, as chains of sets;
* `Replay.visit_eq_error_iff` --- visiting one record fails just when it is at fault;
* `visitAll_eq_error_iff` --- a replay fails at the first fault;
* `interpolate_outcomes` --- what comes of interpolating a refutation.
-/

namespace Interpolation

/-! ## Chains of sets -/

/-- The literals of an antecedent whose negations are in a resolvent. -/
def clashing (resolvent antecedent : Finset Literal) : Finset Literal :=
  antecedent.filter fun l => l.negate ∈ resolvent

/-- Whether a chain cannot be read past an antecedent: it clashes more than once or, where the
chain is read strictly, not at all. -/
def Stops (strict : Bool) (resolvent antecedent : Finset Literal) : Prop :=
  1 < (clashing resolvent antecedent).card ∨ strict = true ∧ clashing resolvent antecedent = ∅

/-- What an antecedent makes of a resolvent.  If they do not clash the antecedent is skipped, and
otherwise the two are joined without the literals on which they do. -/
def resolvedWith (resolvent antecedent : Finset Literal) : Finset Literal :=
  if clashing resolvent antecedent = ∅ then resolvent
  else resolvent \ (clashing resolvent antecedent).image Literal.negate ∪
    antecedent \ clashing resolvent antecedent

variable {strict : Bool} {r a : Clause} {chain : List Clause}

theorem mem_clashing_toFinset_iff {l : Literal} :
    l ∈ clashing r.toFinset a.toFinset ↔ l ∈ a ∧ l.negate ∈ r := by
  rw [clashing, Finset.mem_filter, List.mem_toFinset, List.mem_toFinset]

theorem clashing_toFinset_eq_empty_iff :
    clashing r.toFinset a.toFinset = ∅ ↔ clash r a = .absent := by
  rw [clash_eq_absent_iff, Finset.eq_empty_iff_forall_notMem]
  simp only [mem_clashing_toFinset_iff, not_and]

theorem clashing_toFinset_eq_singleton_iff {pivot : Literal} :
    clashing r.toFinset a.toFinset = {pivot} ↔ clash r a = .on pivot := by
  rw [clash_eq_on_iff, Finset.eq_singleton_iff_unique_mem]
  simp only [mem_clashing_toFinset_iff, and_imp]

/-- An antecedent that a chain can be read past is skipped or resolved on a pivot, and what is
left of the two are the literals that should be. -/
theorem exists_resolvedWith (h : ¬ Stops strict r.toFinset a.toFinset) (rest : List Clause) :
    ∃ r' pivot, List.toFinset r' = resolvedWith r.toFinset a.toFinset ∧
      runChain strict r (a :: rest) =
        (runChain strict r' rest).map fun run => { run with pivots := pivot :: run.pivots } := by
  obtain ⟨hcard, hstrict⟩ := not_or.mp h
  by_cases hempty : clashing r.toFinset a.toFinset = ∅
  · have hstrict : strict = false := by simpa [hempty] using hstrict
    refine ⟨r, none, (if_pos hempty).symm, ?_⟩
    rw [runChain, clashing_toFinset_eq_empty_iff.mp hempty, hstrict]
    rfl
  · have hsome : 0 < (clashing r.toFinset a.toFinset).card :=
      Finset.card_pos.mpr (Finset.nonempty_of_ne_empty hempty)
    have hone : (clashing r.toFinset a.toFinset).card = 1 :=
      Nat.le_antisymm (Nat.not_lt.mp hcard) hsome
    obtain ⟨pivot, hpivot⟩ := Finset.card_eq_one.mp hone
    refine ⟨resolve r a pivot, some pivot, ?_, ?_⟩
    · ext l
      rw [resolvedWith, if_neg hempty, hpivot]
      simp only [List.mem_toFinset, mem_resolve_iff, Finset.mem_union, Finset.mem_sdiff,
        Finset.image_singleton, Finset.mem_singleton]
    · rw [runChain, clashing_toFinset_eq_singleton_iff.mp hpivot]

/-- And nothing comes of a chain that cannot be read past its first antecedent. -/
theorem runChain_eq_none_of_stops (h : Stops strict r.toFinset a.toFinset) (rest : List Clause) :
    runChain strict r (a :: rest) = none := by
  unfold runChain
  cases hclash : clash r a with
  | several => rfl
  | absent =>
    rw [← clashing_toFinset_eq_empty_iff] at hclash
    rcases h with hcard | ⟨hstrict, -⟩
    · rw [hclash] at hcard
      exact absurd hcard (by simp)
    · rw [hstrict]
      rfl
  | on pivot =>
    rw [← clashing_toFinset_eq_singleton_iff] at hclash
    rcases h with hcard | ⟨-, hempty⟩
    · rw [hclash] at hcard
      exact absurd hcard (by simp)
    · rw [hclash] at hempty
      exact absurd hempty (Finset.singleton_ne_empty pivot)

/-- **Nothing comes of a chain just when it cannot be read past one of its antecedents.** -/
theorem runChain_eq_none_iff :
    runChain strict r chain = none ↔
      ∃ before antecedent after, chain.map List.toFinset = before ++ antecedent :: after ∧
        Stops strict (before.foldl resolvedWith r.toFinset) antecedent := by
  induction chain generalizing r with
  | nil => simp [runChain]
  | cons a rest ih =>
    by_cases hstops : Stops strict r.toFinset a.toFinset
    · exact iff_of_true (runChain_eq_none_of_stops hstops rest) ⟨[], _, _, rfl, hstops⟩
    · obtain ⟨r', pivot, hr', hrun⟩ := exists_resolvedWith hstops rest
      rw [hrun, Option.map_eq_none_iff, ih, hr']
      constructor
      · rintro ⟨before, antecedent, after, hsplit, hstop⟩
        refine ⟨a.toFinset :: before, antecedent, after, ?_, hstop⟩
        rw [List.map_cons, hsplit, List.cons_append]
      · rintro ⟨before, antecedent, after, hsplit, hstop⟩
        cases before with
        | nil =>
          obtain ⟨rfl, -⟩ := List.cons.inj hsplit
          exact absurd hstop hstops
        | cons first before =>
          obtain ⟨rfl, hrest⟩ := List.cons.inj hsplit
          exact ⟨before, antecedent, after, hrest, hstop⟩

/-- **What a chain resolves to,** as a set of literals. -/
theorem toFinset_resolvent {run : ChainRun} (h : runChain strict r chain = some run) :
    run.resolvent.toFinset = (chain.map List.toFinset).foldl resolvedWith r.toFinset := by
  induction chain generalizing r run with
  | nil =>
    obtain rfl := Option.some.inj h
    rfl
  | cons a rest ih =>
    have hstops : ¬ Stops strict r.toFinset a.toFinset := by
      intro hstops
      rw [runChain_eq_none_of_stops hstops rest] at h
      exact absurd h (by simp)
    obtain ⟨r', pivot, hr', hrun⟩ := exists_resolvedWith hstops rest
    rw [hrun] at h
    obtain ⟨run', hrun', rfl⟩ := Option.map_eq_some_iff.mp h
    rw [List.map_cons, List.foldl_cons, ← hr', ← ih hrun']

/-! ## Faults -/

/-- The clause recorded at a key. -/
def Proof.clauseAt (p : Proof) (key : Nat) : Clause :=
  match p.record? key with
  | some record => record.clause
  | none => []

/-- The clauses that a record was derived from, as sets of literals, the last of the chain
first. -/
def Proof.backwards (p : Proof) (record : Record) : List (Finset Literal) :=
  record.antecedents.reverse.map fun key => (p.clauseAt key).toFinset

/-- Whether a clause does not follow from what it was derived from. -/
inductive Record.Unfounded (p : Proof) (config : Config) (record : Record) : Prop
  /-- It was derived from nothing. -/
  | bare : record.antecedents = [] → Unfounded p config record
  /-- The chain cannot be read past one of the antecedents. -/
  | stopped (last : Finset Literal) (before : List (Finset Literal)) (antecedent : Finset Literal)
      (after : List (Finset Literal)) :
      p.backwards record = last :: (before ++ antecedent :: after) →
      Stops config.strictChains.value (before.foldl resolvedWith last) antecedent →
      Unfounded p config record
  /-- A literal is left over that the clause does not have.  Unless the clause is empty, it
  depends on the settings whether that matters. -/
  | excessive (last : Finset Literal) (rest : List (Finset Literal)) (l : Literal) :
      p.backwards record = last :: rest →
      config.checkDerivations.value = true ∨ record.clause = [] →
      l ∈ rest.foldl resolvedWith last → l ∉ record.clause → Unfounded p config record

/-- What is at fault with the record at a key, by the error that it leads to. -/
inductive Proof.Fault (p : Proof) (labels : Labelling) (config : Config) (key : Nat) :
    InterpolationError → Prop
  /-- A premise has a variable that is local to the other part.  The first such literal is the
  one that matters. -/
  | mislabelled {record : Record} {id : Nat} {part : Part} (front : Clause) (l : Literal)
      (back : Clause) : p.record? key = some record → record.source = .premise →
      record.id = some id → labels.partAt? key = some part → record.clause = front ++ l :: back →
      (∀ m ∈ front, labels.Allows part m) → ¬ labels.Allows part l →
      Fault p labels config key (.mislabelledVariable id l.atom)
  /-- A clause with an identifier does not follow from its antecedents. -/
  | unfounded {record : Record} {id : Nat} : p.record? key = some record →
      record.source = .derived → record.id = some id → record.Unfounded p config →
      Fault p labels config key (.malformedProof id)
  /-- The empty clause that the solver concluded with and never named does not follow. -/
  | unrefuted {record : Record} : p.record? key = some record → record.source = .derived →
      record.id = none → record.Unfounded p config → Fault p labels config key .malformedRefutation

/-- Whether the record at a key is the first at fault of those that the refutation rests on. -/
structure Proof.FirstFault (p : Proof) (labels : Labelling) (config : Config) (key : Nat)
    (e : InterpolationError) : Prop where
  /-- The refutation rests on it. -/
  restsOn : p.RestsOn key
  /-- It is at fault. -/
  fault : p.Fault labels config key e
  /-- None before it is. -/
  first : ∀ k < key, p.RestsOn k → ∀ e', ¬ p.Fault labels config k e'

namespace Labelling

/-- Whether a premise that has no label is recorded at a key. -/
def Unlabelled (labels : Labelling) (p : Proof) (key : Nat) : Prop :=
  ∃ record, p.record? key = some record ∧ record.source = .premise ∧ labels.partAt? key = none

/-- Whether every premise on record is labelled. -/
def Covers (labels : Labelling) (p : Proof) : Prop :=
  ∀ key record, p.record? key = some record → record.source = .premise →
    (labels.partAt? key).isSome

end Labelling

variable {p : Proof} {labels : Labelling} {config : Config} {replay : Replay} {key : Nat}
  {record : Record} {e : InterpolationError}

theorem Proof.clauseAt_of_record? (h : p.record? key = some record) :
    p.clauseAt key = record.clause := by
  rw [clauseAt, h]

/-- Premises have identifiers. -/
theorem Proof.Reachable.exists_id (hp : p.Reachable) (hrecord : p.record? key = some record)
    (hsource : record.source = .premise) : ∃ id, record.id = some id := by
  induction hp generalizing key record with
  | start => exact absurd (lt_size_of_record? hrecord) (Nat.not_lt_zero key)
  | step operation hp ih =>
    by_cases hreset : operation = .reset
    · subst hreset
      exact absurd (lt_size_of_record? hrecord) (Nat.not_lt_zero key)
    · rcases (Operation.effect_apply _ hreset).exists_former hrecord with
        ⟨former, hformer, hagrees⟩ | ⟨-, keys, -, hmade⟩
      · rw [hagrees.id]
        exact ih hformer (hagrees.source.symm.trans hsource)
      · -- only the empty clause of a conclusion is recorded without one, and it is derived
        cases operation with
        | premise id redundant clause restored =>
          obtain rfl := Option.some.inj hmade
          exact ⟨id, rfl⟩
        | derived id redundant clause antecedents =>
          obtain rfl := Option.some.inj hmade
          exact ⟨id, rfl⟩
        | conclude conclusion chain =>
          cases conclusion with
          | conflict =>
            obtain rfl := Option.some.inj hmade
            exact absurd hsource (by simp [Record.unnamed])
          | assumptions => exact absurd hmade.symm (Option.some_ne_none record)
          | constraint => exact absurd hmade.symm (Option.some_ne_none record)
        | «begin» | delete | withdraw | reset =>
          exact absurd hmade.symm (Option.some_ne_none record)

/-! ## One record -/

/-- A literal of a premise is an error just when the part may not have it. -/
theorem addLiteral_eq_error_iff {part : Part} {id : Nat} {state : Edge × Circuit} {l : Literal} :
    addLiteral labels part id state l = .error e ↔
      ¬ labels.Allows part l ∧ e = .mislabelledVariable id l.atom := by
  unfold addLiteral Labelling.Allows
  cases hscope : labels.scopeOf l.atom with
  | shared => cases part <;> simp
  | localTo owner =>
    by_cases howner : owner = part
    · simp [howner]
    · dsimp only
      rw [if_neg howner, Except.error.injEq]
      exact ⟨fun h => ⟨by simp [howner], h.symm⟩, fun h => h.2.symm⟩

/-- A premise whose literals the part may have is no error. -/
theorem exists_premiseInterpolant {part : Part} {clause : Clause}
    (h : ∀ l ∈ clause, labels.Allows part l) (id : Nat) (c : Circuit) :
    ∃ made, premiseInterpolant labels c part id clause = .ok made := by
  cases hmade : premiseInterpolant labels c part id clause with
  | ok made => exact ⟨made, rfl⟩
  | error e =>
    obtain ⟨before, l, after, middle, rfl, -, hl⟩ := foldlM_eq_error_iff.mp hmade
    exact absurd (h l (by simp)) (addLiteral_eq_error_iff.mp hl).1

/-- **A premise fails at the first literal that its part may not have.** -/
theorem premiseInterpolant_eq_error_iff {c : Circuit} {part : Part} {id : Nat} {clause : Clause} :
    premiseInterpolant labels c part id clause = .error e ↔
      ∃ front l back, clause = front ++ l :: back ∧ (∀ m ∈ front, labels.Allows part m) ∧
        ¬ labels.Allows part l ∧ e = .mislabelledVariable id l.atom := by
  rw [premiseInterpolant, foldlM_eq_error_iff]
  constructor
  · rintro ⟨front, l, back, middle, hsplit, hfront, hl⟩
    obtain ⟨hnot, he⟩ := addLiteral_eq_error_iff.mp hl
    refine ⟨front, l, back, hsplit, fun m hm => ?_, hnot, he⟩
    obtain ⟨state, made, hm⟩ := exists_of_foldlM_eq_ok hfront m hm
    exact (addLiteral_cases hm).1
  · rintro ⟨front, l, back, hsplit, hfront, hnot, he⟩
    obtain ⟨middle, hmiddle⟩ := exists_premiseInterpolant hfront id c
    exact ⟨front, l, back, middle, hsplit, hmiddle, addLiteral_eq_error_iff.mpr ⟨hnot, he⟩⟩

/-- The antecedents of a record are found, when all of them were visited. -/
theorem mapM_antecedent? {keys : List Nat}
    (hvisited : ∀ k ∈ keys, k < p.size ∧ ∃ edge, replay.interpolants.find? k = some edge) :
    ∃ steps, keys.mapM (antecedent? p replay) = some steps ∧
      steps.map (·.1) = keys.map p.clauseAt := by
  refine ⟨keys.map fun k => (p.clauseAt k, (replay.interpolants.find? k).getD .bottom), ?_, ?_⟩
  · rw [mapM_eq_some_iff, List.map_map]
    refine List.map_congr_left fun k hk => ?_
    obtain ⟨hlt, edge, hedge⟩ := hvisited k hk
    obtain ⟨record, hrecord⟩ : ∃ record, p.record? k = some record :=
      ⟨_, Array.getElem?_eq_getElem hlt⟩
    rw [Function.comp_apply, hedge, Option.getD_some, antecedent?_eq_some_iff]
    exact ⟨by rw [hrecord, p.clauseAt_of_record? hrecord]; rfl, hedge⟩
  · rw [List.map_map]
    rfl

/-- A resolvent is not acceptable when it has a literal that matters and is not in the clause. -/
theorem derives_eq_false_iff {resolvent clause : Clause} :
    derives config resolvent clause = false ↔
      (config.checkDerivations.value = true ∨ clause = []) ∧ ∃ l ∈ resolvent, l ∉ clause := by
  rw [derives, Bool.or_eq_false_iff, Bool.not_eq_false', Bool.or_eq_true, List.isEmpty_iff,
    List.all_eq_false]
  simp

/-- What it is for a clause not to follow from its antecedents, in terms of its chain. -/
theorem unfounded_iff {last : Clause} {rest : List Clause}
    (hchain : record.antecedents.reverse.map p.clauseAt = last :: rest) :
    record.Unfounded p config ↔ runChain config.strictChains.value last rest = none ∨
      ∃ run, runChain config.strictChains.value last rest = some run ∧
        derives config run.resolvent record.clause = false := by
  have hbackwards : p.backwards record = last.toFinset :: rest.map List.toFinset := by
    rw [← List.map_cons, ← hchain, List.map_map]
    rfl
  constructor
  · rintro (hbare | ⟨last', before, antecedent, after, hsplit, hstops⟩ |
      ⟨last', rest', l, hsplit, hmatters, hl, hnot⟩)
    · rw [hbare] at hchain
      exact absurd hchain (by simp)
    · rw [hbackwards] at hsplit
      obtain ⟨rfl, hrest⟩ := List.cons.inj hsplit
      exact Or.inl (runChain_eq_none_iff.mpr ⟨before, antecedent, after, hrest, hstops⟩)
    · rw [hbackwards] at hsplit
      obtain ⟨rfl, rfl⟩ := List.cons.inj hsplit
      cases hrun : runChain config.strictChains.value last rest with
      | none => exact Or.inl rfl
      | some run =>
        refine Or.inr ⟨run, rfl, derives_eq_false_iff.mpr ⟨hmatters, l, ?_, hnot⟩⟩
        rwa [← toFinset_resolvent hrun, List.mem_toFinset] at hl
  · rintro (hnone | ⟨run, hrun, hderives⟩)
    · obtain ⟨before, antecedent, after, hsplit, hstops⟩ := runChain_eq_none_iff.mp hnone
      exact .stopped last.toFinset before antecedent after (hsplit ▸ hbackwards) hstops
    · obtain ⟨hmatters, l, hl, hnot⟩ := derives_eq_false_iff.mp hderives
      refine .excessive last.toFinset _ l hbackwards hmatters ?_ hnot
      rwa [← toFinset_resolvent hrun, List.mem_toFinset]

/-- **A derived clause fails just when it does not follow,** once its antecedents have been
visited. -/
theorem derivedInterpolant_eq_error_iff
    (hvisited : ∀ k ∈ record.antecedents,
      k < p.size ∧ ∃ edge, replay.interpolants.find? k = some edge) :
    derivedInterpolant p labels config replay record = .error e ↔
      record.Unfounded p config ∧ e = malformed record := by
  obtain ⟨steps, hsteps, hchain⟩ := mapM_antecedent? fun k hk => hvisited k (List.mem_reverse.mp hk)
  unfold derivedInterpolant
  rw [hsteps]
  cases steps with
  | nil =>
    have hbare : record.antecedents = [] := by simpa using hchain.symm
    exact ⟨fun h => ⟨.bare hbare, (Except.error.inj h).symm⟩, fun h => congrArg _ h.2.symm⟩
  | cons step rest =>
    rw [unfounded_iff hchain.symm]
    dsimp only
    cases hrun : runChain config.strictChains.value step.1 (rest.map (·.1)) with
    | none =>
      exact ⟨fun h => ⟨Or.inl rfl, (Except.error.inj h).symm⟩, fun h => congrArg _ h.2.symm⟩
    | some run =>
      cases hderives : derives config run.resolvent record.clause with
      | true => simp [hderives]
      | false =>
        dsimp only
        rw [hderives, if_neg Bool.false_ne_true]
        refine ⟨fun h => ⟨Or.inr ⟨run, rfl, hderives⟩, ?_⟩, fun h => congrArg _ h.2.symm⟩
        exact (Except.error.inj h).symm

/-- What is at fault with a derived clause. -/
theorem Proof.fault_iff_of_derived (hrecord : p.record? key = some record)
    (hsource : record.source = .derived) :
    p.Fault labels config key e ↔ record.Unfounded p config ∧ e = malformed record := by
  constructor
  · intro h
    cases h with
    | mislabelled front l back hrecord' hsource' =>
      obtain rfl := Option.some.inj (hrecord.symm.trans hrecord')
      rw [hsource] at hsource'
      exact absurd hsource' (by simp)
    | unfounded hrecord' _ hid hunfounded =>
      obtain rfl := Option.some.inj (hrecord.symm.trans hrecord')
      exact ⟨hunfounded, by rw [malformed, hid]⟩
    | unrefuted hrecord' _ hid hunfounded =>
      obtain rfl := Option.some.inj (hrecord.symm.trans hrecord')
      exact ⟨hunfounded, by rw [malformed, hid]⟩
  · rintro ⟨hunfounded, rfl⟩
    rw [malformed]
    cases hid : record.id with
    | none => exact .unrefuted hrecord hsource hid hunfounded
    | some id => exact .unfounded hrecord hsource hid hunfounded

/-- What is at fault with a premise. -/
theorem Proof.fault_iff_of_premise {id : Nat} {part : Part} (hrecord : p.record? key = some record)
    (hsource : record.source = .premise) (hid : record.id = some id)
    (hpart : labels.partAt? key = some part) :
    p.Fault labels config key e ↔
      ∃ front l back, record.clause = front ++ l :: back ∧ (∀ m ∈ front, labels.Allows part m) ∧
        ¬ labels.Allows part l ∧ e = .mislabelledVariable id l.atom := by
  constructor
  · intro h
    cases h with
    | mislabelled front l back hrecord' _ hid' hpart' hsplit hfront hnot =>
      obtain rfl := Option.some.inj (hrecord.symm.trans hrecord')
      obtain rfl := Option.some.inj (hid.symm.trans hid')
      obtain rfl := Option.some.inj (hpart.symm.trans hpart')
      exact ⟨front, l, back, hsplit, hfront, hnot, rfl⟩
    | unfounded hrecord' hsource' | unrefuted hrecord' hsource' =>
      obtain rfl := Option.some.inj (hrecord.symm.trans hrecord')
      rw [hsource] at hsource'
      exact absurd hsource' (by simp)
  · rintro ⟨front, l, back, hsplit, hfront, hnot, rfl⟩
    exact .mislabelled front l back hrecord hsource hid hpart hsplit hfront hnot

/-- **Visiting a record fails just when it is at fault,** once what it was derived from has been
visited. -/
theorem Replay.visit_eq_error_iff (hp : p.Reachable) (hcovers : labels.Covers p)
    (hlt : key < p.size) (hvisited : ∀ k ∈ p.antecedentsAt key,
      k < p.size ∧ ∃ edge, replay.interpolants.find? k = some edge) :
    replay.visit p labels config key = .error e ↔ p.Fault labels config key e := by
  obtain ⟨record, hrecord⟩ : ∃ record, p.record? key = some record :=
    ⟨_, Array.getElem?_eq_getElem hlt⟩
  have hvisit : replay.visit p labels config key = .error e ↔
      recordInterpolant p labels config replay key record = .error e := by
    rw [visit_of_record? hrecord]
    cases recordInterpolant p labels config replay key record <;> simp [Except.map]
  rw [hvisit, recordInterpolant]
  cases hsource : record.source with
  | derived =>
    rw [Proof.antecedentsAt, hrecord] at hvisited
    rw [Proof.fault_iff_of_derived hrecord hsource]
    exact derivedInterpolant_eq_error_iff hvisited
  | premise =>
    obtain ⟨id, hid⟩ := hp.exists_id hrecord hsource
    obtain ⟨part, hpart⟩ := Option.isSome_iff_exists.mp (hcovers key record hrecord hsource)
    rw [Proof.fault_iff_of_premise hrecord hsource hid hpart, hpart, hid]
    exact premiseInterpolant_eq_error_iff

/-! ## The records in order -/

/-- The refutation rests only on what is on record. -/
theorem Proof.RestsOn.lt_size (hp : p.WellFormed) (h : p.RestsOn key) : key < p.size := by
  obtain ⟨r, witness, hr, hwitness, hreaches⟩ := h
  obtain ⟨record, hrecord, -⟩ := hp.empty hr hwitness
  exact Nat.lt_of_le_of_lt (hreaches.le hp.descends_antecedentsAt) (lt_size_of_record? hrecord)

/-- A record that has been visited has an edge from then on. -/
theorem Replay.exists_find? {keys : List Nat} {result : Replay} {k : Nat}
    (h : keys.foldlM (Replay.visit p labels config) replay = .ok result)
    (hk : k ∈ keys ∨ ∃ edge, replay.interpolants.find? k = some edge) :
    ∃ edge, result.interpolants.find? k = some edge := by
  induction keys generalizing replay with
  | nil =>
    obtain rfl := Except.ok.inj h
    exact hk.resolve_left List.not_mem_nil
  | cons key keys ih =>
    obtain ⟨middle, hvisit, h⟩ := foldlM_cons_eq_ok_iff.mp h
    obtain ⟨record, made, -, -, rfl⟩ := visit_cases hvisit
    refine ih h ?_
    rw [List.mem_cons, or_assoc] at hk
    rw [NatMap.find?_insert]
    split
    · exact Or.inr ⟨made.1, rfl⟩
    · rename_i hne
      exact hk.resolve_left hne

section

variable {witness : Nat} (hp : p.Reachable) (hwitness : witnessOf p = .ok witness)
  (hcovers : labels.Covers p)

include hp hwitness hcovers

/-- When the replay has come to a record, visiting it fails just when it is at fault: what the
record was derived from is in the cone, and before the record. -/
theorem Replay.visit_eq_error_iff_of_split {before after : List Nat}
    (hcone : cone p.antecedentsAt witness = before ++ key :: after)
    (hbefore : before.foldlM (Replay.visit p labels config) {} = .ok replay) :
    replay.visit p labels config key = .error e ↔ p.Fault labels config key e := by
  have hdescends := hp.wellFormed.descends_antecedentsAt
  have hmem : key ∈ cone p.antecedentsAt witness := by
    rw [hcone]
    exact List.mem_append_right _ List.mem_cons_self
  have hlt := ((mem_cone_iff_restsOn hp.wellFormed hwitness).mp hmem).lt_size hp.wellFormed
  refine visit_eq_error_iff hp hcovers hlt fun k hk => ?_
  have hkey := hdescends key k hk
  have hkcone := mem_cone_of_mem hdescends hmem hk
  exact ⟨Nat.lt_trans hkey hlt,
    exists_find? hbefore (Or.inl (mem_of_split (pairwise_cone witness) hcone hkcone hkey))⟩

/-- **A replay fails just when a record that the refutation rests on is at fault, and names the
first of them.** -/
theorem visitAll_eq_error_iff :
    Replay.visitAll p labels config (cone p.antecedentsAt witness) = .error e ↔
      ∃ key, p.FirstFault labels config key e := by
  have hrests (key : Nat) : key ∈ cone p.antecedentsAt witness ↔ p.RestsOn key :=
    mem_cone_iff_restsOn hp.wellFormed hwitness
  unfold Replay.visitAll
  constructor
  · intro h
    obtain ⟨before, key, after, replay, hcone, hbefore, hvisit⟩ := foldlM_eq_error_iff.mp h
    have hmem : key ∈ cone p.antecedentsAt witness := by
      rw [hcone]
      exact List.mem_append_right _ List.mem_cons_self
    refine ⟨key, (hrests key).mp hmem,
      (Replay.visit_eq_error_iff_of_split hp hwitness hcovers hcone hbefore).mp hvisit, ?_⟩
    -- a record before it was visited without an error, and so is not at fault
    intro k hk hkrests e' hfault
    have hkbefore := mem_of_split (pairwise_cone witness) hcone ((hrests k).mpr hkrests) hk
    obtain ⟨front, back, rfl⟩ := List.append_of_mem hkbefore
    rw [List.foldlM_append] at hbefore
    obtain ⟨middle, hfront, hback⟩ := bind_eq_ok_iff.mp hbefore
    obtain ⟨next, hk, -⟩ := foldlM_cons_eq_ok_iff.mp hback
    rw [List.append_assoc] at hcone
    rw [(Replay.visit_eq_error_iff_of_split hp hwitness hcovers hcone hfront).mpr hfault] at hk
    exact absurd hk (by simp)
  · rintro ⟨key, hkey, hfault, hfirst⟩
    obtain ⟨before, after, hcone⟩ := List.append_of_mem ((hrests key).mpr hkey)
    cases hbefore : before.foldlM (Replay.visit p labels config) {} with
    | ok replay =>
      refine foldlM_eq_error_iff.mpr ⟨before, key, after, replay, hcone, hbefore, ?_⟩
      exact (Replay.visit_eq_error_iff_of_split hp hwitness hcovers hcone hbefore).mpr hfault
    | error e' =>
      -- then a record before it was at fault
      obtain ⟨front, k, back, replay, rfl, hfront, hvisit⟩ := foldlM_eq_error_iff.mp hbefore
      have hk : k < key := by
        have hpairwise : (cone p.antecedentsAt witness).Pairwise (· < ·) := pairwise_cone witness
        rw [hcone] at hpairwise
        exact (List.pairwise_append.mp hpairwise).2.2 k (by simp) key List.mem_cons_self
      have hkmem : k ∈ cone p.antecedentsAt witness := by
        rw [hcone]
        simp
      rw [List.append_assoc] at hcone
      exact absurd ((Replay.visit_eq_error_iff_of_split hp hwitness hcovers hcone hfront).mp hvisit)
        (hfirst k hk ((hrests k).mp hkmem) e')

/-- A replay where nothing is at fault succeeds, and has an edge for the empty clause. -/
theorem exists_visitAll (hsound : ∀ key e, p.RestsOn key → ¬ p.Fault labels config key e) :
    ∃ replay edge, Replay.visitAll p labels config (cone p.antecedentsAt witness) = .ok replay ∧
      replay.interpolants.find? witness = some edge := by
  cases h : Replay.visitAll p labels config (cone p.antecedentsAt witness) with
  | error e =>
    obtain ⟨key, hfirst⟩ := (visitAll_eq_error_iff hp hwitness hcovers).mp h
    exact absurd hfirst.fault (hsound key e hfirst.restsOn)
  | ok replay =>
    obtain ⟨edge, hedge⟩ := Replay.exists_find? h
      (Or.inl (mem_cone_self hp.wellFormed.descends_antecedentsAt witness))
    exact ⟨replay, edge, rfl, hedge⟩

end

/-- Where there is a fault there is a first one. -/
theorem Proof.exists_firstFault (hrests : p.RestsOn key) (hfault : p.Fault labels config key e) :
    ∃ key e, p.FirstFault labels config key e := by
  induction key using Nat.strong_induction_on generalizing e with
  | _ key ih =>
    by_cases hfirst : ∀ k < key, p.RestsOn k → ∀ e', ¬ p.Fault labels config k e'
    · exact ⟨key, e, hrests, hfault, hfirst⟩
    · push Not at hfirst
      obtain ⟨k, hk, hkrests, e', he'⟩ := hfirst
      exact ih k hk hkrests he'

/-! ## Labels -/

theorem firstUnlabelled?_eq_none (h : labels.Covers p) : firstUnlabelled? p labels = none := by
  rw [firstUnlabelled?, List.findSome?_eq_none_iff]
  intro key _
  cases hrecord : p.record? key with
  | none => rfl
  | some record =>
    refine if_neg ?_
    rintro ⟨hsource, hnone⟩
    have := h key record hrecord hsource
    rw [hnone] at this
    exact absurd this (by simp)

/-- A premise without a label is found where there is one, and of several the one recorded
first. -/
theorem exists_firstUnlabelled (hp : p.Reachable) (h : ¬ labels.Covers p) :
    ∃ key id, firstUnlabelled? p labels = some id ∧ p.idAt? key = some id ∧
      labels.Unlabelled p key ∧ ∀ k < key, ¬ labels.Unlabelled p k := by
  cases hfound : firstUnlabelled? p labels with
  | none =>
    refine absurd (fun key record hrecord hsource => ?_) h
    have hkey := List.findSome?_eq_none_iff.mp hfound key
      (List.mem_range.mpr (Proof.lt_size_of_record? hrecord))
    by_contra hpart
    rw [Option.not_isSome_iff_eq_none] at hpart
    simp [hrecord, hsource, hpart] at hkey
  | some id =>
    obtain ⟨before, key, after, hsplit, hkey, hbefore⟩ := List.findSome?_eq_some_iff.mp hfound
    obtain ⟨record, hrecord, hkey⟩ := Option.bind_eq_some_iff.mp hkey
    split at hkey
    · rename_i hunlabelled
      obtain ⟨id', hid⟩ := hp.exists_id hrecord hunlabelled.1
      rw [hid] at hkey
      obtain rfl := Option.some.inj hkey
      refine ⟨key, id', rfl, Proof.idAt?_eq_some_iff.mpr ⟨record, hrecord, hid⟩,
        ⟨record, hrecord, hunlabelled⟩, ?_⟩
      rintro k hk ⟨other, hother, hunlabelled'⟩
      have hmem : k ∈ List.range p.size := List.mem_range.mpr (Proof.lt_size_of_record? hother)
      have hnone := hbefore k (mem_of_split List.pairwise_lt_range hsplit hmem hk)
      rw [hother, Option.bind_some, if_pos hunlabelled'] at hnone
      exact absurd hnone (by simp)
    · exact absurd hkey (by simp)

/-! ## Interpolating -/

/-- An encoding fails only for want of fresh variables. -/
theorem Encoding.encode_outcomes {c : Circuit} (hc : c.Canonical) {edge : Edge}
    (he : edge.node < c.size) (next : Nat) :
    (∃ encoded, encode c edge next = .ok encoded) ∨
      encode c edge next = .error (.invalidFreshVariable next) ∨
      encode c edge next = .error .atomsExhausted := by
  by_cases h0 : edge.node = 0
  · exact Or.inl ⟨_, encode_constant c (by simpa [Edge.isConstant] using h0) next⟩
  · rcases encode_cases hc he h0 next with ⟨-, h⟩ | ⟨-, -, h⟩ | ⟨-, -, h⟩
    · exact Or.inr (Or.inl h)
    · exact Or.inr (Or.inr h)
    · exact Or.inl ⟨_, h⟩

section

variable {witness : Nat} (hp : p.Reachable) (hwitness : witnessOf p = .ok witness)
  (hmode : config.mode.value = .asymmetric)

include hp hwitness hmode

/-- Where a premise has no label, the first such is named, used or not. -/
theorem interpolate_of_not_covers (huncovered : ¬ labels.Covers p) (next : Nat) :
    ∃ key id, labels.Unlabelled p key ∧ (∀ k < key, ¬ labels.Unlabelled p k) ∧
      p.idAt? key = some id ∧ interpolate p labels config next = .error (.unknownLabel id) := by
  obtain ⟨key, id, hfound, hid, hunlabelled, hfirst⟩ := exists_firstUnlabelled hp huncovered
  refine ⟨key, id, hunlabelled, hfirst, hid, ?_⟩
  simp only [interpolate, hmode, hwitness, hfound, bind, Except.bind]

/-- Where there is a fault, the first is reported. -/
theorem interpolate_of_fault (hcovers : labels.Covers p) (hrests : p.RestsOn key)
    (hfault : p.Fault labels config key e) (next : Nat) :
    ∃ first e', p.FirstFault labels config first e' ∧
      interpolate p labels config next = .error e' := by
  obtain ⟨first, e', hfirst⟩ := Proof.exists_firstFault hrests hfault
  refine ⟨first, e', hfirst, ?_⟩
  have hreplay := (visitAll_eq_error_iff hp hwitness hcovers).mpr ⟨first, hfirst⟩
  simp only [interpolate, hmode, hwitness, firstUnlabelled?_eq_none hcovers, hreplay, bind,
    Except.bind]

/-- And where there is none there is an interpolant, unless the counter is no fresh variable or
there are too few of them. -/
theorem interpolate_of_sound (hcovers : labels.Covers p)
    (hsound : ∀ key e, p.RestsOn key → ¬ p.Fault labels config key e) (next : Nat) :
    (∃ i, interpolate p labels config next = .ok i) ∨
      interpolate p labels config next = .error (.invalidFreshVariable next) ∨
      interpolate p labels config next = .error .atomsExhausted := by
  obtain ⟨replay, edge, hreplay, hedge⟩ := exists_visitAll hp hwitness hcovers hsound
  have hvalid := Replay.Valid.visitAll
    (fun key hkey => (mem_cone_iff_restsOn hp.wellFormed hwitness).mp hkey) hreplay
  have hcanonical := hvalid.built.canonical
  have hencode := Encoding.encode_outcomes
    (Circuit.built_extract hcanonical (hvalid.lt hedge)).canonical
    (Circuit.lt_size_extract hcanonical (hvalid.lt hedge)) next
  simp only [interpolate, hmode, hwitness, firstUnlabelled?_eq_none hcovers, hreplay, hedge, bind,
    Except.bind]
  rcases hencode with ⟨encoded, h⟩ | h | h
  · rw [h]
    exact Or.inl ⟨_, rfl⟩
  · rw [h]
    exact Or.inr (Or.inl rfl)
  · rw [h]
    exact Or.inr (Or.inr rfl)

end

/-- **What comes of interpolating a refutation of the formula that has a witness.**  If a premise
on record has no label, the error names the first such.  If all have, and some record that the
refutation rests on is at fault, the error is that of the first such.  And otherwise there is an
interpolant, unless the counter is no fresh variable or there are too few of them. -/
theorem interpolate_outcomes (hp : p.Reachable) {chain : List Nat} {witness : Nat}
    (hr : p.refutation = some ⟨.conflict, chain, some witness⟩)
    (hmode : config.mode.value = .asymmetric) (labels : Labelling) (next : Nat) :
    (¬ labels.Covers p → ∃ key id, labels.Unlabelled p key ∧ (∀ k < key, ¬ labels.Unlabelled p k) ∧
        p.idAt? key = some id ∧ interpolate p labels config next = .error (.unknownLabel id)) ∧
      (labels.Covers p → (∃ key e, p.RestsOn key ∧ p.Fault labels config key e) →
        ∃ key e, p.FirstFault labels config key e ∧
          interpolate p labels config next = .error e) ∧
      (labels.Covers p → (∀ key e, p.RestsOn key → ¬ p.Fault labels config key e) →
        (∃ i, interpolate p labels config next = .ok i) ∨
          interpolate p labels config next = .error (.invalidFreshVariable next) ∨
          interpolate p labels config next = .error .atomsExhausted) := by
  have hwitness : witnessOf p = .ok witness := witnessOf_eq_ok_iff.mpr ⟨_, hr, rfl, rfl⟩
  refine ⟨fun huncovered => ?_, fun hcovers => ?_, fun hcovers hsound => ?_⟩
  · exact interpolate_of_not_covers hp hwitness hmode huncovered next
  · rintro ⟨key, e, hrests, hfault⟩
    exact interpolate_of_fault hp hwitness hmode hcovers hrests hfault next
  · exact interpolate_of_sound hp hwitness hmode hcovers hsound next

/-- A refutation of `10 ∨ 2` and `¬10 ∨ 3` together with `¬2` and `¬3`, in which `2` alone is
said to follow from the first two. -/
def crookedRefutation : Proof :=
  Proof.run {} [.premise 1 false [10, 2] false, .premise 2 false [-10, 3] false,
    .premise 3 false [-2] false, .premise 4 false [-3] false, .derived 6 false [2] [1, 2],
    .conclude .conflict [3, 6]]

theorem covers_crookedRefutation : splitLabelling.Covers crookedRefutation := by
  have hall : ∀ key < 6, (crookedRefutation.record? key).all (fun record =>
      record.source = .premise → (splitLabelling.partAt? key).isSome) = true := by decide
  intro key record hrecord hsource
  have := hall key (Proof.lt_size_of_record? hrecord)
  rw [hrecord] at this
  exact of_decide_eq_true this hsource

/-- The literal 3 is left over, and the clause that should have it is named. -/
theorem interpolate_outcomes_crookedRefutation :
    crookedRefutation.Reachable ∧
      crookedRefutation.refutation = some ⟨.conflict, [3, 6], some 5⟩ ∧
      ({} : Config).mode.value = .asymmetric ∧ splitLabelling.Covers crookedRefutation ∧
      (crookedRefutation.RestsOn 4 ∧
        crookedRefutation.Fault splitLabelling {} 4 (.malformedProof 6)) ∧
      (∃ key e, crookedRefutation.FirstFault splitLabelling {} key e ∧
        interpolate crookedRefutation splitLabelling {} 20 = .error e) ∧
      interpolate crookedRefutation splitLabelling {} 20 = .error (.malformedProof 6) := by
  have hp : crookedRefutation.Reachable := Proof.Reachable.start.run _
  have hrests : crookedRefutation.RestsOn 4 := ⟨_, 5, rfl, rfl, .step (by decide) (.refl 4)⟩
  have hfault : crookedRefutation.Fault splitLabelling {} 4 (.malformedProof 6) :=
    .unfounded rfl rfl rfl
      (.excessive {-10, 3} [{10, 2}] 3 rfl (Or.inl rfl) (by decide) (by decide))
  exact ⟨hp, rfl, rfl, covers_crookedRefutation, ⟨hrests, hfault⟩,
    (interpolate_outcomes hp rfl rfl splitLabelling 20).2.1 covers_crookedRefutation
      ⟨4, _, hrests, hfault⟩, rfl⟩

end Interpolation
