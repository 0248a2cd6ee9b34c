import Mathlib.Data.List.Forall2
import Interpolation.Interpolant
import Interpolation.Proofs.Extraction
import Interpolation.Proofs.ReachableProofs

/-!
# What a replay computes

The partial interpolants of a refutation can be described without any circuit: they
are functions of a valuation.  That of a premise is read off its shared literals,
and that of a derived clause is what its chain makes of the functions of its
antecedents, one pivot after another (`PartialInterpolant`).

A replay computes them.  Its circuit only grows, so an edge that was found for a
record keeps its value, and at every moment the records that have an edge have partial
interpolants, which their edges stand for as long as the circuit is addressable
(`Replay.Valid`).  What the circuit may speak of is known with it, however large it is:
an input is only ever made for a shared variable of a premise of part A on which the
refutation rests.

* `PartialInterpolant` --- the functions that a record may be given;
* `Replay.Carries`, `Replay.Valid.visitAll` --- a replay gives every record visited one of them;
* `Interpolated` --- what an interpolant was made from.
-/

namespace Interpolation

/-! ## What a refutation rests on -/

/-- Whether the refutation rests on the record at a key: that is the empty clause on
record at the end, or something that was used, directly or not, to derive it. -/
def Proof.RestsOn (p : Proof) (key : Nat) : Prop :=
  ∃ r witness, p.refutation = some r ∧ r.witness = some witness ∧
    Reaches p.antecedentsAt witness key

/-- With a record the refutation rests on its antecedents. -/
theorem Proof.RestsOn.step {p : Proof} {key k : Nat} (h : p.RestsOn key)
    (hk : k ∈ p.antecedentsAt key) : p.RestsOn k := by
  obtain ⟨r, witness, hr, hwitness, hreaches⟩ := h
  exact ⟨r, witness, hr, hwitness, hreaches.trans (.step hk (.refl k))⟩

namespace Labelling

/-- Whether a clause is a premise of a part, and one that the refutation rests on.
It may be active or deleted. -/
def Premise (labels : Labelling) (p : Proof) (part : Part) (clause : Clause) : Prop :=
  ∃ key record, p.RestsOn key ∧ p.record? key = some record ∧ record.source = .premise ∧
    labels.partAt? key = some part ∧ record.clause = clause

/-- Whether all premises of a part that the refutation rests on are true. -/
def SatisfiesPart (labels : Labelling) (p : Proof) (part : Part) (v : Nat → Bool) : Prop :=
  ∀ clause, labels.Premise p part clause → clause.satisfiedBy v = true

/-- Whether an interpolant may speak of a variable: it is shared, and it occurs in a
premise of part A that the refutation rests on. -/
def Speaks (labels : Labelling) (p : Proof) (atom : Nat) : Prop :=
  labels.scopeOf atom = .shared ∧ ∃ clause, labels.Premise p .a clause ∧ atom ∈ clause.atoms

/-- Whether a clause is a premise of a part, and is recorded at a key. -/
def PremiseAt (labels : Labelling) (p : Proof) (part : Part) (key : Nat) (clause : Clause) : Prop :=
  ∃ record, p.record? key = some record ∧ record.source = .premise ∧
    labels.partAt? key = some part ∧ record.clause = clause

/-- Whether a variable is shared, and occurs in the premise of part A that is recorded at a key. -/
def SharedAt (labels : Labelling) (p : Proof) (key atom : Nat) : Prop :=
  labels.scopeOf atom = .shared ∧ ∃ clause, labels.PremiseAt p .a key clause ∧ atom ∈ clause.atoms

theorem PremiseAt.premise {labels : Labelling} {p : Proof} {part : Part} {key : Nat}
    {clause : Clause} (h : labels.PremiseAt p part key clause) (hrests : p.RestsOn key) :
    labels.Premise p part clause := by
  obtain ⟨record, hrecord, hsource, hpart, hclause⟩ := h
  exact ⟨key, record, hrests, hrecord, hsource, hpart, hclause⟩

theorem SharedAt.speaks {labels : Labelling} {p : Proof} {key atom : Nat}
    (h : labels.SharedAt p key atom) (hrests : p.RestsOn key) : labels.Speaks p atom := by
  obtain ⟨hshared, clause, hclause, hatom⟩ := h
  exact ⟨hshared, clause, hclause.premise hrests, hatom⟩

/-- Whether a literal may occur in a premise of a part. -/
def Allows (labels : Labelling) (part : Part) (l : Literal) : Prop :=
  labels.scopeOf l.atom = .shared ∨ labels.scopeOf l.atom = .localTo part

instance (labels : Labelling) (part : Part) (l : Literal) : Decidable (labels.Allows part l) :=
  inferInstanceAs (Decidable (_ ∨ _))

/-! ## Partial interpolants as functions -/

/-- The literals of a clause that are shared. -/
def sharedLiterals (labels : Labelling) (clause : Clause) : Clause :=
  clause.filter fun l => labels.scopeOf l.atom = .shared

theorem sharedLiterals_cons_of_shared {labels : Labelling} {l : Literal}
    (h : labels.scopeOf l.atom = .shared) (clause : Clause) :
    labels.sharedLiterals (l :: clause) = l :: labels.sharedLiterals clause :=
  List.filter_cons_of_pos (decide_eq_true h)

theorem sharedLiterals_cons_of_not {labels : Labelling} {l : Literal}
    (h : labels.scopeOf l.atom ≠ .shared) (clause : Clause) :
    labels.sharedLiterals (l :: clause) = labels.sharedLiterals clause :=
  List.filter_cons_of_neg fun hs => h (of_decide_eq_true hs)

/-- The partial interpolant of a premise. -/
def premiseValue (labels : Labelling) (part : Part) (clause : Clause) (v : Nat → Bool) : Bool :=
  match part with
  | .a => (labels.sharedLiterals clause).satisfiedBy v
  | .b => true

/-- What a resolution makes of two partial interpolants. -/
def joinValues (labels : Labelling) (f : (Nat → Bool) → Bool)
    (step : Option Literal × ((Nat → Bool) → Bool)) (v : Nat → Bool) : Bool :=
  match step.1 with
  | none => f v
  | some pivot =>
    if labels.scopeOf pivot.atom = .localTo .a then f v || step.2 v else f v && step.2 v

end Labelling

/-- An antecedent in a chain, with a partial interpolant. -/
structure Antecedent where
  /-- The key of its record. -/
  key : Nat
  /-- The clause. -/
  clause : Clause
  /-- The partial interpolant. -/
  value : (Nat → Bool) → Bool

/-- The partial interpolants of a record.  The antecedents of a derived clause are
listed backwards, the last of the chain first. -/
inductive PartialInterpolant (p : Proof) (labels : Labelling) (config : Config) :
    Nat → ((Nat → Bool) → Bool) → Prop
  /-- A premise keeps what is shared of it, or nothing. -/
  | premise {key : Nat} {record : Record} {part : Part} : p.record? key = some record →
      record.source = .premise → labels.partAt? key = some part →
      (∀ l ∈ record.clause, labels.Allows part l) →
      PartialInterpolant p labels config key (labels.premiseValue part record.clause)
  /-- A derived clause joins what its antecedents have. -/
  | derived {key : Nat} {record : Record} {last : Antecedent} {rest : List Antecedent}
      {run : ChainRun} : p.record? key = some record → record.source = .derived →
      (∀ a ∈ last :: rest, a.key ∈ record.antecedents ∧
        (p.record? a.key).map Record.clause = some a.clause) →
      (∀ a ∈ last :: rest, PartialInterpolant p labels config a.key a.value) →
      runChain config.strictChains.value last.clause (rest.map Antecedent.clause) = some run →
      derives config run.resolvent record.clause = true →
      PartialInterpolant p labels config key
        ((run.pivots.zip (rest.map Antecedent.value)).foldl labels.joinValues last.value)

/-! ## What is done to the circuit -/

namespace Circuit

/-- What an operation on a circuit that is built over a vocabulary comes to: an edge
that stands for a function, in a larger circuit that is built over it as well. -/
structure Makes (vocabulary : Nat → Prop) (c : Circuit) (result : Edge × Circuit)
    (f : (Nat → Bool) → Bool) : Prop extends Provides c result f where
  /-- The circuit after the operation is built over the vocabulary. -/
  built : Built vocabulary result.2

variable {vocabulary : Nat → Prop}

theorem evaluate_eq_of_le {c d : Circuit} (h : c ≤ d) {e : Edge} (he : e.node < c.size) :
    d.evaluate e = c.evaluate e := by
  funext v
  exact evaluate_of_le h he v

/-- An edge of a circuit makes its own value. -/
theorem Makes.self {c : Circuit} (hc : Built vocabulary c) {e : Edge} (he : e.node < c.size) :
    Makes vocabulary c (e, c) (c.evaluate e) where
  le := le_refl c
  lt := he
  evaluate _ _ := rfl
  built := hc

/-- One operation after another. -/
theorem Makes.trans {c : Circuit} {middle result : Edge × Circuit}
    {f g : (Nat → Bool) → Bool} (h : Makes vocabulary c middle f)
    (k : Makes vocabulary middle.2 result g) : Makes vocabulary c result g where
  le := le_trans h.le k.le
  lt := k.lt
  evaluate := k.evaluate
  built := k.built

theorem Makes.evaluate_eq {c : Circuit} {result : Edge × Circuit} {f : (Nat → Bool) → Bool}
    (h : Makes vocabulary c result f) (hsize : result.2.Addressable) :
    result.2.evaluate result.1 = f := by
  funext v
  exact h.evaluate hsize v

theorem makes_or {c : Circuit} (hc : Built vocabulary c) {a b : Edge} (ha : a.node < c.size)
    (hb : b.node < c.size) :
    Makes vocabulary c (c.or a b) fun v => c.evaluate a v || c.evaluate b v :=
  ⟨provides_or hc.canonical ha hb, hc.or ha hb⟩

theorem makes_and {c : Circuit} (hc : Built vocabulary c) {a b : Edge} (ha : a.node < c.size)
    (hb : b.node < c.size) :
    Makes vocabulary c (c.and a b) fun v => c.evaluate a v && c.evaluate b v :=
  ⟨provides_and hc.canonical ha hb, hc.and ha hb⟩

theorem makes_literal {c : Circuit} (hc : Built vocabulary c) {l : Literal}
    (hl : vocabulary l.atom) : Makes vocabulary c (c.literal l) fun v => l.holds v :=
  ⟨provides_literal c l, hc.literal hl⟩

end Circuit

open Circuit (Makes Built)

variable {labels : Labelling} {vocabulary : Nat → Prop}

/-- What one literal of a premise does, where it is not an error: a shared literal of
part A is joined to the edge by disjunction, and nothing else changes anything. -/
theorem addLiteral_cases {part : Part} {id : Nat} {state result : Edge × Circuit} {l : Literal}
    (h : addLiteral labels part id state l = .ok result) :
    labels.Allows part l ∧
      (result = state ∧ (labels.scopeOf l.atom = .shared → part = .b) ∨
        part = .a ∧ labels.scopeOf l.atom = .shared ∧
          result = (state.2.literal l).2.or state.1 (state.2.literal l).1) := by
  unfold addLiteral at h
  cases hscope : labels.scopeOf l.atom with
  | localTo owner =>
    simp only [hscope] at h
    split at h
    · rename_i howner
      refine ⟨Or.inr (by rw [hscope, howner]), Or.inl ⟨(Except.ok.inj h).symm, ?_⟩⟩
      exact fun hshared => absurd hshared (by simp)
    · exact absurd h (by simp)
  | shared =>
    simp only [hscope] at h
    cases part with
    | a => exact ⟨Or.inl hscope, Or.inr ⟨rfl, rfl, (Except.ok.inj h).symm⟩⟩
    | b => exact ⟨Or.inl hscope, Or.inl ⟨(Except.ok.inj h).symm, fun _ => rfl⟩⟩

/-- The literals of a premise, taken into account one after another. -/
theorem makes_foldlM_addLiteral {part : Part} {id : Nat} {clause : Clause}
    (hvocabulary : part = .a → ∀ l ∈ clause, labels.scopeOf l.atom = .shared → vocabulary l.atom)
    (state : Edge × Circuit) {result : Edge × Circuit} (hbuilt : Built vocabulary state.2)
    (hlt : state.1.node < state.2.size)
    (h : clause.foldlM (addLiteral labels part id) state = .ok result) :
    (∀ l ∈ clause, labels.Allows part l) ∧
      Makes vocabulary state.2 result fun v => state.2.evaluate state.1 v ||
        (decide (part = .a) && (labels.sharedLiterals clause).satisfiedBy v) := by
  induction clause generalizing state with
  | nil =>
    obtain rfl : state = result := Except.ok.inj h
    refine ⟨List.forall_mem_nil _, ?_⟩
    have hself := Makes.self hbuilt hlt
    refine { hself with evaluate := fun _ v => ?_ }
    rw [show (labels.sharedLiterals []).satisfiedBy v = false from rfl, Bool.and_false,
      Bool.or_false]
  | cons l rest ih =>
    obtain ⟨middle, hl, hfold⟩ := foldlM_cons_eq_ok_iff.mp h
    have hrest := fun hpart m hm => hvocabulary hpart m (List.mem_cons_of_mem l hm)
    obtain ⟨hallows, ⟨rfl, hshared⟩ | ⟨rfl, hshared, rfl⟩⟩ := addLiteral_cases hl
    · obtain ⟨hall, hmakes⟩ := ih hrest _ hbuilt hlt hfold
      refine ⟨List.forall_mem_cons.mpr ⟨hallows, hall⟩, ?_⟩
      refine { hmakes with evaluate := fun hsize v => ?_ }
      rw [hmakes.evaluate hsize]
      cases part with
      | b => rfl
      | a =>
        have hlocal : labels.scopeOf l.atom ≠ .shared := fun hs => absurd (hshared hs) (by simp)
        rw [Labelling.sharedLiterals_cons_of_not hlocal]
    · have hliteral := Circuit.makes_literal hbuilt (l := l)
        (hvocabulary rfl l List.mem_cons_self hshared)
      have hold := Nat.lt_of_lt_of_le hlt (Circuit.size_le_of_le hliteral.le)
      have hor := Circuit.makes_or hliteral.built hold hliteral.lt
      obtain ⟨hall, hmakes⟩ := ih hrest _ hor.built hor.lt hfold
      refine ⟨List.forall_mem_cons.mpr ⟨hallows, hall⟩, ?_⟩
      refine { hliteral.trans (hor.trans hmakes) with evaluate := fun hsize v => ?_ }
      have hsize' := hsize.of_le hmakes.le
      rw [hmakes.evaluate hsize, hor.evaluate hsize', hliteral.evaluate (hsize'.of_le hor.le),
        Circuit.evaluate_of_le hliteral.le hlt, Labelling.sharedLiterals_cons_of_shared hshared]
      simp only [Clause.satisfiedBy, List.any_cons, decide_true, Bool.true_and, Bool.or_assoc]

/-- What is computed of a premise is its partial interpolant. -/
theorem makes_premiseInterpolant {c : Circuit} {part : Part} {id : Nat} {clause : Clause}
    (hvocabulary : part = .a → ∀ l ∈ clause, labels.scopeOf l.atom = .shared → vocabulary l.atom)
    (hbuilt : Built vocabulary c) {result : Edge × Circuit}
    (h : premiseInterpolant labels c part id clause = .ok result) :
    (∀ l ∈ clause, labels.Allows part l) ∧
      Makes vocabulary c result (labels.premiseValue part clause) := by
  have hlt : (startOf part).node < c.size := by
    cases part <;> exact hbuilt.canonical.size_pos
  obtain ⟨hall, hmakes⟩ := makes_foldlM_addLiteral hvocabulary (startOf part, c) hbuilt hlt h
  refine ⟨hall, { hmakes with evaluate := fun hsize v => ?_ }⟩
  rw [hmakes.evaluate hsize]
  cases part with
  | a =>
    show (c.evaluate .bottom v || (true && _)) = _
    rw [hbuilt.canonical.evaluate_bottom, Bool.true_and, Bool.false_or]
    rfl
  | b =>
    show (c.evaluate .top v || _) = true
    rw [hbuilt.canonical.evaluate_top, Bool.true_or]

/-- One pivot joins two edges as it joins what they stand for. -/
theorem makes_join {state : Edge × Circuit} {step : Option Literal × Edge}
    (hbuilt : Built vocabulary state.2) (hlt : state.1.node < state.2.size)
    (hstep : step.2.node < state.2.size) :
    Makes vocabulary state.2 (join labels state step)
      (labels.joinValues (state.2.evaluate state.1) (step.1, state.2.evaluate step.2)) := by
  obtain ⟨pivot, edge⟩ := step
  cases pivot with
  | none => exact Makes.self hbuilt hlt
  | some pivot =>
    by_cases hlocal : labels.scopeOf pivot.atom = .localTo .a
    · have hor := Circuit.makes_or hbuilt hlt hstep
      rw [show join labels state (some pivot, edge) = state.2.or state.1 edge from if_pos hlocal]
      exact { hor with
        evaluate := fun hsize v => (hor.evaluate hsize v).trans (if_pos hlocal).symm }
    · have hand := Circuit.makes_and hbuilt hlt hstep
      rw [show join labels state (some pivot, edge) = state.2.and state.1 edge from if_neg hlocal]
      exact { hand with
        evaluate := fun hsize v => (hand.evaluate hsize v).trans (if_neg hlocal).symm }

/-- The pivots of a chain join edges as they join what the edges stand for. -/
theorem makes_foldl_join (labels : Labelling) (pivots : List (Option Literal)) {edges : List Edge}
    (state : Edge × Circuit) (hbuilt : Built vocabulary state.2)
    (hlt : state.1.node < state.2.size) (hedges : ∀ e ∈ edges, e.node < state.2.size) :
    Makes vocabulary state.2 ((pivots.zip edges).foldl (join labels) state)
      ((pivots.zip (edges.map state.2.evaluate)).foldl labels.joinValues
        (state.2.evaluate state.1)) := by
  induction edges generalizing pivots state with
  | nil =>
    rw [List.map_nil, List.zip_nil_right, List.zip_nil_right]
    exact Makes.self hbuilt hlt
  | cons edge edges ih =>
    cases pivots with
    | nil => exact Makes.self hbuilt hlt
    | cons pivot pivots =>
      have hjoin : Makes vocabulary state.2 (join labels state (pivot, edge)) _ :=
        makes_join hbuilt hlt (hedges edge List.mem_cons_self)
      have hrest : ∀ e ∈ edges, e.node < state.2.size := fun e he =>
        hedges e (List.mem_cons_of_mem edge he)
      have hgrown : ∀ e ∈ edges, e.node < (join labels state (pivot, edge)).2.size := fun e he =>
        Nat.lt_of_lt_of_le (hrest e he) (Circuit.size_le_of_le hjoin.le)
      have hvalues : edges.map (join labels state (pivot, edge)).2.evaluate =
          edges.map state.2.evaluate :=
        List.map_congr_left fun e he => Circuit.evaluate_eq_of_le hjoin.le (hrest e he)
      have hfold := ih pivots _ hjoin.built hjoin.lt hgrown
      refine { hjoin.trans hfold with evaluate := fun hsize v => ?_ }
      have hvalue := hfold.evaluate hsize v
      rw [hvalues, hjoin.evaluate_eq (hsize.of_le hfold.le)] at hvalue
      exact hvalue

/-! ## The antecedents of a chain -/

/-- An antecedent of a chain is skipped, or resolved on a pivot. -/
theorem runChain_cons_cases {strict : Bool} {resolvent antecedent : Clause} {rest : List Clause}
    {run : ChainRun} (h : runChain strict resolvent (antecedent :: rest) = some run) :
    (∃ run', runChain strict resolvent rest = some run' ∧
        run = { run' with pivots := none :: run'.pivots }) ∨
      ∃ pivot run', clash resolvent antecedent = .on pivot ∧
        runChain strict (resolve resolvent antecedent pivot) rest = some run' ∧
        run = { run' with pivots := some pivot :: run'.pivots } := by
  unfold runChain at h
  split at h
  · exact absurd h (by simp)
  · split at h
    · exact absurd h (by simp)
    · obtain ⟨run', hrun', rfl⟩ := Option.map_eq_some_iff.mp h
      exact Or.inl ⟨run', hrun', rfl⟩
  · rename_i pivot hclash
    obtain ⟨run', hrun', rfl⟩ := Option.map_eq_some_iff.mp h
    exact Or.inr ⟨pivot, run', hclash, hrun', rfl⟩

/-- Looking up every member of a list succeeds when each of them is found. -/
theorem mapM_eq_some_iff {α β : Type} {f : α → Option β} {l : List α} {m : List β} :
    l.mapM f = some m ↔ l.map f = m.map some := by
  induction l generalizing m with
  | nil => cases m <;> simp
  | cons a l ih =>
    rw [List.mapM_cons, List.map_cons]
    cases ha : f a with
    | none => cases m <;> simp
    | some b =>
      cases m with
      | nil => cases hl : l.mapM f <;> simp
      | cons b' m =>
        rw [List.map_cons, List.cons.injEq, Option.some.injEq, ← ih]
        cases hl : l.mapM f <;> simp

theorem mem_of_mapM_eq_some {α β : Type} {f : α → Option β} {l : List α} {m : List β}
    (h : l.mapM f = some m) {b : β} (hb : b ∈ m) : ∃ a ∈ l, f a = some b := by
  have hmem : some b ∈ l.map f := by
    rw [mapM_eq_some_iff.mp h]
    exact List.mem_map_of_mem hb
  exact List.mem_map.mp hmem

theorem antecedent?_eq_some_iff {p : Proof} {replay : Replay} {key : Nat} {clause : Clause}
    {edge : Edge} :
    antecedent? p replay key = some (clause, edge) ↔
      (p.record? key).map Record.clause = some clause ∧
        replay.interpolants.find? key = some edge := by
  unfold antecedent?
  cases p.record? key with
  | none => simp
  | some record =>
    cases replay.interpolants.find? key with
    | none => simp
    | some e => simp

/-- Where every member of a list is related to something, the list is related to a list. -/
theorem exists_forall₂ {α β : Type} {R : α → β → Prop} {l : List β} (h : ∀ b ∈ l, ∃ a, R a b) :
    ∃ m, List.Forall₂ R m l := by
  induction l with
  | nil => exact ⟨[], .nil⟩
  | cons b l ih =>
    obtain ⟨a, ha⟩ := h b List.mem_cons_self
    obtain ⟨m, hm⟩ := ih fun b' hb' => h b' (List.mem_cons_of_mem b hb')
    exact ⟨a :: m, .cons ha hm⟩

/-- What is equal member by member is equal as a list. -/
theorem map_eq_map_of_forall₂ {α β γ : Type} {R : α → β → Prop} {f : α → γ} {g : β → γ}
    {m : List α} {l : List β} (h : List.Forall₂ R m l) (hR : ∀ {a b}, R a b → f a = g b) :
    m.map f = l.map g := by
  induction h with
  | nil => rfl
  | cons hab _ ih => rw [List.map_cons, List.map_cons, hR hab, ih]

variable {p : Proof} {config : Config} {replay result : Replay}

/-- A derived clause has a chain that can be read, and whose resolvent is
acceptable. -/
theorem derivedInterpolant_cases {record : Record} {made : Edge × Circuit}
    (h : derivedInterpolant p labels config replay record = .ok made) :
    ∃ last edge rest run,
      record.antecedents.reverse.mapM (antecedent? p replay) = some ((last, edge) :: rest) ∧
      runChain config.strictChains.value last (rest.map (·.1)) = some run ∧
      derives config run.resolvent record.clause = true ∧
      made = (run.pivots.zip (rest.map (·.2))).foldl (join labels) (edge, replay.circuit) := by
  unfold derivedInterpolant at h
  split at h
  · exact absurd h (by simp)
  · exact absurd h (by simp)
  · rename_i last edge rest hsteps
    split at h
    · exact absurd h (by simp)
    · rename_i run hrun
      split at h
      · rename_i hderives
        exact ⟨last, edge, rest, run, hsteps, hrun, hderives, (Except.ok.inj h).symm⟩
      · exact absurd h (by simp)

/-! ## The records in order -/

namespace Replay

theorem visit_of_record? {key : Nat} {record : Record} (h : p.record? key = some record) :
    replay.visit p labels config key =
      (recordInterpolant p labels config replay key record).map fun made =>
        { circuit := made.2, interpolants := replay.interpolants.insert key made.1 } := by
  simp only [visit, h]
  cases recordInterpolant p labels config replay key record <;> rfl

theorem visit_of_ok {key : Nat} {record : Record} {made : Edge × Circuit}
    (hrecord : p.record? key = some record)
    (hmade : recordInterpolant p labels config replay key record = .ok made) :
    replay.visit p labels config key =
      .ok { circuit := made.2, interpolants := replay.interpolants.insert key made.1 } := by
  rw [visit_of_record? hrecord, hmade]
  rfl

/-- Visiting a record finds an edge for it and keeps the others. -/
theorem visit_cases {key : Nat} (h : replay.visit p labels config key = .ok result) :
    ∃ record made, p.record? key = some record ∧
      recordInterpolant p labels config replay key record = .ok made ∧
      result = { circuit := made.2, interpolants := replay.interpolants.insert key made.1 } := by
  cases hrecord : p.record? key with
  | none =>
    unfold visit at h
    rw [hrecord] at h
    exact absurd h (by simp)
  | some record =>
    rw [visit_of_record? hrecord] at h
    cases hmade : recordInterpolant p labels config replay key record with
    | error e =>
      rw [hmade] at h
      exact absurd h (by simp [Except.map])
    | ok made =>
      rw [hmade] at h
      exact ⟨record, made, rfl, hmade, (Except.ok.inj h).symm⟩

/-- What holds throughout a replay: the circuit is built over the variables that an
interpolant may speak of, and the records that have edges have partial interpolants,
which the edges stand for unless the nodes have become too many. -/
structure Valid (p : Proof) (labels : Labelling) (config : Config) (replay : Replay) : Prop where
  /-- The circuit is built over the vocabulary. -/
  built : Built (labels.Speaks p) replay.circuit
  /-- The edges found are edges of the circuit. -/
  lt : ∀ {key edge}, replay.interpolants.find? key = some edge → edge.node < replay.circuit.size
  /-- The edges found stand for partial interpolants. -/
  stands : ∀ {key edge}, replay.interpolants.find? key = some edge →
    ∃ f, PartialInterpolant p labels config key f ∧
      (replay.circuit.Addressable → replay.circuit.evaluate edge = f)

/-- The same of any vocabulary, whichever records were visited. -/
structure Carries (vocabulary : Nat → Prop) (p : Proof) (labels : Labelling) (config : Config)
    (replay : Replay) : Prop where
  /-- The circuit is built over the vocabulary. -/
  built : Built vocabulary replay.circuit
  /-- The edges found are edges of the circuit. -/
  lt : ∀ {key edge}, replay.interpolants.find? key = some edge → edge.node < replay.circuit.size
  /-- The edges found stand for partial interpolants. -/
  stands : ∀ {key edge}, replay.interpolants.find? key = some edge →
    ∃ f, PartialInterpolant p labels config key f ∧
      (replay.circuit.Addressable → replay.circuit.evaluate edge = f)

/-- Whether an antecedent of a record, with a partial interpolant, is what a replay has found for
it: its clause, and an edge that stands for the partial interpolant. -/
structure Represents (p : Proof) (labels : Labelling) (config : Config) (replay : Replay)
    (record : Record) (a : Antecedent) (step : Clause × Edge) : Prop where
  /-- It is an antecedent. -/
  mem : a.key ∈ record.antecedents
  /-- The clause is that on record. -/
  clause : (p.record? a.key).map Record.clause = some a.clause
  /-- The function is a partial interpolant. -/
  value : PartialInterpolant p labels config a.key a.value
  /-- The replay has found the clause. -/
  clause_eq : a.clause = step.1
  /-- The edge found is one of the circuit. -/
  lt : step.2.node < replay.circuit.size
  /-- It stands for the function. -/
  value_eq : replay.circuit.Addressable → a.value = replay.circuit.evaluate step.2

namespace Carries

theorem start : Carries vocabulary p labels config {} where
  built := .empty
  lt h := nomatch h
  stands h := nomatch h

/-- One more edge is found. -/
theorem insert (hr : Carries vocabulary p labels config replay) {key : Nat} {made : Edge × Circuit}
    {f : (Nat → Bool) → Bool} (hmakes : Makes vocabulary replay.circuit made f)
    (hf : PartialInterpolant p labels config key f) :
    Carries vocabulary p labels config
      { circuit := made.2, interpolants := replay.interpolants.insert key made.1 } where
  built := hmakes.built
  lt {k edge} h := by
    rw [NatMap.find?_insert] at h
    split at h
    · obtain rfl : made.1 = edge := Option.some.inj h
      exact hmakes.lt
    · exact Nat.lt_of_lt_of_le (hr.lt h) (Circuit.size_le_of_le hmakes.le)
  stands {k edge} h := by
    rw [NatMap.find?_insert] at h
    split at h
    · obtain rfl : made.1 = edge := Option.some.inj h
      rename_i hk
      rw [hk]
      exact ⟨f, hf, hmakes.evaluate_eq⟩
    · obtain ⟨g, hg, hedge⟩ := hr.stands h
      refine ⟨g, hg, fun hsize => ?_⟩
      rw [Circuit.evaluate_eq_of_le hmakes.le (hr.lt h), hedge (hsize.of_le hmakes.le)]

/-- Whatever a replay has found for the antecedents of a record, antecedents with partial
interpolants are represented by it. -/
theorem exists_represents (hr : Carries vocabulary p labels config replay) {record : Record}
    {steps : List (Clause × Edge)}
    (h : record.antecedents.reverse.mapM (antecedent? p replay) = some steps) :
    ∃ as, List.Forall₂ (Represents p labels config replay record) as steps := by
  refine exists_forall₂ fun step hstep => ?_
  obtain ⟨k, hk, hstep⟩ := mem_of_mapM_eq_some h hstep
  obtain ⟨hclause, hfind⟩ := antecedent?_eq_some_iff.mp hstep
  obtain ⟨f, hf, hedge⟩ := hr.stands hfind
  exact ⟨⟨k, step.1, f⟩, List.mem_reverse.mp hk, hclause, hf, rfl, hr.lt hfind,
    fun hsize => (hedge hsize).symm⟩

/-- The edge computed for a derived clause stands for a partial interpolant. -/
theorem derived (hr : Carries vocabulary p labels config replay) {key : Nat} {record : Record}
    (hrecord : p.record? key = some record) (hsource : record.source = .derived)
    {made : Edge × Circuit} (h : derivedInterpolant p labels config replay record = .ok made) :
    ∃ f, Makes vocabulary replay.circuit made f ∧
      PartialInterpolant p labels config key f := by
  obtain ⟨last, edge, rest, run, hsteps, hrun, hderives, rfl⟩ := derivedInterpolant_cases h
  obtain ⟨antecedents, hrepresents⟩ := hr.exists_represents hsteps
  obtain ⟨hkeys, -⟩ := (List.forall₂_and_left antecedents _).mp
    (hrepresents.imp fun a step h => ⟨And.intro h.mem h.clause, h⟩)
  obtain ⟨hvalues, -⟩ := (List.forall₂_and_left antecedents _).mp
    (hrepresents.imp fun a step h => ⟨h.value, h⟩)
  cases hrepresents with
  | @cons a _ as _ hlast hrest =>
    have hclauses : as.map Antecedent.clause = rest.map (·.1) :=
      map_eq_map_of_forall₂ hrest fun h => h.clause_eq
    have hedges : ∀ e ∈ rest.map (·.2), e.node < replay.circuit.size := by
      intro e he
      obtain ⟨step, hstep, rfl⟩ := List.mem_map.mp he
      obtain ⟨k, -, hk⟩ := mem_of_mapM_eq_some hsteps (List.mem_cons_of_mem _ hstep)
      exact hr.lt (antecedent?_eq_some_iff.mp hk).2
    have hmakes := makes_foldl_join labels run.pivots (edge, replay.circuit) hr.built hlast.lt
      hedges
    refine ⟨_, { hmakes with evaluate := fun hsize v => ?_ }, .derived hrecord hsource hkeys hvalues
      (by rw [hlast.clause_eq, hclauses]; exact hrun) hderives⟩
    have hsize' := hsize.of_le hmakes.le
    have hread : as.map Antecedent.value = (rest.map (·.2)).map replay.circuit.evaluate := by
      rw [List.map_map]
      exact map_eq_map_of_forall₂ hrest fun h => h.value_eq hsize'
    rw [hmakes.evaluate hsize, hread, hlast.value_eq hsize']

/-- The edge computed for a premise stands for its partial interpolant. -/
theorem premise (hr : Carries vocabulary p labels config replay) {key : Nat} {record : Record}
    {part : Part} (hshared : ∀ atom, labels.SharedAt p key atom → vocabulary atom)
    (hrecord : p.record? key = some record) (hsource : record.source = .premise)
    (hpart : labels.partAt? key = some part) {made : Edge × Circuit}
    (h : premiseInterpolant labels replay.circuit part (record.id.getD 0) record.clause =
      .ok made) :
    ∃ f, Makes vocabulary replay.circuit made f ∧ PartialInterpolant p labels config key f := by
  have hvocabulary : part = .a → ∀ l ∈ record.clause, labels.scopeOf l.atom = .shared →
      vocabulary l.atom := by
    rintro rfl l hl hscope
    exact hshared l.atom ⟨hscope, record.clause, ⟨record, hrecord, hsource, hpart, rfl⟩,
      List.mem_map_of_mem hl⟩
  obtain ⟨hall, hmakes⟩ := makes_premiseInterpolant hvocabulary hr.built h
  exact ⟨_, hmakes, .premise hrecord hsource hpart hall⟩

/-- **Visiting a record whose shared variables are in the vocabulary keeps all of that.** -/
theorem visit (hr : Carries vocabulary p labels config replay) {key : Nat}
    (hshared : ∀ atom, labels.SharedAt p key atom → vocabulary atom)
    (h : replay.visit p labels config key = .ok result) :
    Carries vocabulary p labels config result := by
  obtain ⟨record, made, hrecord, hmade, rfl⟩ := visit_cases h
  have hmakes : ∃ f, Makes vocabulary replay.circuit made f ∧
      PartialInterpolant p labels config key f := by
    unfold recordInterpolant at hmade
    cases hsource : record.source with
    | derived =>
      rw [hsource] at hmade
      exact hr.derived hrecord hsource hmade
    | premise =>
      rw [hsource] at hmade
      cases hpart : labels.partAt? key with
      | none =>
        rw [hpart] at hmade
        exact absurd hmade (by simp)
      | some part =>
        rw [hpart] at hmade
        exact hr.premise hshared hrecord hsource hpart hmade
  obtain ⟨f, hmade, hf⟩ := hmakes
  exact hr.insert hmade hf

theorem foldlM (hr : Carries vocabulary p labels config replay) {keys : List Nat}
    (hkeys : ∀ key ∈ keys, ∀ atom, labels.SharedAt p key atom → vocabulary atom)
    (h : keys.foldlM (Replay.visit p labels config) replay = .ok result) :
    Carries vocabulary p labels config result := by
  induction keys generalizing replay with
  | nil =>
    obtain rfl : replay = result := Except.ok.inj h
    exact hr
  | cons key keys ih =>
    obtain ⟨middle, hvisit, h⟩ := foldlM_cons_eq_ok_iff.mp h
    exact ih (hr.visit (hkeys key List.mem_cons_self) hvisit)
      (fun k hk => hkeys k (List.mem_cons_of_mem key hk)) h

theorem visitAll {keys : List Nat}
    (hkeys : ∀ key ∈ keys, ∀ atom, labels.SharedAt p key atom → vocabulary atom)
    (h : Replay.visitAll p labels config keys = .ok result) :
    Carries vocabulary p labels config result :=
  start.foldlM hkeys h

end Carries

namespace Valid

/-- **A replay of records that the refutation rests on is valid.** -/
theorem visitAll {keys : List Nat} (hkeys : ∀ key ∈ keys, p.RestsOn key)
    (h : Replay.visitAll p labels config keys = .ok result) : Valid p labels config result := by
  obtain ⟨hbuilt, hlt, hstands⟩ :=
    Carries.visitAll (fun key hkey atom hatom => hatom.speaks (hkeys key hkey)) h
  exact ⟨hbuilt, hlt, hstands⟩

/-- What is extracted of the circuit is over the vocabulary as well. -/
theorem over_extract (hr : Valid p labels config replay) {key : Nat} {edge : Edge}
    (h : replay.interpolants.find? key = some edge) :
    (replay.circuit.extract edge).2.Over (labels.Speaks p) := by
  intro k atom hk
  obtain ⟨m, -, hm⟩ := Circuit.mem_atoms_iff.mp
    ((Circuit.built_extract hr.built.canonical (hr.lt h)).over hk)
  exact hr.built.over hm

end Valid

end Replay

/-! ## What an interpolant was made from -/

theorem witnessOf_eq_ok_iff {key : Nat} :
    witnessOf p = .ok key ↔
      ∃ r, p.refutation = some r ∧ r.conclusion = .conflict ∧ r.witness = some key := by
  unfold witnessOf
  cases p.refutation with
  | none => simp
  | some r =>
    obtain ⟨conclusion, chain, witness⟩ := r
    cases conclusion <;> cases witness <;> simp

/-- Where an interpolant came from: a valid replay of the records that the
refutation rests on, whose edge for the empty clause was extracted and encoded. -/
structure Interpolated (p : Proof) (labels : Labelling) (config : Config) (next : Nat)
    (i : Interpolant) (witness : Nat) (edge : Edge) (replay : Replay) : Prop where
  /-- The empty clause that the refutation ends with. -/
  refutation : witnessOf p = .ok witness
  /-- The replay is that of the empty clause's cone. -/
  replayed : Replay.visitAll p labels config (cone p.antecedentsAt witness) = .ok replay
  /-- The replay is valid. -/
  valid : replay.Valid p labels config
  /-- The edge is that of the empty clause. -/
  found : replay.interpolants.find? witness = some edge
  /-- The circuit holds what the edge needs. -/
  extract : replay.circuit.extract edge = (i.output, i.circuit)
  /-- The clauses encode the circuit. -/
  encode : Encoding.encode i.circuit i.output next = .ok (i.clauses, i.next)
  /-- The fresh variables start where they should. -/
  first : i.first = next

/-- Whether a refutation, as far as it can be replayed, is replayed into an addressable
circuit. -/
def Proof.ReplayAddressable (p : Proof) (labels : Labelling) (config : Config) : Prop :=
  ∀ witness replay, witnessOf p = .ok witness →
    Replay.visitAll p labels config (cone p.antecedentsAt witness) = .ok replay →
      replay.circuit.Addressable

theorem restsOn_iff {witness key : Nat} (h : witnessOf p = .ok witness) :
    p.RestsOn key ↔ Reaches p.antecedentsAt witness key := by
  obtain ⟨r, hr, -, hwitness⟩ := witnessOf_eq_ok_iff.mp h
  constructor
  · rintro ⟨r', witness', hr', hwitness', hreaches⟩
    obtain rfl : r = r' := Option.some.inj (hr.symm.trans hr')
    obtain rfl : witness = witness' := Option.some.inj (hwitness.symm.trans hwitness')
    exact hreaches
  · exact fun hreaches => ⟨r, witness, hr, hwitness, hreaches⟩

/-- The records of the cone are those that the refutation rests on. -/
theorem mem_cone_iff_restsOn (hp : p.WellFormed) {witness key : Nat}
    (h : witnessOf p = .ok witness) : key ∈ cone p.antecedentsAt witness ↔ p.RestsOn key :=
  (mem_cone_iff hp.descends_antecedentsAt).trans (restsOn_iff h).symm

/-- What has gone well when there is an interpolant. -/
theorem interpolate_cases {next : Nat} {i : Interpolant}
    (h : interpolate p labels config next = .ok i) :
    config.mode.value = .asymmetric ∧ firstUnlabelled? p labels = none ∧
      ∃ witness replay edge, witnessOf p = .ok witness ∧
        Replay.visitAll p labels config (cone p.antecedentsAt witness) = .ok replay ∧
        replay.interpolants.find? witness = some edge ∧
        replay.circuit.extract edge = (i.output, i.circuit) ∧
        Encoding.encode i.circuit i.output next = .ok (i.clauses, i.next) ∧ i.first = next := by
  unfold interpolate at h
  cases hmode : config.mode.value with
  | symmetric =>
    rw [hmode] at h
    exact absurd h (by simp)
  | asymmetric =>
    rw [hmode] at h
    obtain ⟨witness, hwitness, h⟩ := bind_eq_ok_iff.mp h
    cases hlabelled : firstUnlabelled? p labels with
    | some id =>
      rw [hlabelled] at h
      exact absurd h (by simp)
    | none =>
      rw [hlabelled] at h
      obtain ⟨replay, hreplay, h⟩ := bind_eq_ok_iff.mp h
      cases hfound : replay.interpolants.find? witness with
      | none =>
        rw [hfound] at h
        exact absurd h (by simp)
      | some edge =>
        rw [hfound] at h
        obtain ⟨encoded, hencode, h⟩ := bind_eq_ok_iff.mp h
        obtain rfl := Except.ok.inj h
        exact ⟨rfl, rfl, witness, replay, edge, hwitness, hreplay, hfound, rfl, hencode, rfl⟩

/-- **Every interpolant came from a valid replay.** -/
theorem interpolated (hp : p.WellFormed) {next : Nat} {i : Interpolant}
    (h : interpolate p labels config next = .ok i) :
    ∃ witness edge replay, Interpolated p labels config next i witness edge replay := by
  obtain ⟨-, -, witness, replay, edge, hwitness, hreplay, hfound, hextract, hencode, hfirst⟩ :=
    interpolate_cases h
  have hvalid := Replay.Valid.visitAll
    (fun key hkey => (mem_cone_iff_restsOn hp hwitness).mp hkey) hreplay
  exact ⟨witness, edge, replay, hwitness, hreplay, hvalid, hfound, hextract, hencode, hfirst⟩

section

variable {next : Nat} {i : Interpolant} {witness : Nat} {edge : Edge}

namespace Interpolated

theorem edge_lt (h : Interpolated p labels config next i witness edge replay) :
    edge.node < replay.circuit.size :=
  h.valid.lt h.found

theorem output_eq (h : Interpolated p labels config next i witness edge replay) :
    i.output = (replay.circuit.extract edge).1 := by
  rw [h.extract]

theorem circuit_eq (h : Interpolated p labels config next i witness edge replay) :
    i.circuit = (replay.circuit.extract edge).2 := by
  rw [h.extract]

theorem canonical (h : Interpolated p labels config next i witness edge replay) :
    i.circuit.Canonical := by
  rw [h.circuit_eq]
  exact (Circuit.built_extract h.valid.built.canonical h.edge_lt).canonical

theorem lt (h : Interpolated p labels config next i witness edge replay) :
    i.output.node < i.circuit.size := by
  rw [h.output_eq, h.circuit_eq]
  exact Circuit.lt_size_extract h.valid.built.canonical h.edge_lt

/-- The circuit is one over the variables that an interpolant may speak of. -/
theorem circuit_over (h : Interpolated p labels config next i witness edge replay) :
    i.circuit.Over (labels.Speaks p) := by
  rw [h.circuit_eq]
  exact h.valid.over_extract h.found

/-- The interpolant is the partial interpolant of the empty clause. -/
theorem evaluate_eq (h : Interpolated p labels config next i witness edge replay) :
    i.evaluate = replay.circuit.evaluate edge := by
  funext v
  rw [Interpolant.evaluate, h.output_eq, h.circuit_eq]
  exact Circuit.evaluate_extract h.valid.built.canonical h.edge_lt v

/-- Nothing is in the circuit that the output does not need. -/
theorem mem_cone (h : Interpolated p labels config next i witness edge replay) {k : Nat}
    (h0 : k ≠ 0) (hk : k < i.circuit.size) : k ∈ i.circuit.cone i.output := by
  rw [h.circuit_eq] at hk
  rw [h.output_eq, h.circuit_eq]
  exact Circuit.mem_cone_extract h.valid.built.canonical h.edge_lt h0 hk

end Interpolated

end

/-- An interpolant never speaks of zero. -/
theorem Labelling.Speaks.ne_zero (hp : p.WellFormed) {atom : Nat} (h : labels.Speaks p atom) :
    atom ≠ 0 := by
  obtain ⟨-, clause, ⟨key, record, -, hrecord, -, -, rfl⟩, hatom⟩ := h
  obtain ⟨l, hl, rfl⟩ := List.mem_map.mp hatom
  exact Literal.atom_ne_zero (hp.proper hrecord l hl).1

/-! ## A refutation in two parts -/

/-- A refutation of `10 ∨ 2` and `¬10 ∨ 3` together with `¬2`, `¬3` and `2 ∨ 4`.  The
last of these is among the antecedents of `2 ∨ 3`, but is not needed there. -/
def splitRefutation : Proof :=
  Proof.run {} [.premise 1 false [10, 2] false, .premise 2 false [-10, 3] false,
    .premise 3 false [-2] false, .premise 4 false [-3] false, .premise 5 false [2, 4] false,
    .derived 6 false [2, 3] [5, 1, 2], .conclude .conflict [3, 4, 6]]

theorem reachable_splitRefutation : splitRefutation.Reachable := Proof.Reachable.start.run _

/-- The first two premises are one part and the others the other, and 10 is local. -/
def splitLabelling : Labelling :=
  ((((((({} : Labelling).setScope 10 (.localTo .a)).2.setPartAt 0 .a).setPartAt 1 .a).setPartAt 2
    .b).setPartAt 3 .b).setPartAt 4 .b)

/-- The interpolant `2 ∨ 3`, with a fresh variable for `¬2 ∧ ¬3`. -/
def splitInterpolant (fresh : Nat) : Interpolant :=
  let gate := Literal.ofAtom fresh true
  { clauses := [[gate.negate, -2], [gate.negate, -3], [gate, 2, 3], [gate.negate]]
    first := fresh
    next := fresh + 1
    circuit := ⟨#[.bottom, .input 2, .input 3, .and (.ofNode 1 true) (.ofNode 2 true)]⟩
    output := .ofNode 3 true }

theorem interpolate_splitRefutation :
    interpolate splitRefutation splitLabelling {} 20 = .ok (splitInterpolant 20) := rfl

end Interpolation
