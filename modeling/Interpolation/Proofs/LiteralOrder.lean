import Interpolation.Proofs.RecordRenaming
import Interpolation.Proofs.ReplaySizes

/-!
# The order of literals in clauses

A clause is written down as a list, and lists differ where clauses do not: the literals can come
in another order, and one of them more than once.  Two solvers that record the same refutation
but for this are to have interpolants that say the same.

They need not have the same interpolant.  The disjunction of the shared literals of a premise is
built one literal after another, so another order leads to other nodes; and where a premise has
a literal with its negation, the order decides how much is built before it all folds away.  So
the two circuits are compared by the values of their edges alone (`Circuit.Agree`): the
replays go alike, and at every moment the edges found for a record in the one and in the other
stand for the same function (`Replay.Rephrases`).

Chains are read alike because what an antecedent clashes with, and what is left of it, are
questions of membership.  And an error is the same, except that the variable named as mislabelled
is the first of those in the clause at hand, and with another order another comes first.  Only the
encoding can part the two, since it needs a variable for each node.

* `Alike.bind`, `mapM_forall₂` --- computations that go alike;
* `runChain_congr` --- chains of clauses with the same literals;
* `Replay.alike_visitAll_of_rephrases` --- the replays of two refutations;
* `interpolate_of_rephrases` --- the order of literals has no say in what an interpolant says.
-/

namespace Interpolation

/-! ## Clauses with the same literals -/

namespace Clause

/-- Whether two clauses have the same literals, in whatever order and however often. -/
def SameSet (c d : Clause) : Prop := ∀ l, l ∈ d ↔ l ∈ c

instance (c d : Clause) : Decidable (c.SameSet d) :=
  decidable_of_iff ((∀ l ∈ d, l ∈ c) ∧ ∀ l ∈ c, l ∈ d)
    ⟨fun h l => ⟨h.1 l, h.2 l⟩, fun h => ⟨fun l => (h l).mp, fun l => (h l).mpr⟩⟩

namespace SameSet

variable {c d r r' a a' : Clause}

theorem forall_mem (h : c.SameSet d) {P : Literal → Prop} : (∀ l ∈ d, P l) ↔ ∀ l ∈ c, P l :=
  forall_congr' fun l => imp_congr_left (h l)

/-- They have the same values. -/
theorem satisfiedBy_eq (h : c.SameSet d) (v : Nat → Bool) : d.satisfiedBy v = c.satisfiedBy v := by
  rw [Bool.eq_iff_iff, satisfiedBy_iff, satisfiedBy_iff]
  exact exists_congr fun l => and_congr_left' (h l)

theorem isEmpty_eq (h : c.SameSet d) : d.isEmpty = c.isEmpty := by
  rw [Bool.eq_iff_iff, List.isEmpty_iff, List.isEmpty_iff, List.eq_nil_iff_forall_not_mem,
    List.eq_nil_iff_forall_not_mem]
  exact forall_congr' fun l => not_congr (h l)

/-- Those among the literals that meet a condition are the same. -/
theorem filter (h : c.SameSet d) (P : Literal → Bool) : SameSet (c.filter P) (d.filter P) := by
  intro l
  rw [List.mem_filter, List.mem_filter]
  exact and_congr_left' (h l)

/-- They clash with the same. -/
theorem clash_eq (hr : r.SameSet r') (ha : a.SameSet a') : clash r' a' = clash r a := by
  have habsent : clash r' a' = .absent ↔ clash r a = .absent := by
    rw [clash_eq_absent_iff, clash_eq_absent_iff, ha.forall_mem]
    exact forall₂_congr fun l _ => not_congr (hr l.negate)
  have hon (pivot : Literal) : clash r' a' = .on pivot ↔ clash r a = .on pivot := by
    rw [clash_eq_on_iff, clash_eq_on_iff, ha.forall_mem]
    refine and_congr (and_congr (ha pivot) (hr pivot.negate)) ?_
    exact forall₂_congr fun l _ => imp_congr_left (hr l.negate)
  cases h : clash r a with
  | absent => exact habsent.mpr h
  | on pivot => exact (hon pivot).mpr h
  | several =>
    cases h' : clash r' a' with
    | absent =>
      rw [habsent.mp h'] at h
      exact absurd h (by simp)
    | on pivot =>
      rw [(hon pivot).mp h'] at h
      exact absurd h (by simp)
    | several => rfl

/-- And they are resolved to the same. -/
theorem resolve (hr : r.SameSet r') (ha : a.SameSet a') (pivot : Literal) :
    SameSet (Interpolation.resolve r a pivot) (Interpolation.resolve r' a' pivot) := by
  intro l
  rw [mem_resolve_iff, mem_resolve_iff]
  exact or_congr (and_congr_left' (hr l)) (and_congr_left' (ha l))

end SameSet
end Clause

/-! ## Chains -/

/-- Whether two readings of a chain resolve on the same literals, to clauses that have the same
literals. -/
structure ChainRun.Rephrases (run run' : ChainRun) : Prop where
  /-- The pivots are the same. -/
  pivots : run'.pivots = run.pivots
  /-- The literals are the same. -/
  resolvent : run.resolvent.SameSet run'.resolvent

/-- **Chains are read alike** when their clauses have the same literals. -/
theorem runChain_congr {strict : Bool} {r r' : Clause} (h : r.SameSet r')
    {chain chain' : List Clause} (hchain : List.Forall₂ Clause.SameSet chain chain') :
    Option.Rel ChainRun.Rephrases (runChain strict r chain) (runChain strict r' chain') := by
  induction hchain generalizing r r' with
  | nil => exact .some ⟨rfl, h⟩
  | @cons a a' rest rest' ha _ ih =>
    -- what follows is read alike, and the same pivot is put in front
    have hmap {s s' : Clause} (hs : s.SameSet s') (pivot : Option Literal) :
        Option.Rel ChainRun.Rephrases
          ((runChain strict s rest).map fun run => { run with pivots := pivot :: run.pivots })
          ((runChain strict s' rest').map
            fun run => { run with pivots := pivot :: run.pivots }) := by
      have hrest := ih hs
      generalize runChain strict s rest = found, runChain strict s' rest' = found' at hrest
      cases hrest with
      | none => exact .none
      | some hrun => exact .some ⟨congrArg (pivot :: ·) hrun.pivots, hrun.resolvent⟩
    unfold runChain
    rw [h.clash_eq ha]
    cases clash r a with
    | several => exact .none
    | absent =>
      cases strict with
      | true => exact .none
      | false => exact hmap h none
    | on pivot => exact hmap (h.resolve ha pivot) (some pivot)

/-- Whether a resolvent is acceptable depends on the literals alone. -/
theorem derives_congr {r r' c c' : Clause} (hr : r.SameSet r') (hc : c.SameSet c')
    (config : Config) : derives config r' c' = derives config r c := by
  have hall : r'.all (· ∈ c') = r.all (· ∈ c) := by
    rw [Bool.eq_iff_iff, List.all_eq_true, List.all_eq_true, hr.forall_mem]
    simp only [decide_eq_true_eq, hc _]
  unfold derives
  rw [hall, hc.isEmpty_eq]

/-- Looking up the members of a list in two ways goes alike when it does for each. -/
theorem mapM_forall₂ {α β γ : Type} {R : α → β → Prop} {f : γ → Option α} {g : γ → Option β}
    {l : List γ} (h : ∀ c ∈ l, Option.Rel R (f c) (g c)) :
    Option.Rel (List.Forall₂ R) (l.mapM f) (l.mapM g) := by
  induction l with
  | nil => exact .some .nil
  | cons c l ih =>
    have hc := h c List.mem_cons_self
    have hl := ih fun c' hc' => h c' (List.mem_cons_of_mem c hc')
    rw [List.mapM_cons, List.mapM_cons]
    generalize f c = a, g c = b at hc
    generalize l.mapM f = as, l.mapM g = bs at hl
    cases hc with
    | none => exact .none
    | some hab =>
      cases hl with
      | none => exact .none
      | some habs => exact .some (.cons hab habs)

/-! ## Edges of two circuits -/

open Circuit (Makes Built)

/-- Whether edges of two circuits stand for the same function. -/
structure Circuit.Agree (c c' : Circuit) (e e' : Edge) : Prop where
  /-- The one is an edge of the one circuit. -/
  lt : e.node < c.size
  /-- The other is an edge of the other circuit. -/
  lt' : e'.node < c'.size
  /-- They have the same values, if the circuits are addressable. -/
  evaluate : c.Addressable → c'.Addressable → c'.evaluate e' = c.evaluate e

/-- Edges go on standing for the same function when circuits grow. -/
theorem Circuit.Agree.grow {c c' d d' : Circuit} {e e' : Edge} (h : c.Agree c' e e') (hle : c ≤ d)
    (hle' : c' ≤ d') : d.Agree d' e e' where
  lt := Nat.lt_of_lt_of_le h.lt (Circuit.size_le_of_le hle)
  lt' := Nat.lt_of_lt_of_le h.lt' (Circuit.size_le_of_le hle')
  evaluate hsize hsize' := by
    rw [Circuit.evaluate_eq_of_le hle h.lt, Circuit.evaluate_eq_of_le hle' h.lt',
      h.evaluate (hsize.of_le hle) (hsize'.of_le hle')]

theorem Circuit.Agree.symm {c c' : Circuit} {e e' : Edge} (h : c.Agree c' e e') :
    c'.Agree c e' e :=
  ⟨h.lt', h.lt, fun hsize hsize' => (h.evaluate hsize' hsize).symm⟩

theorem Circuit.Agree.lt_of_forall₂ {c c' : Circuit} {edges edges' : List Edge}
    (h : List.Forall₂ (c.Agree c') edges edges') : ∀ e ∈ edges, e.node < c.size :=
  ((List.forall₂_and_left edges edges').mp (h.imp fun _ _ hagree => ⟨hagree.lt, hagree⟩)).1

/-- Whether two operations, each on a circuit of its own, make edges for the same function, if the
circuits are addressable. -/
def MadeAlike (c c' : Circuit) (made made' : Edge × Circuit) : Prop :=
  ∃ f f', Makes (fun _ => True) c made f ∧ Makes (fun _ => True) c' made' f' ∧
    (c.Addressable → c'.Addressable → f' = f)

/-- The edges that are made agree. -/
theorem MadeAlike.agree {c c' : Circuit} {made made' : Edge × Circuit}
    (h : MadeAlike c c' made made') : made.2.Agree made'.2 made.1 made'.1 := by
  obtain ⟨f, f', hmade, hmade', hf⟩ := h
  refine ⟨hmade.lt, hmade'.lt, fun hsize hsize' => ?_⟩
  rw [hmade.evaluate_eq hsize, hmade'.evaluate_eq hsize',
    hf (hsize.of_le hmade.le) (hsize'.of_le hmade'.le)]

/-! ## Errors -/

namespace InterpolationError

/-- The error without the variable that is named as mislabelled. -/
def anonymous : InterpolationError → InterpolationError
  | mislabelledVariable id _ => mislabelledVariable id 0
  | e => e

/-- Whether it is the encoding that failed, for want of fresh variables. -/
def encodes : InterpolationError → Bool
  | atomsExhausted => true
  | invalidFreshVariable _ => true
  | _ => false

end InterpolationError

open InterpolationError (anonymous)

section

variable {ε ε' α β γ : Type}

/-- Errors may be read otherwise before or after one computation follows another. -/
theorem mapError_bind (g : ε → ε') (x : Except ε α) (f : α → Except ε β) :
    (x >>= f).mapError g = x.mapError g >>= fun a => (f a).mapError g := by
  cases x <;> rfl

theorem mapError_foldlM (g : ε → ε') (f : α → γ → Except ε α) (l : List γ) (a : α) :
    (l.foldlM f a).mapError g = l.foldlM (fun a c => (f a c).mapError g) a := by
  induction l generalizing a with
  | nil => rfl
  | cons c l ih =>
    rw [List.foldlM_cons, List.foldlM_cons, mapError_bind]
    exact bind_congr fun a' => ih a'

theorem mapError_eq_error_iff {g : ε → ε'} {x : Except ε α} {e' : ε'} :
    x.mapError g = .error e' ↔ ∃ e, x = .error e ∧ g e = e' := by
  cases x <;> simp [Except.mapError]

theorem Alike.refl (x : Except ε α) : Alike (· = ·) x x := by
  cases x with
  | error e => exact .error e
  | ok a => exact .ok rfl

end

/-! ## Refutations with other literals -/

/-- Whether two records differ in the order of their literals at most, and in how often each is
there. -/
structure Record.Rephrases (r s : Record) : Prop where
  /-- The identifier is the same. -/
  id : s.id = r.id
  /-- The clauses have the same literals. -/
  clause : r.clause.SameSet s.clause
  /-- The clause comes from the same source. -/
  source : s.source = r.source
  /-- The antecedents are the same, in the same order. -/
  antecedents : s.antecedents = r.antecedents

instance (r s : Record) : Decidable (r.Rephrases s) :=
  decidable_of_iff (s.id = r.id ∧ r.clause.SameSet s.clause ∧ s.source = r.source ∧
      s.antecedents = r.antecedents)
    ⟨fun ⟨hid, hclause, hsource, hantecedents⟩ => ⟨hid, hclause, hsource, hantecedents⟩,
      fun h => ⟨h.id, h.clause, h.source, h.antecedents⟩⟩

/-- Whether two proofs differ in the order of literals at most, and in how often each is there.
Which clauses are active is left open, as is what would be found under an identifier. -/
structure Proof.Rephrases (p q : Proof) : Prop where
  /-- There are as many records. -/
  size : q.size = p.size
  /-- Records at the same key differ in their literals at most. -/
  record : ∀ key, ∀ r ∈ p.record? key, ∀ s ∈ q.record? key, r.Rephrases s
  /-- The refutation is the same. -/
  refutation : q.refutation = p.refutation

variable {p q : Proof} {labels : Labelling} {config : Config} {replay replay' : Replay}

namespace Proof.Rephrases

variable (h : p.Rephrases q)

include h

theorem rel_record? (key : Nat) : Option.Rel Record.Rephrases (p.record? key) (q.record? key) :=
  Proof.rel_record?_of_size h.size (fun hr hs => h.record _ _ hr _ hs) key

theorem antecedentsAt_eq : q.antecedentsAt = p.antecedentsAt :=
  Proof.antecedentsAt_congr h.rel_record? fun hrecord => hrecord.antecedents

theorem witnessOf_eq : witnessOf q = witnessOf p := by
  rw [witnessOf, witnessOf, h.refutation]

theorem firstUnlabelled?_eq (labels : Labelling) :
    firstUnlabelled? q labels = firstUnlabelled? p labels :=
  firstUnlabelled?_congr h.rel_record? h.size (fun hrecord => ⟨hrecord.source, hrecord.id⟩) labels

end Proof.Rephrases

/-! ## Premises -/

/-- The partial interpolant of a premise depends on the literals alone. -/
theorem Labelling.premiseValue_congr {c d : Clause} (h : c.SameSet d) (labels : Labelling)
    (part : Part) : labels.premiseValue part d = labels.premiseValue part c := by
  funext v
  cases part with
  | a => exact (h.filter fun l => decide (labels.scopeOf l.atom = .shared)).satisfiedBy_eq v
  | b => rfl

/-- **Premises with the same literals go alike:** either both are mislabelled, or both have the
same partial interpolant. -/
theorem alike_premiseInterpolant {c c' : Circuit} (hc : Built (fun _ => True) c)
    (hc' : Built (fun _ => True) c') {d d' : Clause} (h : d.SameSet d') (part : Part) (id : Nat) :
    Alike (MadeAlike c c') ((premiseInterpolant labels c part id d).mapError anonymous)
      ((premiseInterpolant labels c' part id d').mapError anonymous) := by
  have hmakes {c : Circuit} (hc : Built (fun _ => True) c) {clause : Clause}
      {made : Edge × Circuit} (hmade : premiseInterpolant labels c part id clause = .ok made) :
      (∀ l ∈ clause, labels.Allows part l) ∧
        Makes (fun _ => True) c made (labels.premiseValue part clause) :=
    makes_premiseInterpolant (fun _ _ _ _ => trivial) hc hmade
  cases hmade : premiseInterpolant labels c part id d with
  | ok made =>
    obtain ⟨hallows, hvalue⟩ := hmakes hc hmade
    obtain ⟨made', hmade'⟩ := exists_premiseInterpolant (h.forall_mem.mpr hallows) id c'
    obtain ⟨-, hvalue'⟩ := hmakes hc' hmade'
    rw [Labelling.premiseValue_congr h] at hvalue'
    rw [hmade']
    exact .ok ⟨_, _, hvalue, hvalue', fun _ _ => rfl⟩
  | error e =>
    cases hmade' : premiseInterpolant labels c' part id d' with
    | ok made' =>
      obtain ⟨hallows, -⟩ := hmakes hc' hmade'
      obtain ⟨made, hok⟩ := exists_premiseInterpolant (h.forall_mem.mp hallows) id c
      rw [hok] at hmade
      exact absurd hmade (by simp)
    | error e' =>
      obtain ⟨front, l, back, -, -, -, rfl⟩ := premiseInterpolant_eq_error_iff.mp hmade
      obtain ⟨front', l', back', -, -, -, rfl⟩ := premiseInterpolant_eq_error_iff.mp hmade'
      exact .error _

/-! ## Derived clauses -/

/-- Whether an antecedent is the same up to the order of its literals, and its edge agrees. -/
structure StepsAlike (c c' : Circuit) (step step' : Clause × Edge) : Prop where
  /-- The clauses have the same literals. -/
  clause : step.1.SameSet step'.1
  /-- The edges stand for the same function. -/
  edge : c.Agree c' step.2 step'.2

/-- **Chains that go alike make the same of edges that agree.** -/
theorem madeAlike_foldl_join {c c' : Circuit} (hc : Built (fun _ => True) c)
    (hc' : Built (fun _ => True) c') (pivots : List (Option Literal)) {e e' : Edge}
    (he : c.Agree c' e e') {edges edges' : List Edge}
    (hedges : List.Forall₂ (c.Agree c') edges edges') :
    MadeAlike c c' ((pivots.zip edges).foldl (join labels) (e, c))
      ((pivots.zip edges').foldl (join labels) (e', c')) := by
  have hmakes : Makes _ c ((pivots.zip edges).foldl (join labels) (e, c)) _ :=
    makes_foldl_join labels pivots (e, c) hc he.lt (Circuit.Agree.lt_of_forall₂ hedges)
  have hflip : List.Forall₂ (c'.Agree c) edges' edges :=
    List.Forall₂.flip (hedges.imp fun _ _ h => h.symm)
  have hmakes' : Makes _ c' ((pivots.zip edges').foldl (join labels) (e', c')) _ :=
    makes_foldl_join labels pivots (e', c') hc' he.lt' (Circuit.Agree.lt_of_forall₂ hflip)
  refine ⟨_, _, hmakes, hmakes', fun hsize hsize' => ?_⟩
  have hvalues : List.Forall₂ (· = ·) (edges.map c.evaluate) (edges'.map c'.evaluate) := by
    rw [List.forall₂_map_left_iff, List.forall₂_map_right_iff]
    exact hedges.imp fun _ _ h => (h.evaluate hsize hsize').symm
  rw [List.forall₂_eq_eq_eq] at hvalues
  show (pivots.zip (edges'.map c'.evaluate)).foldl labels.joinValues (c'.evaluate e') = _
  rw [← hvalues, he.evaluate hsize hsize']

namespace Replay

/-- Whether the edges found in two replays agree, each in the circuit of its replay. -/
structure Rephrases (replay replay' : Replay) : Prop where
  /-- The one circuit is built by the building operations. -/
  built : Built (fun _ => True) replay.circuit
  /-- So is the other. -/
  built' : Built (fun _ => True) replay'.circuit
  /-- Under every key no edges were found, or edges that agree. -/
  find? : ∀ key, Option.Rel (replay.circuit.Agree replay'.circuit)
    (replay.interpolants.find? key) (replay'.interpolants.find? key)

namespace Rephrases

theorem start : Rephrases {} {} := ⟨.empty, .empty, fun _ => .none⟩

/-- Edges are found for one more record. -/
theorem insert (h : replay.Rephrases replay') (key : Nat) {made made' : Edge × Circuit}
    (hmade : MadeAlike replay.circuit replay'.circuit made made') :
    Rephrases { circuit := made.2, interpolants := replay.interpolants.insert key made.1 }
      { circuit := made'.2, interpolants := replay'.interpolants.insert key made'.1 } := by
  have hagree := hmade.agree
  obtain ⟨f, f', hmakes, hmakes', -⟩ := hmade
  refine ⟨hmakes.built, hmakes'.built, fun k => ?_⟩
  rw [NatMap.find?_insert, NatMap.find?_insert]
  split
  · exact .some hagree
  · have hk := h.find? k
    generalize replay.interpolants.find? k = found, replay'.interpolants.find? k = found' at hk
    cases hk with
    | none => exact .none
    | some hedge => exact .some (hedge.grow hmakes.le hmakes'.le)

/-- Antecedents are found alike. -/
theorem antecedent? (h : replay.Rephrases replay') (hp : p.Rephrases q) (key : Nat) :
    Option.Rel (StepsAlike replay.circuit replay'.circuit) (antecedent? p replay key)
      (Interpolation.antecedent? q replay' key) := by
  have hrecord := hp.rel_record? key
  have hedge := h.find? key
  unfold Interpolation.antecedent?
  generalize p.record? key = found, q.record? key = found' at hrecord
  generalize replay.interpolants.find? key = edge, replay'.interpolants.find? key = edge' at hedge
  cases hrecord with
  | none => exact .none
  | some hrecord =>
    cases hedge with
    | none => exact .none
    | some hedge => exact .some ⟨hrecord.clause, hedge⟩

/-- **Derived clauses go alike.** -/
theorem alike_derivedInterpolant (h : replay.Rephrases replay') (hp : p.Rephrases q)
    {record record' : Record} (hrecord : record.Rephrases record') :
    Alike (MadeAlike replay.circuit replay'.circuit)
      ((derivedInterpolant p labels config replay record).mapError anonymous)
      ((derivedInterpolant q labels config replay' record').mapError anonymous) := by
  have hmalformed : malformed record' = malformed record := by
    rw [malformed, malformed, hrecord.id]
  have hsteps := mapM_forall₂ (l := record.antecedents.reverse) fun key _ => h.antecedent? hp key
  unfold derivedInterpolant
  rw [hrecord.antecedents, hmalformed]
  generalize record.antecedents.reverse.mapM (Interpolation.antecedent? p replay) = found,
    record.antecedents.reverse.mapM (Interpolation.antecedent? q replay') = found' at hsteps
  cases hsteps with
  | none => exact .error _
  | some hsteps =>
    cases hsteps with
    | nil => exact .error _
    | @cons step step' rest rest' hstep hrest =>
      have hclauses : List.Forall₂ Clause.SameSet (rest.map (·.1)) (rest'.map (·.1)) := by
        rw [List.forall₂_map_left_iff, List.forall₂_map_right_iff]
        exact hrest.imp fun _ _ hs => hs.clause
      have hedges : List.Forall₂ (replay.circuit.Agree replay'.circuit) (rest.map (·.2))
          (rest'.map (·.2)) := by
        rw [List.forall₂_map_left_iff, List.forall₂_map_right_iff]
        exact hrest.imp fun _ _ hs => hs.edge
      have hrun : Option.Rel ChainRun.Rephrases
          (runChain config.strictChains.value step.1 (rest.map (·.1))) _ :=
        runChain_congr hstep.clause hclauses
      obtain ⟨last, edge⟩ := step
      obtain ⟨last', edge'⟩ := step'
      dsimp only at hrun ⊢
      generalize runChain config.strictChains.value last (rest.map (·.1)) = read,
        runChain config.strictChains.value last' (rest'.map (·.1)) = read' at hrun
      cases hrun with
      | none => exact .error _
      | @some run run' hrun =>
        dsimp only
        rw [derives_congr hrun.resolvent hrecord.clause, hrun.pivots]
        split
        · exact .ok (madeAlike_foldl_join h.built h.built' run.pivots hstep.edge hedges)
        · exact .error _

/-- **Records go alike.** -/
theorem alike_recordInterpolant (h : replay.Rephrases replay') (hp : p.Rephrases q) (key : Nat)
    {record record' : Record} (hrecord : record.Rephrases record') :
    Alike (MadeAlike replay.circuit replay'.circuit)
      ((recordInterpolant p labels config replay key record).mapError anonymous)
      ((recordInterpolant q labels config replay' key record').mapError anonymous) := by
  unfold recordInterpolant
  rw [hrecord.source, hrecord.id]
  cases record.source with
  | derived => exact h.alike_derivedInterpolant hp hrecord
  | premise =>
    cases labels.partAt? key with
    | none => exact .error _
    | some part =>
      exact alike_premiseInterpolant h.built h.built' hrecord.clause part (record.id.getD 0)

/-- So visiting them does. -/
theorem alike_visit (h : replay.Rephrases replay') (hp : p.Rephrases q) (key : Nat) :
    Alike Rephrases ((replay.visit p labels config key).mapError anonymous)
      ((replay'.visit q labels config key).mapError anonymous) := by
  have hfound := hp.rel_record? key
  unfold visit
  generalize p.record? key = found, q.record? key = found' at hfound
  cases hfound with
  | none => exact .error _
  | some hrecord =>
    dsimp only
    rw [mapError_bind, mapError_bind]
    exact (h.alike_recordInterpolant hp key hrecord).bind fun hmade => .ok (h.insert key hmade)

end Rephrases

/-- **Two refutations with the same literals are replayed alike.** -/
theorem alike_visitAll_of_rephrases (hp : p.Rephrases q) (labels : Labelling) (config : Config)
    (keys : List Nat) :
    Alike Rephrases ((visitAll p labels config keys).mapError anonymous)
      ((visitAll q labels config keys).mapError anonymous) := by
  have hstep : ∀ key ∈ keys, ∀ {r r' : Replay}, r.Rephrases r' →
      Alike Rephrases ((r.visit p labels config key).mapError anonymous)
        ((r'.visit q labels config (id key)).mapError anonymous) :=
    fun key _ _ _ h => h.alike_visit hp key
  have hfold := Alike.foldlM (f := fun r key => (visit p labels config r key).mapError anonymous)
    (g := fun r key => (visit q labels config r key).mapError anonymous) hstep Rephrases.start
  rw [List.map_id] at hfold
  unfold visitAll
  rw [mapError_foldlM, mapError_foldlM]
  exact hfold

end Replay

/-! ## What is left to encode -/

/-- The circuit of a replayed refutation, with the edge of the empty clause: what an interpolant is
before anything is encoded. -/
def outline (p : Proof) (labels : Labelling) (config : Config) :
    Except InterpolationError (Edge × Circuit) :=
  match config.mode.value with
  | .symmetric => .error (.unsupportedMode .symmetric)
  | .asymmetric => do
    let witness ← witnessOf p
    match firstUnlabelled? p labels with
    | some id => .error (.unknownLabel id)
    | none =>
      let replay ← Replay.visitAll p labels config (cone p.antecedentsAt witness)
      match replay.interpolants.find? witness with
      | none => .error .malformedRefutation
      | some edge => .ok (edge, replay.circuit)

/-- The interpolant that an edge leads to. -/
def encoded (next : Nat) (drawn : Edge × Circuit) : Except InterpolationError Interpolant := do
  let (output, circuit) := drawn.2.extract drawn.1
  let (clauses, following) ← Encoding.encode circuit output next
  .ok { clauses, first := next, next := following, circuit, output }

/-- **An interpolant is outlined and then encoded.** -/
theorem interpolate_eq_bind (p : Proof) (labels : Labelling) (config : Config) (next : Nat) :
    interpolate p labels config next = outline p labels config >>= encoded next := by
  unfold interpolate outline
  cases config.mode.value with
  | symmetric => rfl
  | asymmetric =>
    cases witnessOf p with
    | error e => rfl
    | ok witness =>
      simp only [bind, Except.bind]
      cases firstUnlabelled? p labels with
      | some id => rfl
      | none =>
        cases Replay.visitAll p labels config (cone p.antecedentsAt witness) with
        | error e => rfl
        | ok replay =>
          dsimp only
          cases replay.interpolants.find? witness <;> rfl

/-- The outline of an addressable replay is addressable. -/
theorem Proof.ReplayAddressable.outline (hp : p.ReplayAddressable labels config)
    {drawn : Edge × Circuit} (h : outline p labels config = .ok drawn) : drawn.2.Addressable := by
  unfold Interpolation.outline at h
  split at h
  · exact absurd h (by simp)
  · obtain ⟨witness, hwitness, h⟩ := bind_eq_ok_iff.mp h
    split at h
    · exact absurd h (by simp)
    · obtain ⟨replay, hreplay, h⟩ := bind_eq_ok_iff.mp h
      split at h
      · exact absurd h (by simp)
      · obtain rfl := Except.ok.inj h
        exact hp witness replay hwitness hreplay

/-- Whether two circuits, each with an edge, were built as circuits are and have edges that stand
for the same function. -/
structure DrawnAlike (drawn drawn' : Edge × Circuit) : Prop where
  /-- The one circuit is built by the building operations. -/
  built : Built (fun _ => True) drawn.2
  /-- So is the other. -/
  built' : Built (fun _ => True) drawn'.2
  /-- The edges agree. -/
  agree : drawn.2.Agree drawn'.2 drawn.1 drawn'.1

/-- **Outlines go alike.** -/
theorem alike_outline (hp : p.Rephrases q) (labels : Labelling) (config : Config) :
    Alike DrawnAlike ((outline p labels config).mapError anonymous)
      ((outline q labels config).mapError anonymous) := by
  unfold outline
  rw [hp.witnessOf_eq, hp.firstUnlabelled?_eq, hp.antecedentsAt_eq]
  cases config.mode.value with
  | symmetric => exact .error _
  | asymmetric =>
    dsimp only
    rw [mapError_bind, mapError_bind]
    refine (Alike.refl _).bind ?_
    rintro witness _ rfl
    cases firstUnlabelled? p labels with
    | some id => exact .error _
    | none =>
      dsimp only
      rw [mapError_bind, mapError_bind]
      refine (Replay.alike_visitAll_of_rephrases hp labels config _).bind ?_
      intro replay replay' hreplay
      have hfound := hreplay.find? witness
      generalize replay.interpolants.find? witness = edge,
        replay'.interpolants.find? witness = edge' at hfound
      cases hfound with
      | none => exact .error _
      | some hagree => exact .ok ⟨hreplay.built, hreplay.built', hagree⟩

/-! ## What fails when -/

/-- A record fails for no want of variables. -/
theorem encodes_of_recordInterpolant {key : Nat} {record : Record} {e : InterpolationError}
    (h : recordInterpolant p labels config replay key record = .error e) : e.encodes = false := by
  have hmalformed : (malformed record).encodes = false := by
    unfold malformed
    split <;> rfl
  unfold recordInterpolant at h
  split at h
  · unfold derivedInterpolant at h
    split at h
    · exact Except.error.inj h ▸ hmalformed
    · exact Except.error.inj h ▸ hmalformed
    · split at h
      · exact Except.error.inj h ▸ hmalformed
      · split at h
        · exact absurd h (by simp)
        · exact Except.error.inj h ▸ hmalformed
  · split at h
    · exact Except.error.inj h ▸ rfl
    · obtain ⟨front, l, back, -, -, -, rfl⟩ := premiseInterpolant_eq_error_iff.mp h
      rfl

theorem encodes_of_witnessOf {e : InterpolationError} (h : witnessOf p = .error e) :
    e.encodes = false := by
  unfold witnessOf at h
  split at h
  · exact Except.error.inj h ▸ rfl
  · exact absurd h (by simp)
  · exact Except.error.inj h ▸ rfl
  · exact Except.error.inj h ▸ rfl

/-- Nothing fails for want of variables before it comes to the encoding. -/
theorem encodes_of_outline {e : InterpolationError} (h : outline p labels config = .error e) :
    e.encodes = false := by
  unfold outline at h
  split at h
  · exact Except.error.inj h ▸ rfl
  · rcases bind_eq_error_iff.mp h with hwitness | ⟨witness, -, h⟩
    · exact encodes_of_witnessOf hwitness
    · split at h
      · exact Except.error.inj h ▸ rfl
      · rcases bind_eq_error_iff.mp h with hreplay | ⟨replay, -, h⟩
        · obtain ⟨before, key, after, replay, -, -, hvisit⟩ := foldlM_eq_error_iff.mp hreplay
          unfold Replay.visit at hvisit
          split at hvisit
          · exact Except.error.inj hvisit ▸ rfl
          · rcases bind_eq_error_iff.mp hvisit with hrecord | ⟨made, -, hmade⟩
            · exact encodes_of_recordInterpolant hrecord
            · exact absurd hmade (by simp)
        · split at h
          · exact Except.error.inj h ▸ rfl
          · exact absurd h (by simp)

/-- The encoding fails for nothing else. -/
theorem encodes_of_encoded {next : Nat} {drawn : Edge × Circuit} {e : InterpolationError}
    (h : encoded next drawn = .error e) : e.encodes = true := by
  rcases bind_eq_error_iff.mp h with hencode | ⟨clauses, -, h⟩
  · unfold Encoding.encode at hencode
    split at hencode
    · exact absurd hencode (by simp)
    · split at hencode
      · rcases bind_eq_error_iff.mp hencode with hnames | ⟨names, -, hnames⟩
        · obtain ⟨before, index, after, names, -, -, hnode⟩ := foldlM_eq_error_iff.mp hnames
          unfold Encoding.Naming.addNode at hnode
          split at hnode
          · exact absurd hnode (by simp)
          · split at hnode
            · exact Except.error.inj hnode ▸ rfl
            · exact absurd hnode (by simp)
          · exact absurd hnode (by simp)
        · exact absurd hnames (by simp)
      · exact Except.error.inj hencode ▸ rfl
  · exact absurd h (by simp)

/-- **An interpolant fails before it comes to the encoding just when its outline fails,** and with
the same error; it can be told by the error. -/
theorem interpolate_eq_error_iff {next : Nat} {e : InterpolationError} :
    interpolate p labels config next = .error e ∧ e.encodes = false ↔
      outline p labels config = .error e := by
  rw [interpolate_eq_bind, bind_eq_error_iff]
  constructor
  · rintro ⟨h | ⟨drawn, -, h⟩, hencodes⟩
    · exact h
    · rw [encodes_of_encoded h] at hencodes
      exact absurd hencodes (by decide)
  · exact fun h => ⟨Or.inl h, encodes_of_outline h⟩

/-- An interpolant has the values of its outline. -/
theorem evaluate_of_encoded {next : Nat} {drawn : Edge × Circuit} {i : Interpolant}
    (hbuilt : Built (fun _ => True) drawn.2) (hlt : drawn.1.node < drawn.2.size)
    (h : encoded next drawn = .ok i) : i.evaluate = drawn.2.evaluate drawn.1 := by
  obtain ⟨clauses, -, h⟩ := bind_eq_ok_iff.mp h
  obtain rfl := Except.ok.inj h
  funext v
  exact Circuit.evaluate_extract hbuilt.canonical hlt v

/-- **The order of literals has no say in what an interpolant says,** nor has it any how often a
literal is there.  Take two proofs whose records differ in this alone, with the same refutation,
the same labels and the same settings, and any two counters.  Short of the encoding, the one has
no interpolant just when the other has none, and the errors are the same but for the variable
named if one is mislabelled.  And if both have an interpolant, and the partial interpolants of
neither are more than a circuit has edges for, the two have the same values. -/
theorem interpolate_of_rephrases (hp : p.Rephrases q) (labels : Labelling) (config : Config)
    (next next' : Nat) :
    (∀ e, (∃ e₁, interpolate p labels config next = .error e₁ ∧ e₁.encodes = false ∧
          e₁.anonymous = e) ↔
        ∃ e₂, interpolate q labels config next' = .error e₂ ∧ e₂.encodes = false ∧
          e₂.anonymous = e) ∧
      ∀ i j, interpolate p labels config next = .ok i → interpolate q labels config next' = .ok j →
        p.ReplayAddressable labels config → q.ReplayAddressable labels config →
          ∀ v, j.evaluate v = i.evaluate v := by
  have halike := alike_outline hp labels config
  constructor
  · intro e
    simp only [← and_assoc, interpolate_eq_error_iff, ← mapError_eq_error_iff]
    generalize (outline p labels config).mapError anonymous = found,
      (outline q labels config).mapError anonymous = found' at halike
    cases halike with
    | error e' => exact Iff.rfl
    | ok => simp
  · intro i j hi hj hsize hsize' v
    rw [interpolate_eq_bind, bind_eq_ok_iff] at hi hj
    obtain ⟨drawn, hdrawn, hi⟩ := hi
    obtain ⟨drawn', hdrawn', hj⟩ := hj
    have haddressable := hsize.outline hdrawn
    have haddressable' := hsize'.outline hdrawn'
    rw [hdrawn, hdrawn'] at halike
    cases halike with
    | ok h =>
      rw [evaluate_of_encoded h.built h.agree.lt hi, evaluate_of_encoded h.built' h.agree.lt' hj,
        h.agree.evaluate haddressable haddressable']

/-- A refutation of `2 ∨ 3` together with `¬2` and `¬3`. -/
def plainRefutation : Proof :=
  Proof.run {} [.premise 1 false [2, 3] false, .premise 2 false [-2] false,
    .premise 3 false [-3] false, .conclude .conflict [2, 3, 1]]

/-- The same refutation with its literals in another order, and some of them more than once. -/
def jumbledRefutation : Proof :=
  Proof.run {} [.premise 1 false [3, 2, 3] false, .premise 2 false [-2, -2] false,
    .premise 3 false [-3] false, .conclude .conflict [2, 3, 1]]

/-- The first premise is one part and the others the other. -/
def plainLabelling : Labelling :=
  ((({} : Labelling).setPartAt 0 .a).setPartAt 1 .b).setPartAt 2 .b

/-- The interpolant `3 ∨ 2 ∨ 3`, with fresh variables for `¬3 ∧ ¬2` and `¬3 ∧ (¬3 ∧ ¬2)`. -/
def jumbledInterpolant : Interpolant where
  clauses := [[-30, -3], [-30, -2], [30, 3, 2], [-31, -3], [-31, 30], [31, 3, -30], [-31]]
  first := 30
  next := 32
  circuit := ⟨#[.bottom, .input 3, .input 2, .and (.ofNode 1 true) (.ofNode 2 true),
    .and (.ofNode 1 true) (.ofNode 3 false)]⟩
  output := .ofNode 4 true

/-- The interpolants have the same values, though the one takes a node more than the other. -/
theorem interpolate_of_rephrases_jumbledRefutation :
    plainRefutation.Rephrases jumbledRefutation ∧
      interpolate plainRefutation plainLabelling {} 20 = .ok (splitInterpolant 20) ∧
      interpolate jumbledRefutation plainLabelling {} 30 = .ok jumbledInterpolant ∧
      plainRefutation.ReplayAddressable plainLabelling {} ∧
      jumbledRefutation.ReplayAddressable plainLabelling {} ∧
      ∀ v, jumbledInterpolant.evaluate v = (splitInterpolant 20).evaluate v := by
  have hrecord : ∀ key < 4, ∀ r ∈ plainRefutation.record? key,
      ∀ s ∈ jumbledRefutation.record? key, r.Rephrases s := by decide
  have hp : plainRefutation.Rephrases jumbledRefutation :=
    ⟨by decide, fun key r hr => hrecord key (Proof.lt_size_of_record? hr) r hr, rfl⟩
  have hplain : interpolate plainRefutation plainLabelling {} 20 = .ok (splitInterpolant 20) := rfl
  have hjumbled : interpolate jumbledRefutation plainLabelling {} 30 = .ok jumbledInterpolant := rfl
  have hsize : plainRefutation.ReplayAddressable plainLabelling {} := by
    refine replayAddressable_of_cost _ _ fun witness hwitness => ?_
    obtain rfl : 3 = witness := Except.ok.inj hwitness
    decide
  have hsize' : jumbledRefutation.ReplayAddressable plainLabelling {} := by
    refine replayAddressable_of_cost _ _ fun witness hwitness => ?_
    obtain rfl : 3 = witness := Except.ok.inj hwitness
    decide
  exact ⟨hp, hplain, hjumbled, hsize, hsize',
    (interpolate_of_rephrases hp plainLabelling {} 20 30).2 _ _ hplain hjumbled hsize hsize'⟩

end Interpolation
