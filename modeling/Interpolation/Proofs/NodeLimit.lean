import Interpolation.Proofs.CircuitCalls
import Interpolation.Proofs.LiteralOrder
import Interpolation.Proofs.PrefixReplays

/-!
# Replays past the node limit

What is known of partial interpolants is known as long as a replay makes no more nodes than there
are edges to.  Nothing that is recorded keeps a replay from making more, and no error is reported
when it does.  Here is what happens then.

A premise of part A is made into a disjunction, and each of its variables takes two nodes, one
for itself and one for the disjunction it is taken into (`size_disjunction_consecutive`).  So a
premise can be as long as to leave no node free, or to go past the last one.  If it does, the
next variable asked for gets an edge to some earlier node.

We take a refutation of a premise, of `1` and of `¬1`, of which the premise plays no part but for
the nodes it takes (`visitAll_crowded`).  Where these leave a node free, the interpolant is `1`, as
it should be (`evaluate_crowdedInput`).  Where they leave none, it is false, though part A has a
model.  And where they go one past the last node, as they do if one variable is in the premise
twice, it is another variable of the premise.  So past the limit an interpolant need not follow
from part A, and it can matter how often a literal is in a clause.

* `size_disjunction_consecutive` --- how many nodes a disjunction of variables takes;
* `visitAll_crowded`, `interpolate_crowded` --- what becomes of the refutation, whatever the
  premise;
* `interpolate_crowded_unsound`, `visitAll_crowded_unmediated`, `interpolate_crowded_differs` ---
  what fails past the limit.
-/

namespace Interpolation

/-- Positions that are asked for past the limit are those from zero on once more. -/
theorem Edge.ofNode_limit_add (node : Nat) (negated : Bool) :
    ofNode (nodeLimit + node) negated = ofNode node negated :=
  Edge.ext (Nat.add_mod_left nodeLimit node) rfl

namespace Circuit

/-! ## Disjunctions that take a node -/

@[simp] theorem and_top_left (c : Circuit) (e : Edge) : c.and .top e = (e, c) := by
  by_cases he : e = .bottom
  · rw [and, if_pos (Or.inr (Or.inl he)), he]
  · have hne : ¬ (Edge.top = .bottom ∨ e = .bottom ∨ Edge.top = e.negate) := by
      rintro (h | h | h)
      · exact absurd h (by decide)
      · exact he h
      · exact he (by rw [← e.negate_negate, ← h]; rfl)
    rw [and, if_neg hne, if_pos (Or.inl rfl)]

@[simp] theorem or_bottom_left (c : Circuit) (e : Edge) : c.or .bottom e = (e, c) := by
  rw [or, show Edge.bottom.negate = .top from rfl, and_top_left]
  exact congrArg (·, c) e.negate_negate

/-- A variable that no node has is given the next position. -/
theorem Over.input_of_not {vocabulary : Nat → Prop} {c : Circuit} (h : c.Over vocabulary)
    {atom : Nat} (hatom : ¬ vocabulary atom) :
    c.input atom = (.ofNode c.size false, ⟨c.nodes.push (.input atom)⟩) := by
  refine share_of_notMem fun hmem => ?_
  obtain ⟨i, hi⟩ := Array.getElem?_of_mem hmem
  exact hatom (h hi)

theorem node_literal (c : Circuit) (l : Literal) :
    (c.literal l).1.node = (c.input l.atom).1.node := by
  unfold literal
  cases l.polarity <;> rfl

/-- A conjunction takes a node if its edges lead to two different nodes, neither of them constant
and one of them the last. -/
theorem Canonical.and_of_last {c : Circuit} (hc : c.Canonical) {a b : Edge} (ha : 0 < a.node)
    (hb : 0 < b.node) (hne : a.node ≠ b.node)
    (hlast : c.size ≤ a.node + 1 ∨ c.size ≤ b.node + 1) :
    (c.and a b).1 = .ofNode c.size false ∧ (c.and a b).2.size = c.size + 1 := by
  have ha' := Edge.node_pos_iff.mp ha
  have hb' := Edge.node_pos_iff.mp hb
  rcases and_cases c a b with
    ⟨-, h | h | h⟩ | ⟨-, h | h⟩ | ⟨-, h⟩ | ⟨l, r, hcase, -, hlr, hshare⟩
  · exact absurd h ha'.1
  · exact absurd h hb'.1
  · exact absurd (congrArg Edge.node h) hne
  · exact absurd h ha'.2
  · exact absurd (congrArg Edge.node h) hne
  · exact absurd h hb'.2
  · -- were the conjunction there, it would have to stand after the last node
    have hnew : Node.and l r ∉ c.nodes := by
      intro hmem
      obtain ⟨i, hi⟩ := Array.getElem?_of_mem hmem
      have hri := (hc.ordered hi).2.2
      have hisize := lt_size_of_getElem? hi
      rcases hcase with ⟨rfl, rfl⟩ | ⟨rfl, rfl⟩
      · omega
      · omega
    rw [hshare, share_of_notMem hnew]
    exact ⟨rfl, Array.size_push _⟩

/-- **So does a disjunction.** -/
theorem Canonical.or_of_last {c : Circuit} (hc : c.Canonical) {a b : Edge} (ha : 0 < a.node)
    (hb : 0 < b.node) (hne : a.node ≠ b.node)
    (hlast : c.size ≤ a.node + 1 ∨ c.size ≤ b.node + 1) :
    (c.or a b).1 = .ofNode c.size true ∧ (c.or a b).2.size = c.size + 1 := by
  obtain ⟨hedge, hsize⟩ := hc.and_of_last (a := a.negate) (b := b.negate) ha hb hne hlast
  exact ⟨congrArg Edge.negate hedge, hsize⟩

/-- Takes a literal into a disjunction. -/
def takeIn (state : Edge × Circuit) (l : Literal) : Edge × Circuit :=
  (state.2.literal l).2.or state.1 (state.2.literal l).1

/-- A variable that no node has takes two nodes, and the disjunction is the last. -/
theorem takeIn_of_not {vocabulary : Nat → Prop} {state : Edge × Circuit} {l : Literal}
    (hc : state.2.Canonical) (hover : state.2.Over vocabulary) (hl : ¬ vocabulary l.atom)
    (hpos : 0 < state.1.node) (hlast : state.1.node + 1 = state.2.size)
    (hsize : state.2.size + 2 ≤ nodeLimit) :
    (takeIn state l).1.node + 1 = state.2.size + 2 ∧
      (takeIn state l).2.size = state.2.size + 2 := by
  have hinput := Over.input_of_not hover hl
  have hnode : (state.2.literal l).1.node = state.2.size := by
    rw [node_literal, hinput, Edge.node_ofNode_of_lt (by omega)]
  have hgrown : (state.2.literal l).2.size = state.2.size + 1 := by
    rw [show (state.2.literal l).2 = (state.2.input l.atom).2 from rfl, hinput]
    exact Array.size_push _
  obtain ⟨hedge, hor⟩ := (hc.literal l).or_of_last hpos (b := (state.2.literal l).1) (by omega)
    (by omega) (Or.inr (by omega))
  refine ⟨?_, by rw [takeIn, hor, hgrown]⟩
  rw [takeIn, hedge, hgrown, Edge.node_ofNode_of_lt (by omega)]

/-- A variable that another node has takes one. -/
theorem size_takeIn_of_getElem? {state : Edge × Circuit} {l : Literal} {i : Nat}
    (hc : state.2.Canonical) (hi : state.2.nodes[i]? = some (.input l.atom))
    (hne : state.1.node ≠ i) (hpos : 0 < state.1.node)
    (hlast : state.1.node + 1 = state.2.size) :
    (takeIn state l).2.size = state.2.size + 1 := by
  have hshare := hc.share_of_getElem? hi
  have hnode : (state.2.literal l).1.node = i := by
    have hlt := lt_size_of_getElem? hi
    have hlimit := state.1.lt_limit
    rw [node_literal, input, hshare, Edge.node_ofNode_of_lt (by omega)]
  have hsame : (state.2.literal l).2 = state.2 := by
    show (state.2.share (.input l.atom)).2 = state.2
    rw [hshare]
  have hi0 := hc.ne_zero_of_getElem? hi (by simp)
  rw [takeIn, hsame]
  exact (hc.or_of_last hpos (by omega) (by omega) (Or.inl (by omega))).2

theorem le_takeIn (state : Edge × Circuit) (l : Literal) : state.2 ≤ (takeIn state l).2 :=
  le_trans (le_share state.2 (.input l.atom)) (le_and _ _ _)

/-- The disjunction of the literals of a clause, made in their order and in a circuit of its
own. -/
def disjunction (clause : Clause) : Edge × Circuit := clause.foldl takeIn (.bottom, {})

end Circuit

open Circuit (takeIn disjunction Makes)

/-- Where all variables are shared, taking the literals of a premise of part A into account is to
take them into a disjunction. -/
theorem foldlM_addLiteral_of_shared {labels : Labelling} {clause : Clause}
    (hshared : ∀ l ∈ clause, labels.scopeOf l.atom = .shared) (id : Nat)
    (state : Edge × Circuit) :
    clause.foldlM (addLiteral labels .a id) state = .ok (clause.foldl takeIn state) := by
  induction clause generalizing state with
  | nil => rfl
  | cons l rest ih =>
    have hl : addLiteral labels .a id state l = .ok (takeIn state l) := by
      rw [addLiteral, hshared l List.mem_cons_self]
      rfl
    rw [List.foldlM_cons, hl]
    exact ih (fun m hm => hshared m (List.mem_cons_of_mem l hm)) (takeIn state l)

namespace Circuit

/-- A disjunction has no inputs but the variables of its clause. -/
theorem makes_disjunction (clause : Clause) :
    Makes (fun atom => ∃ l ∈ clause, l.atom = atom) {} (disjunction clause)
      (({} : Labelling).premiseValue .a clause) :=
  (makes_premiseInterpolant (fun _ l hl _ => ⟨l, hl, rfl⟩) .empty
    (foldlM_addLiteral_of_shared (fun _ _ => rfl) 0 _)).2

theorem disjunction_concat (clause : Clause) (l : Literal) :
    disjunction (clause ++ [l]) = takeIn (disjunction clause) l := by
  rw [disjunction, List.foldl_concat]
  rfl

end Circuit

/-- The variables from 2 on, `n` of them. -/
def Clause.consecutive (n : Nat) : Clause := (List.range' 2 n).map fun atom : Nat => ⟨(atom : Int)⟩

theorem Clause.consecutive_succ (n : Nat) :
    consecutive (n + 1) = consecutive n ++ [⟨(n + 2 : Nat)⟩] := by
  rw [consecutive, List.range'_concat, List.map_append, List.map_singleton, Nat.one_mul,
    Nat.add_comm 2 n]
  rfl

theorem Clause.mem_consecutive_iff {n : Nat} {l : Literal} :
    l ∈ consecutive n ↔ ∃ atom, 2 ≤ atom ∧ atom < n + 2 ∧ ⟨(atom : Int)⟩ = l := by
  simp only [consecutive, List.mem_map, List.mem_range'_1, and_assoc, Nat.add_comm 2 n]

theorem Clause.proper_consecutive {n : Nat} (hn : n + 1 ≤ atomMax) :
    ∀ l ∈ consecutive n, l.Proper := by
  intro l hl
  obtain ⟨atom, htwo, hlt, rfl⟩ := mem_consecutive_iff.mp hl
  exact ⟨show (atom : Int) ≠ 0 by omega, show (atom : Int).natAbs ≤ atomMax by omega⟩

namespace Circuit

open Clause (consecutive consecutive_succ mem_consecutive_iff)

/-- **A disjunction of variables takes two nodes for each,** the last for the whole. -/
theorem size_disjunction_consecutive {n : Nat} (hn : 1 ≤ n) (h : 2 * n ≤ nodeLimit) :
    (disjunction (consecutive n)).1.node + 1 = 2 * n ∧
      (disjunction (consecutive n)).2.size = 2 * n := by
  induction n, hn using Nat.le_induction with
  | base => exact ⟨rfl, rfl⟩
  | succ n hn ih =>
    obtain ⟨hlast, hsize⟩ := ih (by omega)
    have hmakes := makes_disjunction (consecutive n)
    have hfresh : ¬ ∃ l ∈ consecutive n, l.atom = n + 2 := by
      rintro ⟨l, hl, hatom⟩
      obtain ⟨atom, -, hlt, rfl⟩ := mem_consecutive_iff.mp hl
      exact Nat.ne_of_lt hlt hatom
    rw [consecutive_succ, disjunction_concat, Nat.mul_succ 2 n, ← hsize]
    exact takeIn_of_not hmakes.built.canonical hmakes.built.over hfresh (by omega)
      (hlast.trans hsize.symm) (by omega)

/-- The first variable has the first position, and keeps it. -/
theorem getElem?_disjunction_consecutive {n : Nat} (hn : 1 ≤ n) :
    (disjunction (consecutive n)).2.nodes[1]? = some (.input 2) := by
  induction n, hn using Nat.le_induction with
  | base => rfl
  | succ n _ ih =>
    rw [consecutive_succ, disjunction_concat, getElem?_of_le (le_takeIn _ _)
      (lt_size_of_getElem? ih), ih]

end Circuit

/-! ## A refutation with a premise to spare -/

/-- A refutation of a clause together with `1` and `¬1`. -/
def crowdedRefutation (clause : Clause) : Proof :=
  Proof.run {} [.premise 1 false clause false, .premise 2 false [1] false,
    .premise 3 false [-1] false, .conclude .conflict [1, 2, 3]]

/-- The first two premises are one part and the last the other. -/
def crowdedLabelling : Labelling :=
  ((({} : Labelling).setPartAt 0 .a).setPartAt 1 .a).setPartAt 2 .b

theorem reachable_crowdedRefutation (clause : Clause) : (crowdedRefutation clause).Reachable :=
  Proof.Reachable.start.run _

variable {clause : Clause}

/-- What is on record of the refutation. -/
theorem crowdedRefutation_eq (hproper : ∀ l ∈ clause, l.Proper) :
    crowdedRefutation clause =
      { records := #[.premise 1 false clause, .premise 2 false [1], .premise 3 false [-1],
          .unnamed [0, 1, 2]]
        active := ((NatMap.empty.insert 1 0).insert 2 1).insert 3 2
        refutation := some ⟨.conflict, [1, 2, 3], some 3⟩ } := by
  have hfirst : Proof.addPremise {} 1 false clause false =
      (.ok 0, { records := #[.premise 1 false clause], active := NatMap.empty.insert 1 0 }) := by
    have hcheck : Proof.checkClause {} 1 clause = .ok () :=
      Proof.checkLiterals_eq_ok_iff.mpr hproper
    unfold Proof.addPremise
    rw [hcheck]
    rfl
  rw [crowdedRefutation, Proof.run, List.foldl_cons, Operation.apply, hfirst]
  rfl

theorem record?_crowdedRefutation (hproper : ∀ l ∈ clause, l.Proper) (key : Nat) :
    (crowdedRefutation clause).record? key =
      #[.premise 1 false clause, .premise 2 false [1], .premise 3 false [-1],
        .unnamed [0, 1, 2]][key]? := by
  rw [crowdedRefutation_eq hproper]
  rfl

/-- The variable 1 after the first premise: its edge, and the circuit. -/
def crowdedInput (clause : Clause) : Edge × Circuit := (disjunction clause).2.input 1

/-- The replay after the first premise. -/
def crowdedStart (clause : Clause) : Replay where
  circuit := (disjunction clause).2
  interpolants := NatMap.empty.insert 0 (disjunction clause).1

/-- The replay after the premises of part A. -/
def crowdedReplay (clause : Clause) : Replay where
  circuit := (crowdedInput clause).2
  interpolants := (crowdedStart clause).interpolants.insert 1 (crowdedInput clause).1

theorem canonical_crowdedReplay (clause : Clause) : (crowdedReplay clause).circuit.Canonical :=
  (Circuit.makes_disjunction clause).built.canonical.input 1

/-- The replay after all premises. -/
def crowdedEnd (clause : Clause) : Replay where
  circuit := (crowdedInput clause).2
  interpolants := (crowdedReplay clause).interpolants.insert 2 .top

/-- The premises of part A are made into disjunctions one after the other. -/
theorem visitAll_crowded_premises (hproper : ∀ l ∈ clause, l.Proper) :
    Replay.visitAll (crowdedRefutation clause) crowdedLabelling {} [0, 1] =
      .ok (crowdedReplay clause) := by
  have hfirst : Replay.visit (crowdedRefutation clause) crowdedLabelling {} {} 0 =
      .ok (crowdedStart clause) :=
    Replay.visit_of_ok (record?_crowdedRefutation hproper 0)
      (foldlM_addLiteral_of_shared (fun _ _ => rfl) 1 (.bottom, {}))
  have hone : recordInterpolant (crowdedRefutation clause) crowdedLabelling {}
      (crowdedStart clause) 1 (.premise 2 false [1]) = .ok (crowdedInput clause) :=
    (foldlM_addLiteral_of_shared (fun _ _ => rfl) 2 (.bottom, (disjunction clause).2)).trans
      (congrArg Except.ok (Circuit.or_bottom_left _ _))
  have hsecond := Replay.visit_of_ok (record?_crowdedRefutation hproper 1) hone
  exact foldlM_cons_eq_ok_iff.mpr ⟨_, hfirst, foldlM_cons_eq_ok_iff.mpr ⟨_, hsecond, rfl⟩⟩

/-- The first premise is skipped, since nothing is left to be resolved. -/
theorem runChain_crowded (clause : Clause) :
    runChain false [-1] [[1], clause] = some ⟨[], [some 1, none]⟩ := by
  have hskip : clash (resolve [-1] [1] 1) clause = .absent :=
    clash_eq_absent_iff.mpr fun l _ => by
      rw [show resolve [-1] [1] 1 = [] by decide]
      exact List.not_mem_nil
  rw [runChain, show clash [-1] [1] = .on 1 by decide]
  simp only [runChain, hskip]
  rfl

/-- **The refutation is left with the edge of the variable 1,** whatever the first premise is. -/
theorem visitAll_crowded (hproper : ∀ l ∈ clause, l.Proper) :
    Replay.visitAll (crowdedRefutation clause) crowdedLabelling {} [0, 1, 2, 3] =
      .ok { circuit := (crowdedInput clause).2
            interpolants :=
              (crowdedEnd clause).interpolants.insert 3 (crowdedInput clause).1 } := by
  have htop : recordInterpolant (crowdedRefutation clause) crowdedLabelling {}
      (crowdedReplay clause) 2 (.premise 3 false [-1]) = .ok (.top, (crowdedInput clause).2) := rfl
  have hthird := Replay.visit_of_ok (record?_crowdedRefutation hproper 2) htop
  have hempty : recordInterpolant (crowdedRefutation clause) crowdedLabelling {}
      (crowdedEnd clause) 3 (.unnamed [0, 1, 2]) = .ok (crowdedInput clause) := by
    have hsteps : [2, 1, 0].mapM (antecedent? (crowdedRefutation clause) (crowdedEnd clause)) =
        some [([-1], .top), ([1], (crowdedInput clause).1), (clause, (disjunction clause).1)] := by
      rw [crowdedRefutation_eq hproper]
      rfl
    show derivedInterpolant _ _ _ _ _ = _
    unfold derivedInterpolant
    rw [show (Record.unnamed [0, 1, 2]).antecedents.reverse = [2, 1, 0] from rfl, hsteps]
    simp only [List.map_cons, List.map_nil, runChain_crowded]
    exact congrArg Except.ok (Circuit.and_top_left _ _)
  have hlast := Replay.visit_of_ok (record?_crowdedRefutation hproper 3) hempty
  rw [Replay.visitAll, show [0, 1, 2, 3] = [0, 1] ++ [2, 3] from rfl, List.foldlM_append]
  exact bind_eq_ok_iff.mpr ⟨_, visitAll_crowded_premises hproper, foldlM_cons_eq_ok_iff.mpr
    ⟨_, hthird, foldlM_cons_eq_ok_iff.mpr ⟨_, hlast, rfl⟩⟩⟩

theorem cone_crowdedRefutation (hproper : ∀ l ∈ clause, l.Proper) :
    cone (crowdedRefutation clause).antecedentsAt 3 = [0, 1, 2, 3] := by
  rw [crowdedRefutation_eq hproper]
  rfl

/-- Where the first premise leaves a node free, that edge has the values of the variable. -/
theorem evaluate_crowdedInput (h : (disjunction clause).2.size < nodeLimit) (v : Nat → Bool) :
    (crowdedInput clause).2.evaluate (crowdedInput clause).1 v = v 1 :=
  (Circuit.provides_input _ 1).evaluate (Nat.le_trans (Circuit.size_share_le _ _) h) v

/-- **The interpolant is the edge of the variable 1,** wherever that leads. -/
theorem interpolate_crowded (hproper : ∀ l ∈ clause, l.Proper) (next : Nat) :
    interpolate (crowdedRefutation clause) crowdedLabelling {} next =
      encoded next (crowdedInput clause) := by
  have hwitness : witnessOf (crowdedRefutation clause) = .ok 3 := by
    rw [crowdedRefutation_eq hproper]
    rfl
  have hlabelled : firstUnlabelled? (crowdedRefutation clause) crowdedLabelling = none := by
    rw [crowdedRefutation_eq hproper]
    rfl
  have hfound : ((crowdedEnd clause).interpolants.insert 3 (crowdedInput clause).1).find? 3 =
      some (crowdedInput clause).1 := NatMap.find?_insert_self _ _ _
  have houtline : outline (crowdedRefutation clause) crowdedLabelling {} =
      .ok (crowdedInput clause) := by
    refine bind_eq_ok_iff.mpr ⟨3, hwitness, ?_⟩
    rw [hlabelled, cone_crowdedRefutation hproper]
    refine bind_eq_ok_iff.mpr ⟨_, visitAll_crowded hproper, ?_⟩
    rw [hfound]
  rw [interpolate_eq_bind, houtline]
  rfl

/-- Where all variables are true, the premises of part A are, if a literal of the first is. -/
theorem satisfiedBy_crowded (hproper : ∀ l ∈ clause, l.Proper)
    (htrue : clause.satisfiedBy (fun _ => true) = true) {key : Nat} {premise : Clause}
    (h : crowdedLabelling.PremiseAt (crowdedRefutation clause) .a key premise) :
    premise.satisfiedBy (fun _ => true) = true := by
  obtain ⟨record, hrecord, hsource, hpart, rfl⟩ := h
  rw [record?_crowdedRefutation hproper] at hrecord
  match key with
  | 0 =>
    obtain rfl := Option.some.inj hrecord
    exact htrue
  | 1 =>
    obtain rfl := Option.some.inj hrecord
    rfl
  | 2 => exact absurd hpart (by decide)
  | 3 =>
    obtain rfl := Option.some.inj hrecord
    exact absurd (show Source.derived = .premise from hsource) (by decide)
  | _ + 4 => exact absurd hrecord (by simp)

/-- The refutations of clauses with the same literals have the same literals. -/
theorem rephrases_crowdedRefutation {other : Clause} (hproper : ∀ l ∈ clause, l.Proper)
    (hproper' : ∀ l ∈ other, l.Proper) (h : clause.SameSet other) :
    (crowdedRefutation clause).Rephrases (crowdedRefutation other) where
  size := by rw [crowdedRefutation_eq hproper, crowdedRefutation_eq hproper']; rfl
  record key r hr s hs := by
    rw [record?_crowdedRefutation hproper] at hr
    rw [record?_crowdedRefutation hproper'] at hs
    match key with
    | 0 =>
      obtain rfl := Option.some.inj hr
      obtain rfl := Option.some.inj hs
      exact ⟨rfl, h, rfl, rfl⟩
    | 1 | 2 | 3 =>
      obtain rfl := Option.some.inj hr
      obtain rfl := Option.some.inj hs
      exact ⟨rfl, fun _ => Iff.rfl, rfl, rfl⟩
    | _ + 4 => exact absurd hr (by simp)
  refutation := by rw [crowdedRefutation_eq hproper, crowdedRefutation_eq hproper']

/-! ## At the limit -/

namespace Circuit

/-- What is cut out of a circuit for falsity has no nodes. -/
theorem extract_bottom (c : Circuit) : c.extract .bottom = (.bottom, {}) := by
  have hcone : c.cone .bottom = [] := by simp [cone, Interpolation.cone, sweep]
  rw [extract, hcone]
  rfl

/-- What is cut out of a circuit for its first variable has that for its node. -/
theorem extract_of_input {c : Circuit} {atom : Nat} (h : c.nodes[1]? = some (.input atom)) :
    c.extract (.ofNode 1 false) = (.ofNode 1 false, ⟨#[.bottom, .input atom]⟩) := by
  have hcone : c.cone (.ofNode 1 false) = [1] := by
    have hchildren : c.children 1 = [] := by rw [children, h]; rfl
    rw [cone, show (Edge.ofNode 1 false).node = 1 from rfl]
    simp [Interpolation.cone, sweep, hchildren]
  rw [extract, hcone, List.foldl_cons, List.foldl_nil, copyNode, h]
  rfl

end Circuit

/-- As many variables as leave no node free.  They are too many to be written out. -/
@[irreducible] def fullClause : Clause := Clause.consecutive (nodeLimit / 2)

/-- The same variables, and one of them once more. -/
def overfullClause : Clause := fullClause ++ [2]

theorem ne_one_of_mem_fullClause {l : Literal} (h : l ∈ fullClause) : l.atom ≠ 1 := by
  rw [fullClause, Clause.mem_consecutive_iff] at h
  obtain ⟨atom, htwo, -, rfl⟩ := h
  exact Nat.ne_of_gt htwo

theorem two_mem_fullClause : (2 : Literal) ∈ fullClause := by
  rw [fullClause, Clause.mem_consecutive_iff]
  exact ⟨2, Nat.le_refl 2, by decide, rfl⟩

theorem mem_overfullClause_iff {l : Literal} : l ∈ overfullClause ↔ l ∈ fullClause := by
  rw [overfullClause, List.mem_append, List.mem_singleton]
  exact ⟨fun h => h.elim id fun hl => hl ▸ two_mem_fullClause, Or.inl⟩

theorem proper_fullClause : ∀ l ∈ fullClause, l.Proper := by
  rw [fullClause]
  exact Clause.proper_consecutive (by decide)

theorem proper_overfullClause : ∀ l ∈ overfullClause, l.Proper := fun l hl =>
  proper_fullClause l (mem_overfullClause_iff.mp hl)

theorem satisfiedBy_fullClause : fullClause.satisfiedBy (fun _ => true) = true :=
  Clause.satisfiedBy_iff.mpr ⟨2, two_mem_fullClause, rfl⟩

/-- A variable that a clause does not have gets the position after the disjunction. -/
theorem crowdedInput_eq (hone : ∀ l ∈ clause, l.atom ≠ 1) :
    crowdedInput clause = (.ofNode (disjunction clause).2.size false,
      ⟨(disjunction clause).2.nodes.push (.input 1)⟩) :=
  Circuit.Over.input_of_not (Circuit.makes_disjunction clause).built.over
    fun ⟨l, hl, hatom⟩ => hone l hl hatom

theorem disjunction_fullClause :
    (disjunction fullClause).1.node + 1 = nodeLimit ∧
      (disjunction fullClause).2.size = nodeLimit := by
  have hlimit : 2 * (nodeLimit / 2) = nodeLimit := by decide
  have hpos : 1 ≤ nodeLimit / 2 := by decide
  have h := Circuit.size_disjunction_consecutive hpos (Nat.le_of_eq hlimit)
  rw [hlimit] at h
  rw [fullClause]
  exact h

/-- The position is past the limit, and the edge is that of the constant. -/
theorem crowdedInput_fullClause : (crowdedInput fullClause).1 = .bottom := by
  rw [crowdedInput_eq fun l hl => ne_one_of_mem_fullClause hl, disjunction_fullClause.2]
  exact Edge.ofNode_limit_add 0 false

/-- One node more leaves the variable with the position of the first. -/
theorem crowdedInput_overfullClause :
    (crowdedInput overfullClause).1 = .ofNode 1 false ∧
      (crowdedInput overfullClause).2.nodes[1]? = some (.input 2) := by
  have hmakes := Circuit.makes_disjunction fullClause
  obtain ⟨hlast, hsize⟩ := disjunction_fullClause
  have htwo : (disjunction fullClause).2.nodes[1]? = some (.input 2) := by
    rw [fullClause]
    exact Circuit.getElem?_disjunction_consecutive (show 1 ≤ nodeLimit / 2 by decide)
  have hlimit : 2 < nodeLimit := by decide
  have hgrown : (disjunction overfullClause).2.size = nodeLimit + 1 := by
    rw [overfullClause, Circuit.disjunction_concat, Circuit.size_takeIn_of_getElem?
      hmakes.built.canonical htwo (by omega) (by omega) (hlast.trans hsize.symm), hsize]
  have htwo' : (disjunction overfullClause).2.nodes[1]? = some (.input 2) := by
    rw [overfullClause, Circuit.disjunction_concat,
      Circuit.getElem?_of_le (Circuit.le_takeIn _ _) (Circuit.lt_size_of_getElem? htwo), htwo]
  have hinput : crowdedInput overfullClause = _ := crowdedInput_eq fun l hl =>
    ne_one_of_mem_fullClause (mem_overfullClause_iff.mp hl)
  constructor
  · rw [hinput, hgrown, Edge.ofNode_limit_add]
  · have hle := Circuit.le_share (disjunction overfullClause).2 (.input 1)
    exact (Circuit.getElem?_of_le hle (Circuit.lt_size_of_getElem? htwo')).trans htwo'

/-! ## What fails past the limit -/

/-- Falsity as an interpolant. -/
def Interpolant.falsity (next : Nat) : Interpolant :=
  { clauses := [[]], first := next, next, circuit := {}, output := .bottom }

/-- The variable 2 as an interpolant. -/
def Interpolant.two (next : Nat) : Interpolant :=
  { clauses := [[2]], first := next, next, circuit := ⟨#[.bottom, .input 2]⟩,
    output := .ofNode 1 false }

theorem interpolate_fullClause (next : Nat) :
    interpolate (crowdedRefutation fullClause) crowdedLabelling {} next =
      .ok (.falsity next) := by
  rw [interpolate_crowded proper_fullClause, encoded, crowdedInput_fullClause,
    Circuit.extract_bottom]
  rfl

theorem interpolate_overfullClause :
    interpolate (crowdedRefutation overfullClause) crowdedLabelling {} atomMax =
      .ok (.two atomMax) := by
  rw [interpolate_crowded proper_overfullClause, encoded, crowdedInput_overfullClause.1,
    Circuit.extract_of_input crowdedInput_overfullClause.2]
  rfl

/-- **An interpolant need not follow from part A.**  Part A has a model, and the interpolant is
false there. -/
theorem interpolate_crowded_unsound :
    (crowdedRefutation fullClause).Reachable ∧ ({} : Config).checkDerivations.value = true ∧
      interpolate (crowdedRefutation fullClause) crowdedLabelling {} atomMax =
        .ok (.falsity atomMax) ∧
      crowdedLabelling.SatisfiesPart (crowdedRefutation fullClause) .a (fun _ => true) ∧
      (Interpolant.falsity atomMax).evaluate (fun _ => true) = false := by
  refine ⟨reachable_crowdedRefutation _, rfl, interpolate_fullClause _, ?_, rfl⟩
  rintro premise ⟨key, record, -, hpremise⟩
  exact satisfiedBy_crowded proper_fullClause satisfiedBy_fullClause ⟨record, hpremise⟩

/-- **An edge need not stand between the parts.**  The premises of part A are true and the edge of
the second of them is false, though its clause has no literal that is local to A. -/
theorem visitAll_crowded_unmediated :
    (crowdedRefutation fullClause).Reachable ∧ ({} : Config).checkDerivations.value = true ∧
      [0, 1] <+: cone (crowdedRefutation fullClause).antecedentsAt 3 ∧
      Replay.visitAll (crowdedRefutation fullClause) crowdedLabelling {} [0, 1] =
        .ok (crowdedReplay fullClause) ∧
      (crowdedRefutation fullClause).record? 1 = some (.premise 2 false [1]) ∧
      (crowdedReplay fullClause).interpolants.find? 1 = some .bottom ∧
      crowdedLabelling.SatisfiesAt (crowdedRefutation fullClause) .a [0, 1] (fun _ => true) ∧
      (crowdedReplay fullClause).circuit.evaluate .bottom (fun _ => true) = false ∧
      ∀ l ∈ ([1] : Clause), crowdedLabelling.scopeOf l.atom ≠ .localTo .a := by
  have hcone : [0, 1] <+: cone (crowdedRefutation fullClause).antecedentsAt 3 := by
    rw [cone_crowdedRefutation proper_fullClause]
    decide
  have hfound : (crowdedReplay fullClause).interpolants.find? 1 = some .bottom :=
    (NatMap.find?_insert_self _ _ _).trans (congrArg some crowdedInput_fullClause)
  refine ⟨reachable_crowdedRefutation _, rfl, hcone, visitAll_crowded_premises proper_fullClause,
    record?_crowdedRefutation proper_fullClause 1, hfound, ?_,
    (canonical_crowdedReplay _).evaluate_bottom _, by decide⟩
  intro key _ premise hpremise
  exact satisfiedBy_crowded proper_fullClause satisfiedBy_fullClause hpremise

/-- **How often a literal is in a clause can matter.**  Of two refutations that differ in this
alone, the one has falsity and the other the variable 2 for its interpolant. -/
theorem interpolate_crowded_differs :
    (crowdedRefutation fullClause).Reachable ∧ (crowdedRefutation overfullClause).Reachable ∧
      (crowdedRefutation fullClause).Rephrases (crowdedRefutation overfullClause) ∧
      interpolate (crowdedRefutation fullClause) crowdedLabelling {} atomMax =
        .ok (.falsity atomMax) ∧
      interpolate (crowdedRefutation overfullClause) crowdedLabelling {} atomMax =
        .ok (.two atomMax) ∧
      (Interpolant.falsity atomMax).evaluate (fun _ => true) = false ∧
      (Interpolant.two atomMax).evaluate (fun _ => true) = true := by
  have hrephrases := rephrases_crowdedRefutation proper_fullClause proper_overfullClause
    fun _ => mem_overfullClause_iff
  exact ⟨reachable_crowdedRefutation _, reachable_crowdedRefutation _, hrephrases,
    interpolate_fullClause _, interpolate_overfullClause, rfl, rfl⟩

end Interpolation
