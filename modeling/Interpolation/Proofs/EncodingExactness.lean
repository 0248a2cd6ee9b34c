import Interpolation.Proofs.Naming

/-!
# The clauses of an encoding say exactly what its output says

Three clauses make the variable of a gate equal to the conjunction of two others.
So a model of the clauses gives every node of the cone, under its name, the value
that the node has (`Consistent`): that is an induction from small nodes to great
ones, and it uses of the order of nodes only that a conjunction comes after its
conjuncts.  Conversely a valuation in which every name has the value of its node is
a model, provided the output is true.

Consistency leaves the fresh variables no choice, and it can always be achieved by
choosing them.  Freshness is needed for the second half alone: choosing a fresh
variable must not change the value of an input.

* `satisfiesAll_encoding_iff` --- the models of an encoding;
* `exists_consistent`, `eq_of_consistent` --- the choice of the fresh variables
  exists and is unique;
* `encode_exact` --- the clauses have a model that extends a valuation exactly when
  the output is true there, and it is unique.
-/

namespace Interpolation

theorem Literal.holds_ofAtom {a : Nat} (h0 : a ≠ 0) (h : a ≤ atomMax) (v : Nat → Bool) :
    (Literal.ofAtom a true).holds v = v a := by
  have hpos : (Literal.ofAtom a true).polarity = true := by
    rw [polarity, toInt_ofAtom h, if_pos rfl]
    exact decide_eq_true (by omega)
  rw [holds, atom_ofAtom h, hpos, beq_true]

theorem Literal.toInt_ofAtom_ne_zero {a : Nat} (h0 : a ≠ 0) (h : a ≤ atomMax) :
    (Literal.ofAtom a true).toInt ≠ 0 := by
  rw [toInt_ofAtom h, if_pos rfl]
  omega

theorem Literal.proper_ofAtom {a : Nat} (h0 : a ≠ 0) (h : a ≤ atomMax) :
    (Literal.ofAtom a true).Proper := by
  refine ⟨toInt_ofAtom_ne_zero h0 h, ?_⟩
  rw [atom_ofAtom h]
  exact h

theorem satisfiesAll_append (f g : List Clause) (v : Nat → Bool) :
    satisfiesAll (f ++ g) v = (satisfiesAll f v && satisfiesAll g v) :=
  List.all_append

theorem satisfiesAll_flatMap {α : Type} (l : List α) (f : α → List Clause) (v : Nat → Bool) :
    satisfiesAll (l.flatMap f) v = true ↔ ∀ a ∈ l, satisfiesAll (f a) v = true := by
  simp only [satisfiesAll, List.all_flatMap, List.all_eq_true]

theorem satisfiesAll_singleton (l : Literal) (v : Nat → Bool) :
    satisfiesAll [[l]] v = l.holds v := by
  simp [satisfiesAll, Clause.satisfiedBy]

/-- Whether two valuations agree on all variables but those from `first` up to
`following`. -/
def AgreeOutside (first following : Nat) (w v : Nat → Bool) : Prop :=
  ∀ atom, atom < first ∨ following ≤ atom → w atom = v atom

namespace Encoding

/-- The clauses of a gate say that it is the conjunction of its two literals. -/
theorem satisfiesAll_gateClauses {g x y : Literal} (hg : g.toInt ≠ 0) (hx : x.toInt ≠ 0)
    (hy : y.toInt ≠ 0) (v : Nat → Bool) :
    satisfiesAll (gateClauses g (.literal x) (.literal y)) v = true ↔
      g.holds v = (x.holds v && y.holds v) := by
  simp only [gateClauses, impliedClause, Term.denied, satisfiesAll, Clause.satisfiedBy,
    List.cons_append, List.nil_append, List.all_cons, List.all_nil, List.any_cons, List.any_nil,
    Literal.holds_negate hg, Literal.holds_negate hx, Literal.holds_negate hy]
  cases g.holds v <;> cases x.holds v <;> cases y.holds v <;> simp

/-- Whether an edge can be encoded from a counter on without running out of
atoms. -/
structure Encodable (c : Circuit) (e : Edge) (next : Nat) : Prop where
  /-- The circuit is canonical. -/
  canonical : c.Canonical
  /-- The edge is one of the circuit. -/
  lt : e.node < c.size
  /-- The edge is not constant. -/
  node_ne_zero : e.node ≠ 0
  /-- The variables are below the counter, and zero is none of them. -/
  atoms : ∀ atom ∈ c.atoms e, atom ≠ 0 ∧ atom < next
  /-- The counter is an atom. -/
  next_pos : 0 < next ∧ next ≤ atomMax
  /-- There are enough atoms. -/
  bound : next + gateCount c e ≤ atomMax + 1

theorem encodable_of_encode {c : Circuit} (hc : c.Canonical) (hover : c.Over (· ≠ 0)) {e : Edge}
    (he : e.node < c.size) (h0 : e.node ≠ 0) {next following : Nat} {clauses : List Clause}
    (h : encode c e next = .ok (clauses, following)) :
    Encodable c e next ∧ clauses = encoding c e next ∧ following = next + gateCount c e := by
  rcases encode_cases hc he h0 next with ⟨-, herr⟩ | ⟨-, -, herr⟩ | ⟨hfresh, hbound, hok⟩
  · rw [herr] at h
    exact absurd h (by simp)
  · rw [herr] at h
    exact absurd h (by simp)
  · rw [hok] at h
    obtain ⟨rfl, rfl⟩ := Prod.mk.inj (Except.ok.inj h)
    obtain ⟨hpos, hmax, hlt⟩ := fresh_iff.mp hfresh
    refine ⟨⟨hc, he, h0, fun atom hatom => ⟨?_, hlt atom hatom⟩, ⟨by omega, hmax⟩, hbound⟩,
      rfl, rfl⟩
    obtain ⟨k, -, hk⟩ := Circuit.mem_atoms_iff.mp hatom
    exact hover hk

/-- The valuation in which the fresh variables have the values of their
conjunctions. -/
def extension (c : Circuit) (e : Edge) (next : Nat) (v : Nat → Bool) (atom : Nat) : Bool :=
  if next ≤ atom ∧ atom < next + gateCount c e then c.valueAt v (gateAt c e next atom) else v atom

theorem agreeOutside_extension (c : Circuit) (e : Edge) (next : Nat) (v : Nat → Bool) :
    AgreeOutside next (next + gateCount c e) (extension c e next v) v :=
  fun _ hatom => if_neg (by omega)

namespace Encodable

variable {c : Circuit} {e : Edge} {next : Nat}

/-- The variable of a node is an input variable, which is below the counter, or
one of the fresh variables. -/
theorem nodeAtom_cases (h : Encodable c e next) {k : Nat} (hk : k ∈ c.cone e) :
    (c.nodes[k]? = some (.input (nodeAtom c (c.cone e) next k)) ∧
        nodeAtom c (c.cone e) next k ≠ 0 ∧ nodeAtom c (c.cone e) next k < next) ∨
      (k ∈ gates c (c.cone e) ∧
        nodeAtom c (c.cone e) next k = next + (gates c (c.cone e)).idxOf k ∧
        nodeAtom c (c.cone e) next k < next + gateCount c e) := by
  rcases h.canonical.cone_cases h.lt hk with ⟨atom, hnode⟩ | ⟨l, r, hnode, -⟩
  · rw [nodeAtom_of_input hnode]
    exact Or.inl ⟨hnode, h.atoms atom (Circuit.mem_atoms_iff.mpr ⟨k, hk, hnode⟩)⟩
  · have hmem : k ∈ gates c (c.cone e) := mem_gates_iff.mpr ⟨hk, l, r, hnode⟩
    rw [nodeAtom_of_and hnode]
    exact Or.inr ⟨hmem, rfl, Nat.add_lt_add_left (List.idxOf_lt_length_of_mem hmem) next⟩

theorem nodeAtom_pos (h : Encodable c e next) {k : Nat} (hk : k ∈ c.cone e) :
    nodeAtom c (c.cone e) next k ≠ 0 := by
  have := h.next_pos
  rcases h.nodeAtom_cases hk with ⟨-, h0, -⟩ | ⟨-, heq, -⟩
  · exact h0
  · omega

theorem nodeAtom_le (h : Encodable c e next) {k : Nat} (hk : k ∈ c.cone e) :
    nodeAtom c (c.cone e) next k ≤ atomMax := by
  have := h.next_pos
  have := h.bound
  rcases h.nodeAtom_cases hk with ⟨-, -, hlt⟩ | ⟨-, -, hlt⟩
  · omega
  · omega

theorem holds_nodeName (h : Encodable c e next) {k : Nat} (hk : k ∈ c.cone e) (w : Nat → Bool) :
    (nodeName c (c.cone e) next k).holds w = w (nodeAtom c (c.cone e) next k) :=
  Literal.holds_ofAtom (h.nodeAtom_pos hk) (h.nodeAtom_le hk) w

theorem toInt_nodeName (h : Encodable c e next) {k : Nat} (hk : k ∈ c.cone e) :
    (nodeName c (c.cone e) next k).toInt ≠ 0 :=
  Literal.toInt_ofAtom_ne_zero (h.nodeAtom_pos hk) (h.nodeAtom_le hk)

theorem toInt_edgeName (h : Encodable c e next) {a : Edge} (ha : a.node ∈ c.cone e) :
    (edgeName c (c.cone e) next a).toInt ≠ 0 := by
  have hname := h.toInt_nodeName ha
  unfold edgeName
  split
  · exact Literal.toInt_negate_ne_zero hname
  · exact hname

theorem holds_edgeName (h : Encodable c e next) {a : Edge} (ha : a.node ∈ c.cone e)
    (w : Nat → Bool) :
    (edgeName c (c.cone e) next a).holds w =
      (w (nodeAtom c (c.cone e) next a.node) ^^ a.negated) := by
  unfold edgeName
  split
  · rename_i hneg
    rw [Literal.holds_negate (h.toInt_nodeName ha), h.holds_nodeName ha, hneg, Bool.xor_true]
  · rename_i hneg
    rw [h.holds_nodeName ha, Bool.eq_false_iff.mpr hneg, Bool.xor_false]

/-! ## Consistent valuations -/

/-- Whether every name has the value of its node. -/
def Consistent (c : Circuit) (e : Edge) (next : Nat) (w : Nat → Bool) : Prop :=
  ∀ k ∈ c.cone e, w (nodeAtom c (c.cone e) next k) = c.valueAt w k

theorem holds_edgeName_of_consistent (h : Encodable c e next) {w : Nat → Bool}
    (hw : Consistent c e next w) {a : Edge} (ha : a.node ∈ c.cone e) :
    (edgeName c (c.cone e) next a).holds w = c.evaluate a w := by
  rw [h.holds_edgeName ha, hw _ ha, Circuit.evaluate_eq]

/-- What the clauses that define a conjunction say. -/
theorem satisfiesAll_definition (h : Encodable c e next) {k : Nat} (hk : k ∈ c.cone e)
    {l r : Edge} (hnode : c.nodes[k]? = some (.and l r)) (hl : l.node ∈ c.cone e)
    (hr : r.node ∈ c.cone e) (w : Nat → Bool) :
    satisfiesAll (definition c (c.cone e) next k) w = true ↔
      w (nodeAtom c (c.cone e) next k) =
        ((edgeName c (c.cone e) next l).holds w && (edgeName c (c.cone e) next r).holds w) := by
  rw [definition_of_and hnode, satisfiesAll_gateClauses (h.toInt_nodeName hk)
    (h.toInt_edgeName hl) (h.toInt_edgeName hr), h.holds_nodeName hk]

/-- **The clauses that define the conjunctions say that a valuation is
consistent.** -/
theorem satisfiesAll_definitions_iff (h : Encodable c e next) (w : Nat → Bool) :
    satisfiesAll ((c.cone e).flatMap (definition c (c.cone e) next)) w = true ↔
      Consistent c e next w := by
  rw [satisfiesAll_flatMap]
  constructor
  · intro hall k
    -- a conjunction has the value of its conjuncts, which are named before it
    induction k using Nat.strongRecOn with
    | ind k ih =>
      intro hk
      rcases h.canonical.cone_cases h.lt hk with ⟨atom, hnode⟩ | ⟨l, r, hnode, hl, hr, hlr, hrk⟩
      · rw [nodeAtom_of_input hnode, Circuit.valueAt_input hnode]
      · rw [(h.satisfiesAll_definition hk hnode hl hr w).mp (hall k hk), h.holds_edgeName hl,
          h.holds_edgeName hr, ih l.node (Nat.lt_trans hlr hrk) hl, ih r.node hrk hr,
          h.canonical.valueAt_and hnode, Circuit.evaluate_eq, Circuit.evaluate_eq]
  · intro hw k hk
    rcases h.canonical.cone_cases h.lt hk with ⟨atom, hnode⟩ | ⟨l, r, hnode, hl, hr, -⟩
    · rw [definition_of_input hnode]
      rfl
    · rw [h.satisfiesAll_definition hk hnode hl hr, hw k hk,
        h.holds_edgeName_of_consistent hw hl, h.holds_edgeName_of_consistent hw hr,
        h.canonical.valueAt_and hnode]

/-- **The models of an encoding** are the consistent valuations on which the output
is true. -/
theorem satisfiesAll_encoding_iff (h : Encodable c e next) (w : Nat → Bool) :
    satisfiesAll (encoding c e next) w = true ↔
      Consistent c e next w ∧ c.evaluate e w = true := by
  rw [encoding, satisfiesAll_append, Bool.and_eq_true, h.satisfiesAll_definitions_iff,
    satisfiesAll_singleton]
  refine and_congr_right fun hw => ?_
  rw [h.holds_edgeName_of_consistent hw (h.canonical.mem_cone_self h.node_ne_zero)]

/-! ## The choice of the fresh variables -/

/-- Valuations that agree outside the fresh variables agree on the cone. -/
theorem valueAt_eq_of_agree (h : Encodable c e next) {w v : Nat → Bool}
    (hwv : AgreeOutside next (next + gateCount c e) w v) :
    ∀ k ∈ c.cone e, c.valueAt w k = c.valueAt v k :=
  h.canonical.valueAt_congr h.lt fun atom hatom => hwv atom (Or.inl (h.atoms atom hatom).2)

theorem evaluate_eq_of_agree (h : Encodable c e next) {w v : Nat → Bool}
    (hwv : AgreeOutside next (next + gateCount c e) w v) : c.evaluate e w = c.evaluate e v :=
  h.canonical.evaluate_congr h.lt fun atom hatom => hwv atom (Or.inl (h.atoms atom hatom).2)

/-- **The fresh variables can be chosen.** -/
theorem exists_consistent (h : Encodable c e next) (v : Nat → Bool) :
    ∃ w, AgreeOutside next (next + gateCount c e) w v ∧ Consistent c e next w := by
  have hout := agreeOutside_extension c e next v
  refine ⟨extension c e next v, hout, fun k hk => ?_⟩
  rw [h.valueAt_eq_of_agree hout k hk]
  rcases h.nodeAtom_cases hk with ⟨hnode, -, hlt⟩ | ⟨hmem, heq, hlt⟩
  · rw [hout _ (Or.inl hlt), Circuit.valueAt_input hnode]
  · have hplace : gateAt c e next (next + (gates c (c.cone e)).idxOf k) = k := by
      rw [gateAt, Nat.add_sub_cancel_left, List.getD_eq_getElem?_getD, List.getElem?_idxOf hmem,
        Option.getD_some]
    have hrange : next ≤ nodeAtom c (c.cone e) next k := by omega
    rw [extension, if_pos ⟨hrange, hlt⟩, heq, hplace]

/-- **The fresh variables have no choice.** -/
theorem eq_of_consistent (h : Encodable c e next) {v w w' : Nat → Bool}
    (hw : AgreeOutside next (next + gateCount c e) w v) (hc : Consistent c e next w)
    (hw' : AgreeOutside next (next + gateCount c e) w' v) (hc' : Consistent c e next w') :
    w = w' := by
  funext atom
  by_cases hout : atom < next ∨ next + gateCount c e ≤ atom
  · rw [hw atom hout, hw' atom hout]
  · -- a fresh variable is the name of a conjunction
    have hlt : atom - next < (gates c (c.cone e)).length := by
      simp only [gateCount] at hout
      omega
    have hmem : (gates c (c.cone e))[atom - next] ∈ gates c (c.cone e) := List.getElem_mem hlt
    obtain ⟨hk, l, r, hnode⟩ := mem_gates_iff.mp hmem
    have hname : nodeAtom c (c.cone e) next (gates c (c.cone e))[atom - next] = atom := by
      rw [nodeAtom_of_and hnode, (nodup_gates c e).idxOf_getElem]
      omega
    rw [← hname, hc _ hk, hc' _ hk, h.valueAt_eq_of_agree hw _ hk, h.valueAt_eq_of_agree hw' _ hk]

end Encodable

/-! ## Every output, constant or not -/

section

variable {c : Circuit} {e : Edge} {next following : Nat} {clauses : List Clause}

/-- What a constant output is encoded by. -/
theorem encode_of_node_eq_zero (h0 : e.node = 0)
    (h : encode c e next = .ok (clauses, following)) :
    clauses = (if e.negated then [] else [[]]) ∧ following = next := by
  rw [encode_constant c (by simpa [Edge.isConstant] using h0)] at h
  obtain ⟨rfl, rfl⟩ := Prod.mk.inj (Except.ok.inj h)
  exact ⟨rfl, rfl⟩

theorem satisfiesAll_constant (value : Bool) (w : Nat → Bool) :
    satisfiesAll (if value then [] else [[]]) w = value := by
  cases value <;> rfl

/-- An edge to the constant has the value of its sign. -/
theorem evaluate_of_node_eq_zero (hc : c.Canonical) (h0 : e.node = 0) (v : Nat → Bool) :
    c.evaluate e v = e.negated := by
  rw [Circuit.evaluate_eq, h0, hc.valueAt_zero, Bool.false_xor]

/-- In a model of the clauses the output is true, whatever the fresh variables
are. -/
theorem evaluate_of_satisfiesAll (hc : c.Canonical) (hover : c.Over (· ≠ 0))
    (he : e.node < c.size) (h : encode c e next = .ok (clauses, following)) {w : Nat → Bool}
    (hw : satisfiesAll clauses w = true) : c.evaluate e w = true := by
  by_cases h0 : e.node = 0
  · obtain ⟨rfl, -⟩ := encode_of_node_eq_zero h0 h
    rw [evaluate_of_node_eq_zero hc h0, ← hw, satisfiesAll_constant]
  · obtain ⟨henc, rfl, -⟩ := encodable_of_encode hc hover he h0 h
    exact ((henc.satisfiesAll_encoding_iff w).mp hw).2

/-- Where the output is true the fresh variables can be chosen to make a model. -/
theorem exists_model_of_evaluate (hc : c.Canonical) (hover : c.Over (· ≠ 0))
    (he : e.node < c.size) (h : encode c e next = .ok (clauses, following)) {v : Nat → Bool}
    (hv : c.evaluate e v = true) :
    ∃ w, AgreeOutside next following w v ∧ satisfiesAll clauses w = true := by
  by_cases h0 : e.node = 0
  · obtain ⟨rfl, rfl⟩ := encode_of_node_eq_zero h0 h
    refine ⟨v, fun _ _ => rfl, ?_⟩
    rw [satisfiesAll_constant, ← hv, evaluate_of_node_eq_zero hc h0]
  · obtain ⟨henc, rfl, rfl⟩ := encodable_of_encode hc hover he h0 h
    obtain ⟨w, hout, hcons⟩ := henc.exists_consistent v
    refine ⟨w, hout, (henc.satisfiesAll_encoding_iff w).mpr ⟨hcons, ?_⟩⟩
    rw [henc.evaluate_eq_of_agree hout, hv]

/-- The output does not depend on the fresh variables. -/
theorem evaluate_eq_of_agreeOutside (hc : c.Canonical) (hover : c.Over (· ≠ 0))
    (he : e.node < c.size) (h : encode c e next = .ok (clauses, following)) {w v : Nat → Bool}
    (hwv : AgreeOutside next following w v) : c.evaluate e w = c.evaluate e v := by
  by_cases h0 : e.node = 0
  · rw [evaluate_of_node_eq_zero hc h0, evaluate_of_node_eq_zero hc h0]
  · obtain ⟨henc, -, rfl⟩ := encodable_of_encode hc hover he h0 h
    exact henc.evaluate_eq_of_agree hwv

/-- Two models that agree on all other variables agree on the fresh ones. -/
theorem eq_of_satisfiesAll (hc : c.Canonical) (hover : c.Over (· ≠ 0))
    (he : e.node < c.size) (h : encode c e next = .ok (clauses, following))
    {v w w' : Nat → Bool} (hwv : AgreeOutside next following w v)
    (hw : satisfiesAll clauses w = true) (hwv' : AgreeOutside next following w' v)
    (hw' : satisfiesAll clauses w' = true) : w = w' := by
  by_cases h0 : e.node = 0
  · obtain ⟨-, rfl⟩ := encode_of_node_eq_zero h0 h
    funext atom
    have hall : atom < following ∨ following ≤ atom := Nat.lt_or_ge atom following
    rw [hwv atom hall, hwv' atom hall]
  · obtain ⟨henc, rfl, rfl⟩ := encodable_of_encode hc hover he h0 h
    exact henc.eq_of_consistent hwv ((henc.satisfiesAll_encoding_iff w).mp hw).1 hwv'
      ((henc.satisfiesAll_encoding_iff w').mp hw').1

end

/-- **The encoding is exact.**  A valuation can be changed on the fresh variables
to a model of the clauses exactly when the output is true there, and in one way
only. -/
theorem encode_exact {c : Circuit} (hc : Circuit.Built (· ≠ 0) c) {output : Edge}
    (ho : output.node < c.size) {next following : Nat} {clauses : List Clause}
    (h : encode c output next = .ok (clauses, following)) (v : Nat → Bool) :
    ((∃ w, AgreeOutside next following w v ∧ satisfiesAll clauses w = true) ↔
        c.evaluate output v = true) ∧
      ∀ w w', AgreeOutside next following w v → satisfiesAll clauses w = true →
        AgreeOutside next following w' v → satisfiesAll clauses w' = true → w = w' := by
  refine ⟨⟨?_, ?_⟩, fun w w' hwv hw hwv' hw' => ?_⟩
  · rintro ⟨w, hwv, hw⟩
    rw [← evaluate_eq_of_agreeOutside hc.canonical hc.over ho h hwv]
    exact evaluate_of_satisfiesAll hc.canonical hc.over ho h hw
  · intro hv
    exact exists_model_of_evaluate hc.canonical hc.over ho h hv
  · exact eq_of_satisfiesAll hc.canonical hc.over ho h hwv hw hwv' hw'

/-- The circuit of `(1 ∧ 2) ∨ ¬2`, with two conjunctions. -/
def twoGates : Circuit :=
  ((((({} : Circuit).input 1).2.input 2).2.and (.ofNode 1 false) (.ofNode 2 false)).2.or
    (.ofNode 3 false) (.ofNode 2 true)).2

theorem built_twoGates : Circuit.Built (· ≠ 0) twoGates :=
  .or (.and (.input (.input .empty (by decide)) (by decide)) (by decide) (by decide)) (by decide)
    (by decide)

/-- What `twoGates` is encoded by with fresh variables from 10 on. -/
def twoGatesClauses : List Clause :=
  [[-10, 1], [-10, 2], [10, -1, -2], [-11, 2], [-11, -10], [11, -2, 10], [-11]]

/-- Seven clauses say `(1 ∧ 2) ∨ ¬2` exactly, also where 1 is false and 2 is true and
there is no model. -/
theorem encode_exact_twoGates :
    Circuit.Built (· ≠ 0) twoGates ∧ 4 < twoGates.size ∧
      encode twoGates (.ofNode 4 true) 10 = .ok (twoGatesClauses, 12) ∧
      ((∃ w, AgreeOutside 10 12 w (· == 2) ∧ satisfiesAll twoGatesClauses w = true) ↔
        twoGates.evaluate (.ofNode 4 true) (· == 2) = true) ∧
      ∀ w w', AgreeOutside 10 12 w (· == 2) → satisfiesAll twoGatesClauses w = true →
        AgreeOutside 10 12 w' (· == 2) → satisfiesAll twoGatesClauses w' = true → w = w' :=
  ⟨built_twoGates, by decide, rfl, encode_exact built_twoGates (by decide) rfl (· == 2)⟩

end Encoding
end Interpolation
