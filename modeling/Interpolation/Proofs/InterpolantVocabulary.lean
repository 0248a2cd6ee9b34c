import Interpolation.Proofs.EncodingExactness
import Interpolation.Proofs.Replays
import Mathlib.Data.List.Nodup

/-!
# What an interpolant speaks of

The inputs of the circuit of an interpolant are shared variables that occur in part
A, since a replay makes no others.  Its clauses speak of these and of the fresh
variables, which are numbered from the counter on, one for each conjunction of the
circuit, and are defined in that order: what defines a conjunction speaks of inputs
and of fresh variables with smaller numbers.

The clauses are also clean: none is a tautology or repeats a literal.  Different nodes
have different names, for inputs because no variable has two nodes, for conjunctions
because they are numbered, and across the two because the counter lies above every
input; and a conjunction joins two different nodes, neither of which is itself.

A fresh variable may be anything that is not an input of the circuit.  The counter is
compared with nothing else, so a local variable at or above it can become a fresh one.

* `clean_gateClauses` --- the clauses of a gate are clean if the names are different;
* `Encodable.nodeAtom_inj` --- different nodes have different names;
* `interpolate_keepsTo` --- an interpolant keeps to its vocabulary.
-/

namespace Interpolation

/-! ## Clean clauses -/

/-- Whether a clause is no tautology and repeats no literal. -/
def Clause.Clean (clause : Clause) : Prop := clause.isTautology = false ∧ clause.Nodup

/-- Literals of different variables make a clean clause. -/
theorem Clause.clean_of_nodup_atoms {clause : Clause} (h0 : ∀ l ∈ clause, l.toInt ≠ 0)
    (h : clause.atoms.Nodup) : clause.Clean := by
  refine ⟨Bool.eq_false_iff.mpr fun htautology => ?_, List.Nodup.of_map _ h⟩
  obtain ⟨l, hl, hneg⟩ := Clause.isTautology_iff.mp htautology
  have heq : l.negate = l := List.inj_on_of_nodup_map h hneg hl (Literal.atom_negate l)
  exact Literal.negate_ne_self (h0 l hl) heq

namespace Encoding

theorem mem_gateClauses_iff {g x y : Literal} {clause : Clause} :
    clause ∈ gateClauses g (.literal x) (.literal y) ↔
      clause = [g.negate, x] ∨ clause = [g.negate, y] ∨ clause = [g, x.negate, y.negate] := by
  simp [gateClauses, impliedClause, Term.denied]

/-- **The clauses of a gate are clean if its names are those of three variables.** -/
theorem clean_gateClauses {g x y : Literal} (hg : g.toInt ≠ 0) (hx : x.toInt ≠ 0)
    (hy : y.toInt ≠ 0) (hgx : g.atom ≠ x.atom) (hgy : g.atom ≠ y.atom) (hxy : x.atom ≠ y.atom) :
    ∀ clause ∈ gateClauses g (.literal x) (.literal y), clause.Clean := by
  have hneg : ∀ {l : Literal}, l.toInt ≠ 0 → l.negate.toInt ≠ 0 := Literal.toInt_negate_ne_zero
  intro clause hclause
  rcases mem_gateClauses_iff.mp hclause with rfl | rfl | rfl
  · refine Clause.clean_of_nodup_atoms ?_ (by simp [Clause.atoms, hgx])
    simp [hneg hg, hx]
  · refine Clause.clean_of_nodup_atoms ?_ (by simp [Clause.atoms, hgy])
    simp [hneg hg, hy]
  · refine Clause.clean_of_nodup_atoms ?_ (by simp [Clause.atoms, hgx, hgy, hxy])
    simp [hg, hneg hx, hneg hy]

/-- What holds of three literals and of their negations holds of the literals of their
gate. -/
theorem forall_mem_gateClauses {P : Literal → Prop} (hneg : ∀ {l}, P l → P l.negate)
    {g x y : Literal} (hg : P g) (hx : P x) (hy : P y) {clause : Clause}
    (hclause : clause ∈ gateClauses g (.literal x) (.literal y)) : ∀ l ∈ clause, P l := by
  rcases mem_gateClauses_iff.mp hclause with rfl | rfl | rfl
  · simp [hneg hg, hx]
  · simp [hneg hg, hy]
  · simp [hg, hneg hx, hneg hy]

variable {c : Circuit} {e : Edge} {next : Nat}

namespace Encodable

/-! ## Names -/

/-- **Different nodes have different names.** -/
theorem nodeAtom_inj (h : Encodable c e next) {k m : Nat} (hk : k ∈ c.cone e) (hm : m ∈ c.cone e)
    (heq : nodeAtom c (c.cone e) next k = nodeAtom c (c.cone e) next m) : k = m := by
  rcases h.nodeAtom_cases hk with ⟨hknode, -, hklt⟩ | ⟨hkgate, hkidx, -⟩
  · rcases h.nodeAtom_cases hm with ⟨hmnode, -, -⟩ | ⟨-, hmidx, -⟩
    · rw [heq] at hknode
      exact h.canonical.eq_of_getElem? hknode hmnode
    · omega
  · rcases h.nodeAtom_cases hm with ⟨-, -, hmlt⟩ | ⟨-, hmidx, -⟩
    · omega
    · exact (List.idxOf_inj hkgate).mp (by omega)

theorem proper_nodeName (h : Encodable c e next) {k : Nat} (hk : k ∈ c.cone e) :
    (nodeName c (c.cone e) next k).Proper :=
  Literal.proper_ofAtom (h.nodeAtom_pos hk) (h.nodeAtom_le hk)

theorem proper_edgeName (h : Encodable c e next) {a : Edge} (ha : a.node ∈ c.cone e) :
    (edgeName c (c.cone e) next a).Proper := by
  unfold edgeName
  split
  · exact (h.proper_nodeName ha).negate
  · exact h.proper_nodeName ha

theorem atom_nodeName (h : Encodable c e next) {k : Nat} (hk : k ∈ c.cone e) :
    (nodeName c (c.cone e) next k).atom = nodeAtom c (c.cone e) next k :=
  Literal.atom_ofAtom (h.nodeAtom_le hk) true

theorem atom_edgeName (h : Encodable c e next) {a : Edge} (ha : a.node ∈ c.cone e) :
    (edgeName c (c.cone e) next a).atom = nodeAtom c (c.cone e) next a.node := by
  unfold edgeName
  split
  · rw [Literal.atom_negate, h.atom_nodeName ha]
  · exact h.atom_nodeName ha

/-- What comes before a conjunction is an input below the counter or has a smaller
fresh variable. -/
theorem nodeAtom_before (h : Encodable c e next) {k m : Nat} (hk : k ∈ gates c (c.cone e))
    (hm : m ∈ c.cone e) (hmk : m < k) :
    (c.nodes[m]? = some (.input (nodeAtom c (c.cone e) next m)) ∧
        nodeAtom c (c.cone e) next m < next) ∨
      (next ≤ nodeAtom c (c.cone e) next m ∧
        nodeAtom c (c.cone e) next m < nodeAtom c (c.cone e) next k) := by
  rcases h.nodeAtom_cases hm with ⟨hnode, -, hlt⟩ | ⟨hgate, hidx, -⟩
  · exact Or.inl ⟨hnode, hlt⟩
  · obtain ⟨-, l, r, hnode⟩ := mem_gates_iff.mp hk
    have hlt := (idxOf_lt_idxOf_iff (pairwise_gates (c.pairwise_cone e)) hgate hk).mpr hmk
    rw [nodeAtom_of_and hnode, hidx]
    omega

end Encodable

/-! ## The clauses in the order of the fresh variables -/

end Encoding

/-- Whether a variable is an input of a circuit. -/
def Circuit.IsInput (c : Circuit) (atom : Nat) : Prop :=
  ∃ k : Nat, c.nodes[k]? = some (.input atom)

/-- The conjunctions of a circuit. -/
def Circuit.conjunctions (c : Circuit) : List Nat := Encoding.gates c (List.range c.size)

namespace Encoding

variable {c : Circuit} {e : Edge} {next : Nat}

/-- Whether a variable is an input of a circuit below the counter, or one of the fresh
variables from there up to a bound. -/
def Known (c : Circuit) (next bound atom : Nat) : Prop :=
  (c.IsInput atom ∧ atom < next) ∨ (next ≤ atom ∧ atom < bound)

/-- Whether a fresh variable may stand for the conjunction of two literals: they are
literals of two variables that were known before it. -/
structure Joins (c : Circuit) (next g : Nat) (x y : Literal) : Prop where
  /-- The fresh variable is an atom. -/
  atom : g ≠ 0 ∧ g ≤ atomMax
  /-- The first literal is proper, and its variable was known before. -/
  left : x.Proper ∧ Known c next g x.atom
  /-- So is the second. -/
  right : y.Proper ∧ Known c next g y.atom
  /-- The variables are different. -/
  ne : x.atom ≠ y.atom

/-- Whether clauses define so many fresh variables, each as the conjunction of two
literals, and assert something besides. -/
structure Layered (c : Circuit) (next count : Nat) (x y : Nat → Literal)
    (asserted clauses : List Clause) : Prop where
  /-- The clauses of each fresh variable come in order, and what is asserted last. -/
  clauses_eq : clauses = (List.range' next count).flatMap (fun g =>
    gateClauses (.ofAtom g true) (.literal (x g)) (.literal (y g))) ++ asserted
  /-- Each fresh variable is defined by what was known before it. -/
  joins : ∀ g, next ≤ g → g < next + count → Joins c next g (x g) (y g)
  /-- What is asserted is nothing, or falsity, or a known literal. -/
  assertion : asserted = [] ∨ asserted = [[]] ∨
    ∃ l, asserted = [[l]] ∧ l.Proper ∧ Known c next (next + count) l.atom

/-! ## What layered clauses are like -/

theorem Known.mono {bound bound' atom : Nat} (h : Known c next bound atom)
    (hle : bound ≤ bound') : Known c next bound' atom := by
  rcases h with h | ⟨hge, hlt⟩
  · exact Or.inl h
  · exact Or.inr ⟨hge, Nat.lt_of_lt_of_le hlt hle⟩

/-- A fresh variable is none that was known before it. -/
theorem Known.ne {g atom : Nat} (h : Known c next g atom) (hg : next ≤ g) : g ≠ atom := by
  rcases h with ⟨-, hlt⟩ | ⟨-, hlt⟩
  · omega
  · omega

namespace Joins

variable {g : Nat} {x y : Literal}

theorem proper_gate (h : Joins c next g x y) : (Literal.ofAtom g true).Proper :=
  Literal.proper_ofAtom h.atom.1 h.atom.2

theorem atom_gate (h : Joins c next g x y) : (Literal.ofAtom g true).atom = g :=
  Literal.atom_ofAtom h.atom.2 true

/-- The clauses of a gate are clean. -/
theorem clean (h : Joins c next g x y) (hg : next ≤ g) :
    ∀ clause ∈ gateClauses (.ofAtom g true) (.literal x) (.literal y), clause.Clean := by
  refine clean_gateClauses h.proper_gate.1 h.left.1.1 h.right.1.1 ?_ ?_ h.ne
  · rw [h.atom_gate]
    exact h.left.2.ne hg
  · rw [h.atom_gate]
    exact h.right.2.ne hg

/-- The clauses of a gate speak of the gate and of what was known before it. -/
theorem literal (h : Joins c next g x y) (hg : next ≤ g) {clause : Clause}
    (hclause : clause ∈ gateClauses (.ofAtom g true) (.literal x) (.literal y)) {l : Literal}
    (hl : l ∈ clause) : l.Proper ∧ Known c next (g + 1) l.atom := by
  have hgate : (Literal.ofAtom g true).Proper ∧
      Known c next (g + 1) (Literal.ofAtom g true).atom := by
    refine ⟨h.proper_gate, ?_⟩
    rw [h.atom_gate]
    exact Or.inr ⟨hg, Nat.lt_succ_self g⟩
  have hx := h.left.imp_right fun hk => hk.mono (Nat.le_succ g)
  have hy := h.right.imp_right fun hk => hk.mono (Nat.le_succ g)
  refine forall_mem_gateClauses (P := fun m => m.Proper ∧ Known c next (g + 1) m.atom) ?_ hgate
    hx hy hclause l hl
  rintro m ⟨hm, hk⟩
  rw [Literal.atom_negate]
  exact ⟨hm.negate, hk⟩

end Joins

namespace Layered

variable {count : Nat} {x y : Nat → Literal} {asserted clauses : List Clause}

/-- A clause defines a fresh variable or is asserted. -/
theorem mem_cases (h : Layered c next count x y asserted clauses) {clause : Clause}
    (hclause : clause ∈ clauses) :
    (∃ g, next ≤ g ∧ g < next + count ∧
        clause ∈ gateClauses (.ofAtom g true) (.literal (x g)) (.literal (y g))) ∨
      clause ∈ asserted := by
  rw [h.clauses_eq] at hclause
  rcases List.mem_append.mp hclause with hmem | hmem
  · obtain ⟨g, hg, hmem⟩ := List.mem_flatMap.mp hmem
    obtain ⟨hge, hlt⟩ := List.mem_range'_1.mp hg
    exact Or.inl ⟨g, hge, hlt, hmem⟩
  · exact Or.inr hmem

/-- A clause that is asserted is empty, or it is a known literal. -/
theorem mem_asserted (h : Layered c next count x y asserted clauses) {clause : Clause}
    (hclause : clause ∈ asserted) :
    clause = [] ∨ ∃ l, clause = [l] ∧ l.Proper ∧ Known c next (next + count) l.atom := by
  rcases h.assertion with rfl | rfl | ⟨l, rfl, hl⟩
  · exact absurd hclause List.not_mem_nil
  · exact Or.inl (List.mem_singleton.mp hclause)
  · exact Or.inr ⟨l, List.mem_singleton.mp hclause, hl⟩

/-- The clauses speak of inputs and of fresh variables only. -/
theorem literal (h : Layered c next count x y asserted clauses) :
    ∀ clause ∈ clauses, ∀ l ∈ clause, l.Proper ∧ Known c next (next + count) l.atom := by
  intro clause hclause l hl
  rcases h.mem_cases hclause with ⟨g, hge, hlt, hmem⟩ | hmem
  · exact ((h.joins g hge hlt).literal hge hmem hl).imp_right fun hk => hk.mono hlt
  · rcases h.mem_asserted hmem with rfl | ⟨m, rfl, hm⟩
    · exact absurd hl List.not_mem_nil
    · obtain rfl := List.mem_singleton.mp hl
      exact hm

/-- Every fresh variable occurs in its own clauses. -/
theorem occurs (h : Layered c next count x y asserted clauses) {g : Nat} (hge : next ≤ g)
    (hlt : g < next + count) : ∃ clause ∈ clauses, g ∈ clause.atoms := by
  have hjoins := h.joins g hge hlt
  refine ⟨[(Literal.ofAtom g true).negate, x g], ?_, ?_⟩
  · rw [h.clauses_eq]
    refine List.mem_append_left _ (List.mem_flatMap.mpr ⟨g, List.mem_range'_1.mpr ⟨hge, hlt⟩, ?_⟩)
    exact List.mem_cons_self
  · refine List.mem_cons.mpr (Or.inl ?_)
    rw [Literal.atom_negate, hjoins.atom_gate]

/-- The clauses are clean. -/
theorem clean (h : Layered c next count x y asserted clauses) :
    ∀ clause ∈ clauses, clause.Clean := by
  intro clause hclause
  rcases h.mem_cases hclause with ⟨g, hge, hlt, hmem⟩ | hmem
  · exact (h.joins g hge hlt).clean hge clause hmem
  · rcases h.mem_asserted hmem with rfl | ⟨l, rfl, hl, -⟩
    · exact ⟨rfl, List.nodup_nil⟩
    · refine Clause.clean_of_nodup_atoms (fun m hm => ?_) (List.nodup_singleton _)
      rw [List.mem_singleton.mp hm]
      exact hl.1

end Layered

/-! ## Encodings are layered -/

/-- The edges that a conjunction joins. -/
def conjuncts (c : Circuit) (k : Nat) : Edge × Edge :=
  match c.nodes[k]? with
  | some (.and left right) => (left, right)
  | _ => (.bottom, .bottom)

theorem conjuncts_of_and {k : Nat} {l r : Edge} (h : c.nodes[k]? = some (.and l r)) :
    conjuncts c k = (l, r) := by
  rw [conjuncts, h]

/-- Only conjunctions are defined. -/
theorem flatMap_definition (cone nodes : List Nat) :
    nodes.flatMap (definition c cone next) =
      (gates c nodes).flatMap (definition c cone next) := by
  induction nodes with
  | nil => rfl
  | cons k nodes ih =>
    rw [List.flatMap_cons, ih, show k :: nodes = [k] ++ nodes from rfl, gates_append,
      List.flatMap_append]
    congr 1
    cases hnode : c.nodes[k]? with
    | none => simp [gates, definition, hnode]
    | some node => cases node <;> simp [gates, definition, hnode]

/-- The conjunctions, listed by their fresh variables. -/
theorem gates_eq_map (c : Circuit) (e : Edge) (next : Nat) :
    gates c (c.cone e) = (List.range' next (gateCount c e)).map (gateAt c e next) := by
  refine List.ext_getElem (by simp [gateCount]) fun j hj _ => ?_
  rw [List.getElem_map, List.getElem_range', gateAt, Nat.one_mul, Nat.add_sub_cancel_left]
  exact List.getElem_eq_getD 0

namespace Encodable

/-- What a fresh variable stands for. -/
theorem gateAt_cases (h : Encodable c e next) {g : Nat} (hge : next ≤ g)
    (hlt : g < next + gateCount c e) :
    ∃ l r, c.nodes[gateAt c e next g]? = some (.and l r) ∧
      gateAt c e next g ∈ gates c (c.cone e) ∧ nodeAtom c (c.cone e) next (gateAt c e next g) = g ∧
      l.node ∈ c.cone e ∧ r.node ∈ c.cone e ∧ l.node < r.node ∧ r.node < gateAt c e next g := by
  have hidx : g - next < (gates c (c.cone e)).length := by
    have : gateCount c e = (gates c (c.cone e)).length := rfl
    omega
  have hat : gateAt c e next g = (gates c (c.cone e))[g - next] := (List.getElem_eq_getD 0).symm
  have hgate : gateAt c e next g ∈ gates c (c.cone e) := by
    rw [hat]
    exact List.getElem_mem hidx
  obtain ⟨hcone, l, r, hnode⟩ := mem_gates_iff.mp hgate
  have hatom : nodeAtom c (c.cone e) next (gateAt c e next g) = g := by
    rw [nodeAtom_of_and hnode, hat, (nodup_gates c e).idxOf_getElem]
    omega
  rcases h.canonical.cone_cases h.lt hcone with ⟨atom, hinput⟩ | ⟨l', r', hnode', hl, hr, hlr, hrk⟩
  · rw [hnode] at hinput
    exact absurd hinput (by simp)
  · exact ⟨l', r', hnode', hgate, hatom, hl, hr, hlr, hrk⟩

/-- The conjuncts of a fresh variable are different, and known before it. -/
theorem joins (h : Encodable c e next) {g : Nat} (hge : next ≤ g)
    (hlt : g < next + gateCount c e) :
    Joins c next g (edgeName c (c.cone e) next (conjuncts c (gateAt c e next g)).1)
      (edgeName c (c.cone e) next (conjuncts c (gateAt c e next g)).2) := by
  have hpos := h.next_pos
  have hbound := h.bound
  obtain ⟨l, r, hnode, hgate, hatom, hl, hr, hlr, hrk⟩ := h.gateAt_cases hge hlt
  have hknown : ∀ {a : Edge}, a.node ∈ c.cone e → a.node < gateAt c e next g →
      (edgeName c (c.cone e) next a).Proper ∧
        Known c next g (edgeName c (c.cone e) next a).atom := by
    intro a ha hak
    refine ⟨h.proper_edgeName ha, ?_⟩
    rw [h.atom_edgeName ha]
    rcases h.nodeAtom_before hgate ha hak with ⟨hinput, hbelow⟩ | hfresh
    · exact Or.inl ⟨⟨a.node, hinput⟩, hbelow⟩
    · rw [hatom] at hfresh
      exact Or.inr hfresh
  rw [conjuncts_of_and hnode]
  refine ⟨⟨by omega, by omega⟩, hknown hl (Nat.lt_trans hlr hrk), hknown hr hrk, ?_⟩
  rw [h.atom_edgeName hl, h.atom_edgeName hr]
  exact fun heq => absurd (h.nodeAtom_inj hl hr heq) (Nat.ne_of_lt hlr)

/-- What is asserted is a known literal. -/
theorem known_output (h : Encodable c e next) :
    Known c next (next + gateCount c e) (edgeName c (c.cone e) next e).atom := by
  have hself := h.canonical.mem_cone_self h.node_ne_zero
  rw [h.atom_edgeName hself]
  rcases h.nodeAtom_cases hself with ⟨hnode, -, hlt⟩ | ⟨-, hidx, hlt⟩
  · exact Or.inl ⟨⟨e.node, hnode⟩, hlt⟩
  · exact Or.inr ⟨by omega, hlt⟩

/-- **An encoding is layered.** -/
theorem layered (h : Encodable c e next) :
    Layered c next (gateCount c e)
      (fun g => edgeName c (c.cone e) next (conjuncts c (gateAt c e next g)).1)
      (fun g => edgeName c (c.cone e) next (conjuncts c (gateAt c e next g)).2)
      [[edgeName c (c.cone e) next e]] (encoding c e next) where
  clauses_eq := by
    rw [encoding, flatMap_definition, gates_eq_map c e next, List.flatMap_map]
    congr 1
    refine List.flatMap_congr fun g hg => ?_
    obtain ⟨hge, hlt⟩ := List.mem_range'_1.mp hg
    obtain ⟨l, r, hnode, -, hatom, -⟩ := h.gateAt_cases hge hlt
    rw [definition_of_and hnode, conjuncts_of_and hnode, nodeName, hatom]
  joins _ hge hlt := h.joins hge hlt
  assertion := Or.inr (Or.inr ⟨_, rfl,
    h.proper_edgeName (h.canonical.mem_cone_self h.node_ne_zero), h.known_output⟩)

end Encodable

/-- A constant edge needs no nodes. -/
theorem cone_of_node_eq_zero (hc : c.Canonical) (h0 : e.node = 0) : c.cone e = [] := by
  refine List.eq_nil_iff_forall_not_mem.mpr fun k hk => (hc.mem_cone_iff.mp hk).1 ?_
  have := hc.le_of_mem_cone hk
  omega

/-- **The clauses of every output are layered.** -/
theorem layered_of_encode (hc : c.Canonical) (hover : c.Over (· ≠ 0)) (he : e.node < c.size)
    {following : Nat} {clauses : List Clause} (h : encode c e next = .ok (clauses, following)) :
    (∃ x y asserted, Layered c next (gateCount c e) x y asserted clauses) ∧
      following = next + gateCount c e := by
  by_cases h0 : e.node = 0
  · obtain ⟨rfl, rfl⟩ := encode_of_node_eq_zero h0 h
    have hcount : gateCount c e = 0 := by
      rw [gateCount, cone_of_node_eq_zero hc h0]
      rfl
    rw [hcount]
    refine ⟨⟨fun _ => 0, fun _ => 0, _, rfl, fun g hge hlt => absurd hlt (by omega), ?_⟩, rfl⟩
    cases e.negated with
    | true => exact Or.inl rfl
    | false => exact Or.inr (Or.inl rfl)
  · obtain ⟨henc, rfl, rfl⟩ := encodable_of_encode hc hover he h0 h
    exact ⟨⟨_, _, _, henc.layered⟩, rfl⟩

end Encoding

/-! ## Interpolants -/

/-- In a circuit without other nodes, an edge depends on all conjunctions. -/
theorem Encoding.gateCount_eq {c : Circuit} (hc : c.Canonical) {e : Edge} (he : e.node < c.size)
    (hall : ∀ {k}, k ≠ 0 → k < c.size → k ∈ c.cone e) :
    gateCount c e = c.conjunctions.length := by
  refine List.Perm.length_eq ((List.perm_ext_iff_of_nodup ?_ ?_).mpr fun k => ?_)
  · exact nodup_gates c e
  · exact List.nodup_range.filter _
  · rw [mem_gates_iff, Circuit.conjunctions, mem_gates_iff, List.mem_range]
    refine and_congr_left fun ⟨l, r, hnode⟩ => ?_
    constructor
    · exact fun hk => Nat.lt_of_le_of_lt (hc.le_of_mem_cone hk) he
    · exact hall (hc.ne_zero_of_getElem? hnode Node.noConfusion)

/-- Whether an interpolant keeps to a vocabulary and to fresh variables from a counter
on. -/
structure Interpolant.KeepsTo (vocabulary : Nat → Prop) (next : Nat) (i : Interpolant) :
    Prop where
  /-- The fresh variables start at the counter. -/
  first : i.first = next
  /-- There is one for each conjunction of the circuit. -/
  count : i.next = next + i.circuit.conjunctions.length
  /-- The inputs of the circuit belong to the vocabulary. -/
  input : ∀ atom, i.circuit.IsInput atom → vocabulary atom
  /-- The literals of the clauses are proper, and their variables belong to the
  vocabulary and lie below the counter, or are fresh. -/
  literal : ∀ clause ∈ i.clauses, ∀ l ∈ clause, l.Proper ∧
    ((vocabulary l.atom ∧ l.atom < next) ∨ (i.first ≤ l.atom ∧ l.atom < i.next))
  /-- Every fresh variable occurs in the clauses. -/
  occurs : ∀ g, i.first ≤ g → g < i.next → ∃ clause ∈ i.clauses, g ∈ clause.atoms
  /-- The clauses define the fresh variables, each by inputs and smaller fresh
  variables. -/
  layered : ∃ x y asserted, Encoding.Layered i.circuit next i.circuit.conjunctions.length x y
    asserted i.clauses
  /-- No clause is a tautology or repeats a literal. -/
  clean : ∀ clause ∈ i.clauses, clause.Clean

variable {p : Proof} {labels : Labelling} {config : Config} {next : Nat} {i : Interpolant}

/-- **An interpolant speaks of shared variables of part A and of fresh variables.**  No
local variable reaches the circuit, and none reaches the clauses unless as a fresh
one. -/
theorem interpolate_keepsTo (hp : p.Reachable) (h : interpolate p labels config next = .ok i) :
    i.KeepsTo (labels.Speaks p) next := by
  obtain ⟨witness, edge, replay, hi⟩ := interpolated hp.wellFormed h
  have hover : i.circuit.Over (· ≠ 0) := fun hnode => (hi.circuit_over hnode).ne_zero hp.wellFormed
  obtain ⟨⟨x, y, asserted, hlayered⟩, hnext⟩ :=
    Encoding.layered_of_encode hi.canonical hover hi.lt hi.encode
  have hinput : ∀ atom, i.circuit.IsInput atom → labels.Speaks p atom :=
    fun atom ⟨_, hnode⟩ => hi.circuit_over hnode
  rw [Encoding.gateCount_eq hi.canonical hi.lt hi.mem_cone] at hlayered hnext
  refine ⟨hi.first, hnext, hinput, fun clause hclause l hl => ?_, fun g hge hlt => ?_,
    ⟨x, y, asserted, hlayered⟩, hlayered.clean⟩
  · obtain ⟨hproper, hknown⟩ := hlayered.literal clause hclause l hl
    rw [hi.first, hnext]
    exact ⟨hproper, hknown.imp_left fun hin => ⟨hinput _ hin.1, hin.2⟩⟩
  · rw [hi.first] at hge
    rw [hnext] at hlt
    exact hlayered.occurs hge hlt

/-- The interpolant of `splitRefutation` with fresh variables from 20 on. -/
theorem interpolate_keepsTo_splitRefutation :
    splitRefutation.Reachable ∧
      interpolate splitRefutation splitLabelling {} 20 = .ok (splitInterpolant 20) ∧
      (splitInterpolant 20).KeepsTo (splitLabelling.Speaks splitRefutation) 20 :=
  ⟨reachable_splitRefutation, interpolate_splitRefutation,
    interpolate_keepsTo reachable_splitRefutation interpolate_splitRefutation⟩

/-- With fresh variables from 10 on, the first of them is the variable that is local to
part A of `splitRefutation`: nothing compares the counter with local variables. -/
theorem exists_local_fresh : ¬ ∀ (p : Proof) (labels : Labelling) (config : Config) (next : Nat)
    (i : Interpolant), p.Reachable → interpolate p labels config next = .ok i →
      ∀ clause ∈ i.clauses, ∀ l ∈ clause, ∀ part, labels.scopeOf l.atom ≠ .localTo part := by
  intro h
  exact h splitRefutation splitLabelling {} 10 (splitInterpolant 10) reachable_splitRefutation rfl
    [-10] (by decide) (-10) List.mem_cons_self .a rfl

end Interpolation
