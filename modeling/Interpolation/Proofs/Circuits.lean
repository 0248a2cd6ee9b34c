import Interpolation.Circuit.Basic

/-!
# What building a circuit gives

A circuit only ever grows at its end.  So an edge, once returned, keeps its
value for good, and what has to be said of a building operation is which
function the edge it returns stands for (`Provides`).  It stands for that
function as long as the circuit is addressable after the operation; an edge to a
node past the limit is one to an earlier node, and has the value of that.

Beyond that, building keeps a circuit in a *canonical* form: no node occurs
twice, only the first is constant, and a conjunction joins two different nodes
made before it, neither of them constant, the smaller first.  Folding is what
makes this true, since whatever it does not fold has two operands on different
nodes.  It does not depend on the limit, because whatever node an edge leads to is
one that is there.

The circuits that building can reach are described by `Built`, which also keeps
track of the variables that were asked for: in a circuit built over a vocabulary
every input belongs to the vocabulary.

* `evaluate_of_le` --- a circuit that grows changes no value;
* `provides_input`, `provides_literal`, `provides_and`, `provides_or` --- what
  each operation returns;
* `Built.canonical`, `Built.over` --- what every circuit built looks like.
-/

namespace Interpolation

/-! ## Edges -/

namespace Edge

/-- An edge to a node other than the first is neither constant. -/
theorem node_pos_iff {e : Edge} : 0 < e.node ↔ e ≠ .bottom ∧ e ≠ .top := by
  cases h : e.negated <;> simp [Edge.ext_iff, h, Nat.pos_iff_ne_zero]

/-- Two edges to one node are the same or each other's negation. -/
theorem eq_or_eq_negate {a b : Edge} (h : a.node = b.node) : a = b ∨ a = b.negate := by
  cases hp : a.negated <;> cases hq : b.negated <;> simp [Edge.ext_iff, h, hp, hq]

/-- The order of edges to different nodes is that of the nodes. -/
theorem lt_iff_of_node_ne {a b : Edge} (h : a.node ≠ b.node) : a < b ↔ a.node < b.node := by
  show a.code < b.code ↔ a.node < b.node
  have hp := a.negated.toNat_le
  have hq := b.negated.toNat_le
  simp only [code]
  omega

end Edge

namespace Circuit

/-! ## Growing -/

/-- A circuit is below another that has the same nodes and perhaps more after
them. -/
instance : LE Circuit := ⟨fun c d => c.nodes.toList <+: d.nodes.toList⟩

theorem le_iff {c d : Circuit} : c ≤ d ↔ c.nodes.toList <+: d.nodes.toList := Iff.rfl

theorem le_refl (c : Circuit) : c ≤ c := List.prefix_refl _

theorem le_trans {c d e : Circuit} (h : c ≤ d) (g : d ≤ e) : c ≤ e := List.IsPrefix.trans h g

theorem le_push (c : Circuit) (node : Node) : c ≤ ⟨c.nodes.push node⟩ := by
  rw [le_iff, Array.toList_push]
  exact List.prefix_append _ _

theorem size_le_of_le {c d : Circuit} (h : c ≤ d) : c.size ≤ d.size := by
  have := List.IsPrefix.length_le h
  simpa [size] using this

/-- What a circuit grew from is addressable if it is. -/
theorem Addressable.of_le {c d : Circuit} (hd : d.Addressable) (h : c ≤ d) : c.Addressable :=
  Nat.le_trans (size_le_of_le h) hd

/-- What stands at a position of the smaller circuit stands there in the
greater. -/
theorem getElem?_of_le {c d : Circuit} (h : c ≤ d) {i : Nat} (hi : i < c.size) :
    d.nodes[i]? = c.nodes[i]? := by
  have hlt : i < c.nodes.toList.length := by simpa [size] using hi
  obtain ⟨l, hl⟩ := le_iff.mp h
  rw [← Array.getElem?_toList, ← Array.getElem?_toList, ← hl, List.getElem?_append_left hlt]

theorem lt_size_of_getElem? {c : Circuit} {i : Nat} {node : Node}
    (h : c.nodes[i]? = some node) : i < c.size :=
  (Array.getElem?_eq_some_iff.mp h).1

/-- The nodes up to a position, with the node there last. -/
theorem exists_push_le {c : Circuit} {i : Nat} {node : Node} (h : c.nodes[i]? = some node) :
    ∃ b : Circuit, b.size = i ∧ b ≤ c ∧ (⟨b.nodes.push node⟩ : Circuit) ≤ c := by
  have hi : i < c.nodes.toList.length := lt_size_of_getElem? h
  have hnode : c.nodes.toList[i] = node := by
    have := List.getElem?_eq_getElem hi
    rw [Array.getElem?_toList, h] at this
    exact (Option.some.inj this).symm
  refine ⟨⟨(c.nodes.toList.take i).toArray⟩, ?_, List.take_prefix _ _, ?_⟩
  · rw [size, List.size_toArray, List.length_take]
    omega
  · have hsplit : c.nodes.toList.take (i + 1) = c.nodes.toList.take i ++ [node] := by
      rw [List.take_succ_eq_append_getElem hi, hnode]
    rw [le_iff, Array.toList_push, ← hsplit]
    exact List.take_prefix _ _

/-! ## Values -/

/-- The value of the node at a position, where the variables have the values
`v`. -/
def valueAt (c : Circuit) (v : Nat → Bool) (i : Nat) : Bool := (c.values v)[i]?.getD false

theorem evaluate_eq (c : Circuit) (e : Edge) (v : Nat → Bool) :
    c.evaluate e v = (c.valueAt v e.node ^^ e.negated) := rfl

@[simp] theorem evaluate_negate (c : Circuit) (e : Edge) (v : Nat → Bool) :
    c.evaluate e.negate v = !c.evaluate e v :=
  Edge.value_negate e _

theorem valueAt_push_of_lt {c : Circuit} {i : Nat} (hi : i < c.size) (node : Node)
    (v : Nat → Bool) : valueAt ⟨c.nodes.push node⟩ v i = c.valueAt v i := by
  have hi' : i < (c.values v).size := by rwa [size_values]
  unfold valueAt
  rw [values_push, Array.getElem?_push, if_neg (Nat.ne_of_lt hi')]

theorem valueAt_push_self (c : Circuit) (node : Node) (v : Nat → Bool) :
    valueAt ⟨c.nodes.push node⟩ v c.size = node.value v (c.values v) := by
  unfold valueAt
  rw [values_push, ← size_values c v, Array.getElem?_push_size]
  rfl

/-- Growing changes no value. -/
theorem valueAt_of_le {c d : Circuit} (h : c ≤ d) {i : Nat} (hi : i < c.size)
    (v : Nat → Bool) : d.valueAt v i = c.valueAt v i := by
  obtain ⟨l, hl⟩ := le_iff.mp h
  clear h
  -- one appended node at a time, the first of them first
  induction l generalizing c with
  | nil =>
    obtain ⟨nodes⟩ := d
    rw [List.append_nil] at hl
    obtain rfl : c.nodes = nodes := Array.toList_inj.mp hl
    rfl
  | cons node l ih =>
    have hlt : i < (⟨c.nodes.push node⟩ : Circuit).size := by
      simp only [size, Array.size_push] at hi ⊢
      omega
    rw [ih hlt (by simpa using hl), valueAt_push_of_lt hi]

/-- An edge keeps its value while the circuit grows. -/
theorem evaluate_of_le {c d : Circuit} (h : c ≤ d) {e : Edge} (he : e.node < c.size)
    (v : Nat → Bool) : d.evaluate e v = c.evaluate e v := by
  rw [evaluate_eq, evaluate_eq, valueAt_of_le h he]

theorem valueAt_input {c : Circuit} {i atom : Nat} (h : c.nodes[i]? = some (.input atom))
    (v : Nat → Bool) : c.valueAt v i = v atom := by
  obtain ⟨b, rfl, -, hb⟩ := exists_push_le h
  rw [valueAt_of_le hb (by simp [size]), valueAt_push_self]
  rfl

theorem valueAt_bottom {c : Circuit} {i : Nat} (h : c.nodes[i]? = some .bottom)
    (v : Nat → Bool) : c.valueAt v i = false := by
  obtain ⟨b, rfl, -, hb⟩ := exists_push_le h
  rw [valueAt_of_le hb (by simp [size]), valueAt_push_self]
  rfl

/-- A conjunction of nodes that come before it has the value it should have. -/
theorem valueAt_and {c : Circuit} {i : Nat} {l r : Edge}
    (h : c.nodes[i]? = some (.and l r)) (hl : l.node < i) (hr : r.node < i) (v : Nat → Bool) :
    c.valueAt v i = (c.evaluate l v && c.evaluate r v) := by
  obtain ⟨b, rfl, hle, hb⟩ := exists_push_le h
  rw [valueAt_of_le hb (by simp [size]), valueAt_push_self, evaluate_of_le hle hl,
    evaluate_of_le hle hr]
  rfl

theorem mem_children_iff {c : Circuit} {i k : Nat} :
    k ∈ c.children i ↔
      ∃ l r, c.nodes[i]? = some (.and l r) ∧ (k = l.node ∨ k = r.node) := by
  unfold children
  cases hi : c.nodes[i]? with
  | none => simp
  | some node =>
    cases node with
    | bottom => simp [Node.children]
    | input atom => simp [Node.children]
    | and l r =>
      simp only [Node.children, List.mem_cons, List.not_mem_nil, or_false, Option.some.injEq,
        Node.and.injEq]
      exact ⟨fun hk => ⟨l, r, ⟨rfl, rfl⟩, hk⟩, by rintro ⟨_, _, ⟨rfl, rfl⟩, hk⟩; exact hk⟩

/-! ## Canonical circuits -/

/-- The form in which building keeps a circuit. -/
structure Canonical (c : Circuit) : Prop where
  /-- The first node is the constant. -/
  bottom : c.nodes[0]? = some .bottom
  /-- No node is there twice. -/
  nodup : c.nodes.toList.Nodup
  /-- A conjunction joins two different earlier nodes that are not constant, the
  smaller first. -/
  ordered : ∀ {i : Nat} {l r : Edge}, c.nodes[i]? = some (.and l r) →
    0 < l.node ∧ l.node < r.node ∧ r.node < i

namespace Canonical

variable {c : Circuit}

theorem size_pos (h : c.Canonical) : 0 < c.size := lt_size_of_getElem? h.bottom

/-- Nothing stands at two positions. -/
theorem eq_of_getElem? (h : c.Canonical) {i j : Nat} {node : Node}
    (hi : c.nodes[i]? = some node) (hj : c.nodes[j]? = some node) : i = j := by
  have hlt : i < c.nodes.toList.length := lt_size_of_getElem? hi
  refine (List.getElem?_inj hlt h.nodup).mp ?_
  rw [Array.getElem?_toList, Array.getElem?_toList, hi, hj]

/-- Only the first node is constant. -/
theorem eq_zero_of_bottom (h : c.Canonical) {i : Nat} (hi : c.nodes[i]? = some .bottom) :
    i = 0 :=
  h.eq_of_getElem? hi h.bottom

theorem ne_zero_of_getElem? (h : c.Canonical) {i : Nat} {node : Node}
    (hi : c.nodes[i]? = some node) (hnode : node ≠ .bottom) : i ≠ 0 := by
  rintro rfl
  exact hnode (Option.some.inj (hi.symm.trans h.bottom))

theorem valueAt_zero (h : c.Canonical) (v : Nat → Bool) : c.valueAt v 0 = false :=
  valueAt_bottom h.bottom v

theorem evaluate_bottom (h : c.Canonical) (v : Nat → Bool) : c.evaluate .bottom v = false := by
  rw [evaluate_eq, show Edge.bottom.node = 0 from rfl, h.valueAt_zero]
  rfl

theorem evaluate_top (h : c.Canonical) (v : Nat → Bool) : c.evaluate .top v = true := by
  rw [evaluate_eq, show Edge.top.node = 0 from rfl, h.valueAt_zero]
  rfl

/-- The value of a conjunction is that of its conjuncts together. -/
theorem valueAt_and (h : c.Canonical) {i : Nat} {l r : Edge}
    (hi : c.nodes[i]? = some (.and l r)) (v : Nat → Bool) :
    c.valueAt v i = (c.evaluate l v && c.evaluate r v) := by
  obtain ⟨-, hlr, hr⟩ := h.ordered hi
  exact Circuit.valueAt_and hi (by omega) hr v

/-- In a canonical circuit every node refers to smaller ones only. -/
theorem descends (h : c.Canonical) : Descends c.children := by
  intro i k hk
  obtain ⟨l, r, hi, hk⟩ := mem_children_iff.mp hk
  obtain ⟨-, hlr, hr⟩ := h.ordered hi
  rcases hk with rfl | rfl
  · exact Nat.lt_trans hlr hr
  · exact hr

/-- In a canonical circuit no node refers to the constant. -/
theorem pos_of_mem_children (h : c.Canonical) {i k : Nat} (hk : k ∈ c.children i) : 0 < k := by
  obtain ⟨l, r, hi, hk⟩ := mem_children_iff.mp hk
  obtain ⟨hl, hlr, -⟩ := h.ordered hi
  rcases hk with rfl | rfl
  · exact hl
  · exact Nat.lt_trans hl hlr

end Canonical

/-! ## The functions that building provides -/

/-- Whether an operation on a circuit has returned an edge that stands for a
function, in a circuit that has grown, unless it has grown past the limit. -/
structure Provides (c : Circuit) (result : Edge × Circuit) (f : (Nat → Bool) → Bool) : Prop where
  /-- The circuit has grown. -/
  le : c ≤ result.2
  /-- The edge is one of the circuit. -/
  lt : result.1.node < result.2.size
  /-- The edge stands for the function. -/
  evaluate : result.2.Addressable → ∀ v, result.2.evaluate result.1 v = f v

theorem Provides.negate {c : Circuit} {result : Edge × Circuit} {f : (Nat → Bool) → Bool}
    (h : Provides c result f) : Provides c (result.1.negate, result.2) fun v => !f v where
  le := h.le
  lt := h.lt
  evaluate hsize v := by rw [evaluate_negate, h.evaluate hsize]

/-- A shared node stands at a position of the circuit, which is either the same
as before or has the node at its end. -/
theorem share_cases (c : Circuit) (node : Node) :
    (∃ i, c.nodes[i]? = some node ∧ c.share node = (.ofNode i false, c)) ∨
      (node ∉ c.nodes ∧ c.share node = (.ofNode c.size false, ⟨c.nodes.push node⟩)) := by
  cases hp : c.position? node with
  | none => exact Or.inr ⟨position?_eq_none_iff.mp hp, by simp [share, hp, size]⟩
  | some i =>
    refine Or.inl ⟨i, ?_, by simp [share, hp]⟩
    obtain ⟨hlt, heq, -⟩ := List.idxOf?_eq_some_iff.mp hp
    rw [← Array.getElem?_toList, List.getElem?_eq_getElem hlt, heq]

theorem le_share (c : Circuit) (node : Node) : c ≤ (c.share node).2 := by
  rcases share_cases c node with ⟨i, -, h⟩ | ⟨-, h⟩
  · rw [h]
    exact le_refl c
  · rw [h]
    exact le_push c node

/-- The edge of a shared node is the plain one that is asked for the position of
the node. -/
theorem exists_getElem?_share (c : Circuit) (node : Node) :
    ∃ i, (c.share node).2.nodes[i]? = some node ∧ (c.share node).1 = .ofNode i false := by
  rcases share_cases c node with ⟨i, hi, h⟩ | ⟨-, h⟩
  · rw [h]
    exact ⟨i, hi, rfl⟩
  · rw [h]
    exact ⟨c.size, by simp [size], rfl⟩

/-- It leads to the node, if the circuit is addressable. -/
theorem getElem?_share {c : Circuit} {node : Node} (h : (c.share node).2.Addressable) :
    (c.share node).2.nodes[(c.share node).1.node]? = some node := by
  obtain ⟨i, hi, hedge⟩ := exists_getElem?_share c node
  rw [hedge, Edge.node_ofNode_of_lt (Nat.lt_of_lt_of_le (lt_size_of_getElem? hi) h)]
  exact hi

/-- A shared node stands for whatever value it has in its place. -/
theorem provides_share (c : Circuit) (node : Node) :
    Provides c (c.share node) fun v => (c.share node).2.valueAt v (c.share node).1.node := by
  obtain ⟨i, hi, hedge⟩ := exists_getElem?_share c node
  refine ⟨le_share c node, ?_, fun _ v => ?_⟩
  · rw [hedge]
    exact Nat.lt_of_le_of_lt (Edge.node_ofNode_le i false) (lt_size_of_getElem? hi)
  · rw [evaluate_eq, hedge, Edge.negated_ofNode, Bool.xor_false]

theorem provides_input (c : Circuit) (atom : Nat) :
    Provides c (c.input atom) fun v => v atom where
  le := le_share c _
  lt := (provides_share c _).lt
  evaluate hsize v := by
    rw [input, (provides_share c _).evaluate hsize, valueAt_input (getElem?_share hsize)]

theorem provides_literal (c : Circuit) (l : Literal) :
    Provides c (c.literal l) fun v => l.holds v := by
  have h := provides_input c l.atom
  unfold literal
  cases hp : l.polarity with
  | true =>
    refine ⟨h.le, h.lt, fun hsize v => ?_⟩
    simpa [Literal.holds, hp] using h.evaluate hsize v
  | false =>
    refine ⟨h.negate.le, h.negate.lt, fun hsize v => ?_⟩
    simpa [Literal.holds, hp] using h.negate.evaluate hsize v

/-- **A conjunction is folded or shared.**  It is folded to one of its operands
or to the constant when an operand is constant or both lead to one node; whatever
is shared joins two different nodes that are not constant, the smaller first. -/
theorem and_cases (c : Circuit) (a b : Edge) :
    (c.and a b = (.bottom, c) ∧ (a = .bottom ∨ b = .bottom ∨ a = b.negate)) ∨
      (c.and a b = (b, c) ∧ (a = .top ∨ a = b)) ∨
      (c.and a b = (a, c) ∧ b = .top) ∨
      ∃ l r, (l = a ∧ r = b ∨ l = b ∧ r = a) ∧ 0 < l.node ∧ l.node < r.node ∧
        c.and a b = c.share (.and l r) := by
  by_cases h₁ : a = .bottom ∨ b = .bottom ∨ a = b.negate
  · exact Or.inl ⟨by rw [and, if_pos h₁], h₁⟩
  by_cases h₂ : a = .top ∨ a = b
  · exact Or.inr (Or.inl ⟨by rw [and, if_neg h₁, if_pos h₂], h₂⟩)
  by_cases h₃ : b = .top
  · exact Or.inr (Or.inr (Or.inl ⟨by rw [and, if_neg h₁, if_neg h₂, if_pos h₃], h₃⟩))
  refine Or.inr (Or.inr (Or.inr ?_))
  simp only [not_or] at h₁ h₂
  have ha : 0 < a.node := Edge.node_pos_iff.mpr ⟨h₁.1, h₂.1⟩
  have hb : 0 < b.node := Edge.node_pos_iff.mpr ⟨h₁.2.1, h₃⟩
  have hne : a.node ≠ b.node := fun h => (Edge.eq_or_eq_negate h).elim h₂.2 h₁.2.2
  have hand : c.and a b = if a < b then c.share (.and a b) else c.share (.and b a) := by
    rw [and, if_neg (by simp [h₁]), if_neg (by simp [h₂]), if_neg h₃]
  by_cases hlt : a.node < b.node
  · refine ⟨a, b, Or.inl ⟨rfl, rfl⟩, ha, hlt, ?_⟩
    rw [hand, if_pos ((Edge.lt_iff_of_node_ne hne).mpr hlt)]
  · refine ⟨b, a, Or.inr ⟨rfl, rfl⟩, hb, by omega, ?_⟩
    rw [hand, if_neg (fun h => hlt ((Edge.lt_iff_of_node_ne hne).mp h))]

/-- Sharing keeps a circuit canonical, if the node is a proper input or
conjunction. -/
theorem Canonical.share {c : Circuit} (hc : c.Canonical) {node : Node} (hne : node ≠ .bottom)
    (hnode : ∀ l r, node = .and l r → 0 < l.node ∧ l.node < r.node ∧ r.node < c.size) :
    (c.share node).2.Canonical := by
  rcases share_cases c node with ⟨i, -, h⟩ | ⟨hnew, h⟩
  · rw [h]
    exact hc
  · rw [h]
    have hle := le_push c node
    refine ⟨?_, ?_, fun {i l r} hi => ?_⟩
    · rw [getElem?_of_le hle hc.size_pos]
      exact hc.bottom
    · rw [Array.toList_push]
      refine List.nodup_append.mpr ⟨hc.nodup, List.pairwise_singleton _ _, ?_⟩
      intro x hx y hy
      rw [List.mem_singleton] at hy
      rw [hy]
      rintro rfl
      exact hnew (Array.mem_toList_iff.mp hx)
    · rw [Array.getElem?_push] at hi
      split at hi
      · rename_i hsize
        rw [hsize]
        exact hnode l r (Option.some.inj hi)
      · exact hc.ordered hi

theorem Canonical.input {c : Circuit} (hc : c.Canonical) (atom : Nat) :
    (c.input atom).2.Canonical :=
  hc.share (fun h => Node.noConfusion h) (fun _ _ h => Node.noConfusion h)

theorem Canonical.literal {c : Circuit} (hc : c.Canonical) (l : Literal) :
    (c.literal l).2.Canonical :=
  hc.input l.atom

theorem Canonical.and {c : Circuit} (hc : c.Canonical) {a b : Edge} (ha : a.node < c.size)
    (hb : b.node < c.size) : (c.and a b).2.Canonical := by
  rcases and_cases c a b with ⟨h, -⟩ | ⟨h, -⟩ | ⟨h, -⟩ | ⟨l, r, hcase, hl, hlr, h⟩
  · rw [h]
    exact hc
  · rw [h]
    exact hc
  · rw [h]
    exact hc
  · rw [h]
    refine hc.share (fun h => Node.noConfusion h) fun l' r' hnode => ?_
    obtain ⟨rfl, rfl⟩ := Node.and.inj hnode
    refine ⟨hl, hlr, ?_⟩
    rcases hcase with ⟨-, rfl⟩ | ⟨-, rfl⟩
    · exact hb
    · exact ha

theorem Canonical.or {c : Circuit} (hc : c.Canonical) {a b : Edge} (ha : a.node < c.size)
    (hb : b.node < c.size) : (c.or a b).2.Canonical :=
  Canonical.and hc (a := a.negate) (b := b.negate) ha hb

theorem provides_and {c : Circuit} (hc : c.Canonical) {a b : Edge} (ha : a.node < c.size)
    (hb : b.node < c.size) :
    Provides c (c.and a b) fun v => c.evaluate a v && c.evaluate b v := by
  rcases and_cases c a b with ⟨h, hcase⟩ | ⟨h, hcase⟩ | ⟨h, hcase⟩ | ⟨l, r, hcase, -, hlr, h⟩
  · rw [h]
    refine ⟨le_refl c, hc.size_pos, fun _ v => ?_⟩
    rw [hc.evaluate_bottom]
    rcases hcase with rfl | rfl | rfl
    · simp [hc.evaluate_bottom]
    · simp [hc.evaluate_bottom]
    · simp
  · rw [h]
    refine ⟨le_refl c, hb, fun _ v => ?_⟩
    rcases hcase with rfl | rfl
    · simp [hc.evaluate_top]
    · simp
  · rw [h]
    refine ⟨le_refl c, ha, fun _ v => ?_⟩
    rw [hcase]
    simp [hc.evaluate_top]
  · have hcan : (c.share (.and l r)).2.Canonical := h ▸ hc.and ha hb
    rw [h]
    refine ⟨le_share c _, (provides_share c _).lt, fun hsize v => ?_⟩
    rw [(provides_share c _).evaluate hsize, hcan.valueAt_and (getElem?_share hsize)]
    rcases hcase with ⟨rfl, rfl⟩ | ⟨rfl, rfl⟩
    · rw [evaluate_of_le (le_share c _) ha, evaluate_of_le (le_share c _) hb]
    · rw [evaluate_of_le (le_share c _) ha, evaluate_of_le (le_share c _) hb, Bool.and_comm]

theorem provides_or {c : Circuit} (hc : c.Canonical) {a b : Edge} (ha : a.node < c.size)
    (hb : b.node < c.size) :
    Provides c (c.or a b) fun v => c.evaluate a v || c.evaluate b v := by
  have h := (provides_and hc (a := a.negate) (b := b.negate) ha hb).negate
  refine ⟨h.le, h.lt, fun hsize v => ?_⟩
  rw [or, h.evaluate hsize, evaluate_negate, evaluate_negate, Bool.not_and, Bool.not_not,
    Bool.not_not]

/-! ## The circuits that can be built -/

/-- The circuits that the building operations reach, when only variables of a
vocabulary are asked for and only edges of the circuit are joined. -/
inductive Built (vocabulary : Nat → Prop) : Circuit → Prop
  | empty : Built vocabulary {}
  | input {c : Circuit} {atom : Nat} :
      Built vocabulary c → vocabulary atom → Built vocabulary (c.input atom).2
  | literal {c : Circuit} {l : Literal} :
      Built vocabulary c → vocabulary l.atom → Built vocabulary (c.literal l).2
  | and {c : Circuit} {a b : Edge} :
      Built vocabulary c → a.node < c.size → b.node < c.size → Built vocabulary (c.and a b).2
  | or {c : Circuit} {a b : Edge} :
      Built vocabulary c → a.node < c.size → b.node < c.size → Built vocabulary (c.or a b).2

variable {vocabulary : Nat → Prop}

theorem canonical_empty : Canonical {} where
  bottom := rfl
  nodup := List.pairwise_singleton _ _
  ordered {i l r} hi := by
    have hlt := lt_size_of_getElem? hi
    obtain rfl : i = 0 := Nat.lt_one_iff.mp hlt
    exact absurd hi (by simp)

/-- **Every circuit built is canonical.** -/
theorem Built.canonical {c : Circuit} (h : Built vocabulary c) : c.Canonical := by
  induction h with
  | empty => exact canonical_empty
  | input _ _ ih => exact ih.input _
  | literal _ _ ih => exact ih.literal _
  | and _ ha hb ih => exact ih.and ha hb
  | or _ ha hb ih => exact ih.or ha hb

/-- Whether every input of a circuit belongs to a vocabulary. -/
def Over (vocabulary : Nat → Prop) (c : Circuit) : Prop :=
  ∀ {i atom : Nat}, c.nodes[i]? = some (.input atom) → vocabulary atom

theorem Over.share {c : Circuit} (h : c.Over vocabulary) {node : Node}
    (hnode : ∀ atom, node = .input atom → vocabulary atom) :
    (c.share node).2.Over vocabulary := by
  intro i atom hi
  rcases share_cases c node with ⟨j, -, hs⟩ | ⟨-, hs⟩
  · rw [hs] at hi
    exact h hi
  · rw [hs, Array.getElem?_push] at hi
    split at hi
    · exact hnode atom (Option.some.inj hi)
    · exact h hi

theorem Over.and {c : Circuit} (h : c.Over vocabulary) (a b : Edge) :
    (c.and a b).2.Over vocabulary := by
  rcases and_cases c a b with ⟨hs, -⟩ | ⟨hs, -⟩ | ⟨hs, -⟩ | ⟨l, r, -, -, -, hs⟩
  · rw [hs]
    exact h
  · rw [hs]
    exact h
  · rw [hs]
    exact h
  · rw [hs]
    exact h.share fun _ hnode => Node.noConfusion hnode

/-- **A circuit has no input that was not asked for.** -/
theorem Built.over {c : Circuit} (h : Built vocabulary c) : c.Over vocabulary := by
  induction h with
  | empty =>
    intro i atom hi
    obtain rfl : i = 0 := Nat.lt_one_iff.mp (lt_size_of_getElem? hi)
    exact absurd hi (by simp)
  | input _ ha ih => exact ih.share fun _ hnode => Node.input.inj hnode ▸ ha
  | literal _ ha ih => exact Over.share ih fun _ hnode => Node.input.inj hnode ▸ ha
  | and _ _ _ ih => exact ih.and _ _
  | or _ _ _ ih => exact Over.and ih _ _

end Circuit
end Interpolation
