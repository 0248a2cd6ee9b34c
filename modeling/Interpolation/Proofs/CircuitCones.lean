import Interpolation.Proofs.Circuits
import Mathlib.Data.List.Basic

/-!
# The part of a circuit that an edge depends on

In a canonical circuit the cone of an edge is what the edge reaches, the constant
left out.  It is closed under children, so that a statement about all its nodes
is proved from small nodes to great ones: a node of the cone is an input, or a
conjunction of two smaller nodes of the cone (`cone_cases`).

The first use of that is that an edge depends on the variables of its cone and on
no others (`evaluate_congr`).

Since a cone ascends, the place of a node in it is counted by `List.idxOf`, and
counting keeps the order (`idxOf_lt_idxOf_iff`).
-/

namespace Interpolation

/-! ## Places in an ascending list -/

/-- In an ascending list the places ascend with the members. -/
theorem idxOf_lt_idxOf_iff {l : List Nat} (hl : l.Pairwise (· < ·)) {a b : Nat} (ha : a ∈ l)
    (hb : b ∈ l) : l.idxOf a < l.idxOf b ↔ a < b := by
  have hlt : ∀ {x y : Nat}, x ∈ l → y ∈ l → l.idxOf x < l.idxOf y → x < y := by
    intro x y hx hy hxy
    have hx' := List.idxOf_lt_length_of_mem hx
    have hy' := List.idxOf_lt_length_of_mem hy
    have := List.pairwise_iff_getElem.mp hl _ _ hx' hy' hxy
    rwa [List.getElem_idxOf hx', List.getElem_idxOf hy'] at this
  refine ⟨hlt ha hb, fun hab => ?_⟩
  rcases Nat.lt_trichotomy (l.idxOf a) (l.idxOf b) with h | h | h
  · exact h
  · exact absurd ((List.idxOf_inj ha).mp h) (Nat.ne_of_lt hab)
  · exact absurd (hlt hb ha h) (by omega)

/-! An ascending list is split where a member comes next: all that is smaller has
come before, and the member itself has not. -/

section

variable {l before after : List Nat} {a : Nat}

theorem notMem_of_split (hl : l.Pairwise (· < ·)) (h : l = before ++ a :: after) :
    a ∉ before := by
  intro ha
  rw [h] at hl
  exact Nat.lt_irrefl a ((List.pairwise_append.mp hl).2.2 a ha a List.mem_cons_self)

theorem mem_of_split (hl : l.Pairwise (· < ·)) (h : l = before ++ a :: after) {m : Nat}
    (hm : m ∈ l) (hma : m < a) : m ∈ before := by
  rw [h] at hm hl
  rcases List.mem_append.mp hm with hm | hm
  · exact hm
  · rcases List.mem_cons.mp hm with rfl | hm
    · exact absurd hma (Nat.lt_irrefl _)
    · have := List.rel_of_pairwise_cons (List.pairwise_append.mp hl).2.1 hm
      exact absurd hma (Nat.not_lt_of_lt this)

theorem idxOf_of_split (hl : l.Pairwise (· < ·)) (h : l = before ++ a :: after) :
    l.idxOf a = before.length := by
  have hnot := notMem_of_split hl h
  rw [h, List.idxOf_append, if_neg hnot, List.idxOf_cons_self, Nat.zero_add]

end

namespace Circuit

/-! ## Cones -/

theorem pairwise_cone (c : Circuit) (e : Edge) : (c.cone e).Pairwise (· < ·) :=
  (Interpolation.pairwise_cone e.node).filter _

theorem nodup_cone (c : Circuit) (e : Edge) : (c.cone e).Nodup :=
  (c.pairwise_cone e).imp Nat.ne_of_lt

namespace Canonical

variable {c : Circuit}

/-- The cone is what the edge reaches, the constant left out. -/
theorem mem_cone_iff (h : c.Canonical) {e : Edge} {k : Nat} :
    k ∈ c.cone e ↔ k ≠ 0 ∧ Reaches c.children e.node k := by
  rw [cone, List.mem_filter, Interpolation.mem_cone_iff h.descends, bne_iff_ne, and_comm]

theorem zero_notMem_cone (h : c.Canonical) (e : Edge) : 0 ∉ c.cone e := fun h0 =>
  (h.mem_cone_iff.mp h0).1 rfl

theorem le_of_mem_cone (h : c.Canonical) {e : Edge} {k : Nat} (hk : k ∈ c.cone e) :
    k ≤ e.node :=
  (h.mem_cone_iff.mp hk).2.le h.descends

theorem mem_cone_self (h : c.Canonical) {e : Edge} (he : e.node ≠ 0) : e.node ∈ c.cone e :=
  h.mem_cone_iff.mpr ⟨he, .refl _⟩

theorem mem_cone_of_mem_children (h : c.Canonical) {e : Edge} {k m : Nat} (hk : k ∈ c.cone e)
    (hm : m ∈ c.children k) : m ∈ c.cone e :=
  h.mem_cone_iff.mpr ⟨Nat.ne_of_gt (h.pos_of_mem_children hm),
    (h.mem_cone_iff.mp hk).2.trans (.step hm (.refl m))⟩

/-- **A node of a cone is an input, or a conjunction of smaller nodes of the
cone.** -/
theorem cone_cases (h : c.Canonical) {e : Edge} (he : e.node < c.size) {k : Nat}
    (hk : k ∈ c.cone e) :
    (∃ atom, c.nodes[k]? = some (.input atom)) ∨
      ∃ l r, c.nodes[k]? = some (.and l r) ∧ l.node ∈ c.cone e ∧ r.node ∈ c.cone e ∧
        l.node < r.node ∧ r.node < k := by
  have hlt : k < c.nodes.size := Nat.lt_of_le_of_lt (h.le_of_mem_cone hk) he
  have hnode : c.nodes[k]? = some c.nodes[k] := Array.getElem?_eq_getElem hlt
  cases hkind : c.nodes[k] with
  | bottom =>
    rw [hkind] at hnode
    exact absurd (h.eq_zero_of_bottom hnode) (h.mem_cone_iff.mp hk).1
  | input atom => exact Or.inl ⟨atom, by rw [hnode, hkind]⟩
  | and l r =>
    rw [hkind] at hnode
    obtain ⟨-, hlr, hr⟩ := h.ordered hnode
    refine Or.inr ⟨l, r, hnode, ?_, ?_, hlr, hr⟩
    · exact h.mem_cone_of_mem_children hk (mem_children_iff.mpr ⟨l, r, hnode, Or.inl rfl⟩)
    · exact h.mem_cone_of_mem_children hk (mem_children_iff.mpr ⟨l, r, hnode, Or.inr rfl⟩)

end Canonical

theorem mem_atoms_iff {c : Circuit} {e : Edge} {atom : Nat} :
    atom ∈ c.atoms e ↔ ∃ k ∈ c.cone e, c.nodes[k]? = some (.input atom) := by
  rw [atoms, NatMap.mem_ascendingOf, List.mem_filterMap]
  refine exists_congr fun k => and_congr_right fun _ => ?_
  cases c.nodes[k]? with
  | none => simp
  | some node => cases node <;> simp [Node.atom?]

/-! ## What an edge depends on -/

variable {c : Circuit}

theorem Canonical.valueAt_congr (h : c.Canonical) {e : Edge} (he : e.node < c.size)
    {v w : Nat → Bool} (hvw : ∀ atom ∈ c.atoms e, v atom = w atom) :
    ∀ k ∈ c.cone e, c.valueAt v k = c.valueAt w k := by
  intro k
  -- a conjunction has the value that its smaller conjuncts give it
  induction k using Nat.strongRecOn with
  | ind k ih =>
    intro hk
    rcases h.cone_cases he hk with ⟨atom, hnode⟩ | ⟨l, r, hnode, hl, hr, hlr, hrk⟩
    · rw [valueAt_input hnode, valueAt_input hnode]
      exact hvw atom (mem_atoms_iff.mpr ⟨k, hk, hnode⟩)
    · rw [h.valueAt_and hnode, h.valueAt_and hnode, evaluate_eq, evaluate_eq, evaluate_eq,
        evaluate_eq, ih l.node (Nat.lt_trans hlr hrk) hl, ih r.node hrk hr]

/-- **An edge depends on the variables of its cone only.** -/
theorem Canonical.evaluate_congr (h : c.Canonical) {e : Edge} (he : e.node < c.size)
    {v w : Nat → Bool} (hvw : ∀ atom ∈ c.atoms e, v atom = w atom) :
    c.evaluate e v = c.evaluate e w := by
  rw [evaluate_eq, evaluate_eq]
  by_cases h0 : e.node = 0
  · rw [h0, h.valueAt_zero, h.valueAt_zero]
  · rw [h.valueAt_congr he hvw _ (h.mem_cone_self h0)]

end Circuit
end Interpolation
