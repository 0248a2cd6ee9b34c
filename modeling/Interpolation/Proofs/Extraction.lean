import Interpolation.Circuit.Extract
import Interpolation.Proofs.CircuitCones

/-!
# Extraction copies a cone exactly

Extraction makes its copy with the operations that make any circuit, and those
fold and share.  In the copy of a canonical circuit they find nothing to do.
Renumbering the nodes of a cone by their places keeps them apart and keeps their
order, so a copied conjunction still joins two different nodes, neither of them
constant, the smaller first; and two nodes that were different are different
still.  Each node of the cone is therefore copied to a node of its own, at the
end of what was copied before.  No place is past the limit, whatever the size of the
circuit, because a node never moves up and every edge leads to a node below the limit.

* `extract_eq` --- the copy is the cone, renumbered;
* `built_extract` --- it is a circuit over the variables of the edge;
* `evaluate_extract` --- the edge returned has the value of the edge copied;
* `mem_cone_extract` --- nothing is in the copy that the edge does not reach.
-/

namespace Interpolation

/-- The number of a node in the copy of a cone.  The constant comes first and the
nodes of the cone follow in their order. -/
def place (cone : List Nat) (k : Nat) : Nat := if k = 0 then 0 else cone.idxOf k + 1

/-- The edge to the same node in the copy of a cone. -/
def Edge.renumber (cone : List Nat) (e : Edge) : Edge := .ofNode (place cone e.node) e.negated

/-- A node as it stands in the copy of a cone. -/
def Node.renumber (cone : List Nat) : Node → Node
  | .bottom => .bottom
  | .input atom => .input atom
  | .and left right => .and (left.renumber cone) (right.renumber cone)

/-! ## Places -/

@[simp] theorem place_zero (cone : List Nat) : place cone 0 = 0 := rfl

theorem place_of_ne_zero {cone : List Nat} {k : Nat} (hk : k ≠ 0) :
    place cone k = cone.idxOf k + 1 :=
  if_neg hk

theorem place_lt_place {cone : List Nat} (hs : cone.Pairwise (· < ·)) {j k : Nat}
    (hj : j ∈ cone) (hk : k ∈ cone) (h0 : 0 < j) (hlt : j < k) : place cone j < place cone k := by
  rw [place_of_ne_zero (by omega), place_of_ne_zero (by omega)]
  exact Nat.succ_lt_succ ((idxOf_lt_idxOf_iff hs hj hk).mpr hlt)

/-- What comes first in a cone has its place below what comes next. -/
theorem place_lt_of_split {cone done todo : List Nat} (hs : cone = done ++ todo) {k : Nat}
    (hk : k ∈ done) : place cone k < done.length + 1 := by
  unfold place
  split
  · exact Nat.succ_pos _
  · rw [hs, List.idxOf_append, if_pos hk]
    exact Nat.succ_lt_succ (List.idxOf_lt_length_of_mem hk)

theorem place_inj {cone : List Nat} {j k : Nat} (hj : j ∈ cone) (h : place cone j = place cone k) :
    j = k := by
  unfold place at h
  split at h
  · split at h
    · omega
    · omega
  · split at h
    · omega
    · exact (List.idxOf_inj hj).mp (Nat.succ.inj h)

/-- An ascending list is nowhere behind its positions. -/
theorem le_getElem_of_pairwise {l : List Nat} (hl : l.Pairwise (· < ·)) {i : Nat}
    (hi : i < l.length) : i ≤ l[i] := by
  induction i with
  | zero => exact Nat.zero_le _
  | succ i ih =>
    have hlt : l[i] < l[i + 1] :=
      List.pairwise_iff_getElem.mp hl i (i + 1) (by omega) hi (Nat.lt_succ_self i)
    exact Nat.lt_of_le_of_lt (ih (by omega)) hlt

/-- No node moves up. -/
theorem place_le {cone : List Nat} (hs : (0 :: cone).Pairwise (· < ·)) {k : Nat}
    (hk : k = 0 ∨ k ∈ cone) : place cone k ≤ k := by
  rcases Decidable.em (k = 0) with rfl | h0
  · exact Nat.le_refl 0
  · have hi := List.idxOf_lt_length_of_mem (hk.resolve_left h0)
    have hle := le_getElem_of_pairwise hs (i := cone.idxOf k + 1) (Nat.succ_lt_succ hi)
    rwa [List.getElem_cons_succ, List.getElem_idxOf hi, ← place_of_ne_zero h0] at hle

/-- A renumbered edge leads to the place of its node. -/
theorem Edge.node_renumber {cone : List Nat} (hs : (0 :: cone).Pairwise (· < ·)) {a : Edge}
    (ha : a.node = 0 ∨ a.node ∈ cone) : (a.renumber cone).node = place cone a.node :=
  node_ofNode_of_lt (Nat.lt_of_le_of_lt (place_le hs ha) a.lt_limit) a.negated

theorem Edge.renumber_inj {cone : List Nat} (hs : (0 :: cone).Pairwise (· < ·)) {a b : Edge}
    (ha : a.node ∈ cone) (hb : b.node ∈ cone) (h : a.renumber cone = b.renumber cone) : a = b := by
  have hplace : place cone a.node = place cone b.node := by
    rw [← node_renumber hs (Or.inr ha), ← node_renumber hs (Or.inr hb), h]
  have hnegated : (a.renumber cone).negated = (b.renumber cone).negated := by rw [h]
  exact Edge.ext (place_inj ha hplace) hnegated

namespace Circuit

/-- A conjunction of two edges in order, to different nodes that are not
constant, is shared as it is. -/
theorem and_of_lt (c : Circuit) {a b : Edge} (ha : 0 < a.node) (hab : a.node < b.node) :
    c.and a b = c.share (.and a b) := by
  have hta := Edge.node_pos_iff.mp ha
  have htb := Edge.node_pos_iff.mp (Nat.lt_trans ha hab)
  have hne : a ≠ b := by
    rintro rfl
    exact Nat.lt_irrefl _ hab
  have hneg : a ≠ b.negate := by
    rintro rfl
    exact Nat.lt_irrefl _ hab
  have hlt : a < b := (Edge.lt_iff_of_node_ne (Nat.ne_of_lt hab)).mpr hab
  rw [and, if_neg (by simp [hta, htb, hneg]), if_neg (by simp [hta, hne]), if_neg htb.2,
    if_pos hlt]

/-- The node that a node of a cone is copied to. -/
def copied (c : Circuit) (cone : List Nat) (k : Nat) : Node :=
  (c.nodes[k]?.getD .bottom).renumber cone

theorem copied_of_input {c : Circuit} {cone : List Nat} {k atom : Nat}
    (h : c.nodes[k]? = some (.input atom)) : c.copied cone k = .input atom := by
  rw [copied, h]
  rfl

theorem copied_of_and {c : Circuit} {cone : List Nat} {k : Nat} {l r : Edge}
    (h : c.nodes[k]? = some (.and l r)) :
    c.copied cone k = .and (l.renumber cone) (r.renumber cone) := by
  rw [copied, h]
  rfl

variable {c : Circuit} {e : Edge}

/-- The nodes of a cone ascend from the constant. -/
theorem Canonical.pairwise_zero_cone (hc : c.Canonical) (e : Edge) :
    (0 :: c.cone e).Pairwise (· < ·) := by
  refine List.pairwise_cons.mpr ⟨fun k hk => ?_, c.pairwise_cone e⟩
  exact Nat.pos_of_ne_zero (hc.mem_cone_iff.mp hk).1

/-- The nodes of a cone have their places in order. -/
theorem Canonical.place_getElem (hc : c.Canonical) {i : Nat} (hi : i < (c.cone e).length) :
    place (c.cone e) (c.cone e)[i] = i + 1 := by
  have hne : (c.cone e)[i] ≠ 0 := fun h => hc.zero_notMem_cone e (h ▸ List.getElem_mem hi)
  rw [place_of_ne_zero hne, (c.nodup_cone e).idxOf_getElem]

/-- Different nodes of a cone are copied to different nodes. -/
theorem Canonical.copied_inj (hc : c.Canonical) (he : e.node < c.size) {j k : Nat}
    (hj : j ∈ c.cone e) (hk : k ∈ c.cone e)
    (h : c.copied (c.cone e) j = c.copied (c.cone e) k) : j = k := by
  rcases hc.cone_cases he hj with ⟨a, ha⟩ | ⟨l, r, hlr, hl, hr, -, -⟩
  · rcases hc.cone_cases he hk with ⟨b, hb⟩ | ⟨l', r', hlr', -⟩
    · rw [copied_of_input ha, copied_of_input hb] at h
      rw [Node.input.inj h] at ha
      exact hc.eq_of_getElem? ha hb
    · rw [copied_of_input ha, copied_of_and hlr'] at h
      exact Node.noConfusion h
  · have hs := hc.pairwise_zero_cone e
    rcases hc.cone_cases he hk with ⟨b, hb⟩ | ⟨l', r', hlr', hl₀, hr₀, -, -⟩
    · rw [copied_of_and hlr, copied_of_input hb] at h
      exact Node.noConfusion h
    · rw [copied_of_and hlr, copied_of_and hlr'] at h
      obtain ⟨hl', hr'⟩ := Node.and.inj h
      rw [Edge.renumber_inj hs hl hl₀ hl', Edge.renumber_inj hs hr hr₀ hr'] at hlr
      exact hc.eq_of_getElem? hlr hlr'

theorem Canonical.copied_ne_bottom (hc : c.Canonical) (he : e.node < c.size) {k : Nat}
    (hk : k ∈ c.cone e) : c.copied (c.cone e) k ≠ .bottom := by
  rcases hc.cone_cases he hk with ⟨a, ha⟩ | ⟨l, r, hlr, -⟩
  · rw [copied_of_input ha]
    exact fun h => Node.noConfusion h
  · rw [copied_of_and hlr]
    exact fun h => Node.noConfusion h

/-! ## Copying node by node -/

/-- Whether the nodes of a cone that come first have been copied, and no others. -/
structure Copied (c : Circuit) (e : Edge) (done : List Nat) (copy : Copy) : Prop where
  /-- The copy has the constant and then the nodes copied, in their order. -/
  nodes : copy.circuit.nodes.toList = .bottom :: done.map (c.copied (c.cone e))
  /-- Each node copied is known by its place. -/
  moved : ∀ k, k = 0 ∨ k ∈ done → copy.moved.find? k = some (.ofNode (place (c.cone e) k) false)
  /-- The copy is a circuit over the variables of the edge. -/
  built : Built (· ∈ c.atoms e) copy.circuit

namespace Copied

variable {done : List Nat} {copy : Copy}

theorem size_eq (h : Copied c e done copy) : copy.circuit.size = done.length + 1 := by
  have := congrArg List.length h.nodes
  simpa [size] using this

theorem relocate (h : Copied c e done copy) {a : Edge} (ha : a.node = 0 ∨ a.node ∈ done) :
    copy.relocate a = a.renumber (c.cone e) := by
  unfold Copy.relocate
  rw [h.moved _ ha]
  cases hn : a.negated with
  | false => simp [Edge.renumber, hn]
  | true => simp [Edge.renumber, hn]

/-- The next node of the cone is copied by sharing its renumbered form, which is
not in the copy yet. -/
theorem copyNode_eq (hc : c.Canonical) (he : e.node < c.size) (h : Copied c e done copy)
    {k : Nat} {todo : List Nat} (hs : c.cone e = done ++ k :: todo) :
    c.copyNode copy k =
      { circuit := (copy.circuit.share (c.copied (c.cone e) k)).2
        moved := copy.moved.insert k (copy.circuit.share (c.copied (c.cone e) k)).1 } ∧
      Built (· ∈ c.atoms e) (copy.circuit.share (c.copied (c.cone e) k)).2 := by
  have hk : k ∈ c.cone e := by simp [hs]
  have hsorted := c.pairwise_cone e
  rcases hc.cone_cases he hk with ⟨atom, hnode⟩ | ⟨l, r, hnode, hl, hr, hlr, hrk⟩
  · rw [copied_of_input hnode]
    refine ⟨by simp only [copyNode, hnode, input], ?_⟩
    exact h.built.input (mem_atoms_iff.mpr ⟨k, hk, hnode⟩)
  · -- both conjuncts come before the node, so they have been copied
    have hl' := mem_of_split hsorted hs hl (Nat.lt_trans hlr hrk)
    have hr' := mem_of_split hsorted hs hr hrk
    have hpos : 0 < l.node := (hc.ordered hnode).1
    have hlt : place (c.cone e) l.node < place (c.cone e) r.node :=
      place_lt_place hsorted hl hr hpos hlr
    have hpos' : 0 < place (c.cone e) l.node := by
      rw [place_of_ne_zero (Nat.ne_of_gt hpos)]
      exact Nat.succ_pos _
    have hl₀ := Edge.node_renumber (hc.pairwise_zero_cone e) (Or.inr hl)
    have hr₀ := Edge.node_renumber (hc.pairwise_zero_cone e) (Or.inr hr)
    have hand : copy.circuit.and (l.renumber (c.cone e)) (r.renumber (c.cone e)) =
        copy.circuit.share (.and (l.renumber (c.cone e)) (r.renumber (c.cone e))) :=
      and_of_lt _ (by rw [hl₀]; exact hpos') (by rw [hl₀, hr₀]; exact hlt)
    rw [copied_of_and hnode, ← hand]
    refine ⟨?_, ?_⟩
    · simp only [copyNode, hnode, h.relocate (Or.inr hl'), h.relocate (Or.inr hr')]
    · refine h.built.and ?_ ?_
      · rw [hl₀, h.size_eq]
        exact place_lt_of_split hs hl'
      · rw [hr₀, h.size_eq]
        exact place_lt_of_split hs hr'

/-- Copying the next node of the cone. -/
theorem step (hc : c.Canonical) (he : e.node < c.size) (h : Copied c e done copy) {k : Nat}
    {todo : List Nat} (hs : c.cone e = done ++ k :: todo) :
    Copied c e (done ++ [k]) (c.copyNode copy k) := by
  have hk : k ∈ c.cone e := by simp [hs]
  have hsorted := c.pairwise_cone e
  obtain ⟨hcopy, hbuilt⟩ := h.copyNode_eq hc he hs
  have hnew : c.copied (c.cone e) k ∉ copy.circuit.nodes := by
    rw [← Array.mem_toList_iff, h.nodes, List.mem_cons, not_or]
    refine ⟨hc.copied_ne_bottom he hk, fun hmem => ?_⟩
    obtain ⟨j, hj, hjk⟩ := List.mem_map.mp hmem
    have hj' : j ∈ c.cone e := by simp [hs, hj]
    obtain rfl := hc.copied_inj he hj' hk hjk
    exact notMem_of_split hsorted hs hj
  have hplace : place (c.cone e) k = copy.circuit.size := by
    rw [place_of_ne_zero (hc.mem_cone_iff.mp hk).1, idxOf_of_split hsorted hs, h.size_eq]
  have hshare : copy.circuit.share (c.copied (c.cone e) k) =
      (.ofNode copy.circuit.size false, ⟨copy.circuit.nodes.push (c.copied (c.cone e) k)⟩) := by
    rcases share_cases copy.circuit (c.copied (c.cone e) k) with ⟨i, hi, -⟩ | ⟨-, hshare⟩
    · exact absurd (Array.mem_of_getElem? hi) hnew
    · exact hshare
  rw [hcopy, hshare]
  rw [hshare] at hbuilt
  refine ⟨?_, fun m hm => ?_, hbuilt⟩
  · rw [Array.toList_push, h.nodes, List.map_append, List.cons_append]
    rfl
  · rw [NatMap.find?_insert]
    split
    · rename_i hmk
      rw [hmk, hplace]
    · rename_i hmk
      refine h.moved m (hm.imp_right fun hm => ?_)
      exact (List.mem_append.mp hm).elim id fun hm => absurd (List.mem_singleton.mp hm) hmk

/-- Copying the rest of the cone. -/
theorem run (hc : c.Canonical) (he : e.node < c.size) (h : Copied c e done copy)
    {todo : List Nat} (hs : c.cone e = done ++ todo) :
    Copied c e (c.cone e) (todo.foldl c.copyNode copy) := by
  induction todo generalizing done copy with
  | nil =>
    rw [List.append_nil] at hs
    rw [List.foldl_nil, hs]
    exact h
  | cons k todo ih =>
    rw [List.foldl_cons]
    exact ih (h.step hc he hs) (by rw [hs, List.append_assoc]; rfl)

end Copied

theorem copied_start (c : Circuit) (e : Edge) : Copied c e [] {} where
  nodes := rfl
  moved k hk := by
    obtain rfl : k = 0 := hk.resolve_right (List.not_mem_nil)
    rfl
  built := .empty

/-- The whole copy. -/
theorem copied_foldl (hc : c.Canonical) (he : e.node < c.size) :
    Copied c e (c.cone e) ((c.cone e).foldl c.copyNode {}) :=
  (copied_start c e).run hc he rfl

/-- A constant edge apart, the node of an edge lies in its cone. -/
theorem Canonical.node_eq_zero_or_mem_cone (hc : c.Canonical) (e : Edge) :
    e.node = 0 ∨ e.node ∈ c.cone e :=
  (Decidable.em (e.node = 0)).imp_right hc.mem_cone_self

/-- **The copy is the cone, renumbered.** -/
theorem extract_eq (hc : c.Canonical) (he : e.node < c.size) :
    (c.extract e).1 = e.renumber (c.cone e) ∧
      (c.extract e).2.nodes.toList = .bottom :: (c.cone e).map (c.copied (c.cone e)) :=
  ⟨(copied_foldl hc he).relocate (hc.node_eq_zero_or_mem_cone e), (copied_foldl hc he).nodes⟩

/-- **The copy is a circuit over the variables of the edge.** -/
theorem built_extract (hc : c.Canonical) (he : e.node < c.size) :
    Built (· ∈ c.atoms e) (c.extract e).2 :=
  (copied_foldl hc he).built

theorem size_extract (hc : c.Canonical) (he : e.node < c.size) :
    (c.extract e).2.size = (c.cone e).length + 1 :=
  (copied_foldl hc he).size_eq

theorem lt_size_extract (hc : c.Canonical) (he : e.node < c.size) :
    (c.extract e).1.node < (c.extract e).2.size := by
  rw [(extract_eq hc he).1, size_extract hc he]
  refine Nat.lt_of_le_of_lt (Edge.node_ofNode_le _ _) ?_
  rcases hc.node_eq_zero_or_mem_cone e with h | h
  · rw [h]
    exact Nat.succ_pos _
  · exact place_lt_of_split (List.append_nil _).symm h

/-- A node of the cone is found in the copy at its place. -/
theorem getElem?_extract (hc : c.Canonical) (he : e.node < c.size) {k : Nat}
    (hk : k ∈ c.cone e) :
    (c.extract e).2.nodes[place (c.cone e) k]? = some (c.copied (c.cone e) k) := by
  rw [← Array.getElem?_toList, (extract_eq hc he).2,
    place_of_ne_zero (hc.mem_cone_iff.mp hk).1, List.getElem?_cons_succ, List.getElem?_map,
    List.getElem?_idxOf hk]
  rfl

/-! ## What the copy means -/

theorem valueAt_extract (hc : c.Canonical) (he : e.node < c.size) (v : Nat → Bool) :
    ∀ k ∈ c.cone e, (c.extract e).2.valueAt v (place (c.cone e) k) = c.valueAt v k := by
  intro k
  -- a copied conjunction joins the copies of its conjuncts
  induction k using Nat.strongRecOn with
  | ind k ih =>
    intro hk
    have hnode := getElem?_extract hc he hk
    rcases hc.cone_cases he hk with ⟨atom, h⟩ | ⟨l, r, h, hl, hr, hlr, hrk⟩
    · rw [copied_of_input h] at hnode
      rw [valueAt_input hnode, valueAt_input h]
    · rw [copied_of_and h] at hnode
      rw [(built_extract hc he).canonical.valueAt_and hnode, hc.valueAt_and h]
      have hs := hc.pairwise_zero_cone e
      rw [evaluate_eq, evaluate_eq, Edge.node_renumber hs (Or.inr hl),
        Edge.node_renumber hs (Or.inr hr), ih l.node (Nat.lt_trans hlr hrk) hl, ih r.node hrk hr]
      rfl

/-- **The edge returned has the value of the edge copied.** -/
theorem evaluate_extract (hc : c.Canonical) (he : e.node < c.size) (v : Nat → Bool) :
    (c.extract e).2.evaluate (c.extract e).1 v = c.evaluate e v := by
  have hnode := Edge.node_renumber (hc.pairwise_zero_cone e) (hc.node_eq_zero_or_mem_cone e)
  rw [(extract_eq hc he).1, evaluate_eq, evaluate_eq, hnode, Edge.renumber, Edge.negated_ofNode]
  rcases hc.node_eq_zero_or_mem_cone e with h | h
  · rw [h, place_zero, hc.valueAt_zero, (built_extract hc he).canonical.valueAt_zero]
  · rw [valueAt_extract hc he v _ h]

/-- Whatever is reached in the cone is reached in the copy. -/
theorem reaches_extract (hc : c.Canonical) (he : e.node < c.size) {j k : Nat}
    (h : Reaches c.children j k) (hj : j ∈ c.cone e) :
    Reaches (c.extract e).2.children (place (c.cone e) j) (place (c.cone e) k) := by
  induction h with
  | refl => exact .refl _
  | @step j m k hm _ ih =>
    refine .step ?_ (ih (hc.mem_cone_of_mem_children hj hm))
    obtain ⟨l, r, hlr, hmlr⟩ := mem_children_iff.mp hm
    have hnode := getElem?_extract hc he hj
    rw [copied_of_and hlr] at hnode
    have hplace : ∀ a : Edge, m = a.node → place (c.cone e) m = (a.renumber (c.cone e)).node := by
      rintro a rfl
      have hmem := hc.mem_cone_of_mem_children hj hm
      exact (Edge.node_renumber (hc.pairwise_zero_cone e) (Or.inr hmem)).symm
    exact mem_children_iff.mpr ⟨_, _, hnode, hmlr.imp (hplace l) (hplace r)⟩

/-- **Nothing is in the copy that its edge does not reach.** -/
theorem mem_cone_extract (hc : c.Canonical) (he : e.node < c.size) {i : Nat} (h0 : i ≠ 0)
    (hi : i < (c.extract e).2.size) : i ∈ (c.extract e).2.cone (c.extract e).1 := by
  obtain ⟨i, rfl⟩ : ∃ j, i = j + 1 := ⟨i - 1, by omega⟩
  have hlt : i < (c.cone e).length := by
    rw [size_extract hc he] at hi
    exact Nat.lt_of_succ_lt_succ hi
  have hmem : (c.cone e)[i] ∈ c.cone e := List.getElem_mem hlt
  have hreach := (hc.mem_cone_iff.mp hmem).2
  have hnode := Edge.node_renumber (hc.pairwise_zero_cone e) (hc.node_eq_zero_or_mem_cone e)
  rw [(built_extract hc he).canonical.mem_cone_iff, (extract_eq hc he).1, hnode]
  refine ⟨h0, ?_⟩
  rw [← hc.place_getElem hlt]
  rcases hc.node_eq_zero_or_mem_cone e with h | h
  · have := hreach.le hc.descends
    exact absurd (hc.mem_cone_iff.mp hmem).1 (by omega)
  · exact reaches_extract hc he hreach h

end Circuit
end Interpolation
