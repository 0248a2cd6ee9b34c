import Mathlib.Data.List.Sort
import Interpolation.Proofs.CircuitCalls

/-!
# What is cut out of a circuit

Cutting a circuit down to an edge makes a copy of the cone by calls on an empty circuit, and such
calls fold and share.  Here they do neither: the copy has one node for each node of the cone, in
the same order, and the conjunctions join the same nodes under their new numbers
(`CopiesCone`).  The numbering is the only one that ascends.

Since nothing is in the copy that its edge does not reach, there is nothing left to cut: a
circuit all of whose nodes are reached is its own copy (`Canonical.extract_of_reached`), and so
cutting twice is cutting once.

* `Canonical.map_place_cone` --- the new numbers;
* `Canonical.atoms_extract` --- the copy has the variables of the edge;
* `extract_copiesCone` --- the copy is exact.
-/

namespace Interpolation

namespace Circuit

/-- Whether one circuit with an edge copies what an edge of another depends on. -/
structure CopiesCone (c : Circuit) (e : Edge) (d : Circuit) (o : Edge) : Prop where
  /-- There is one node for each node of the cone, and the constant. -/
  size : d.size = (c.cone e).length + 1
  /-- The nodes of the cone ascend from the constant. -/
  ascending : (0 :: c.cone e).Pairwise (· < ·)
  /-- Their new numbers are the positions of the copy, in order. -/
  places : (0 :: c.cone e).map (place (c.cone e)) = List.range d.size
  /-- The first node is the constant. -/
  bottom : d.nodes[0]? = some .bottom
  /-- The others are the nodes of the cone, with everything they refer to renumbered. -/
  node : ∀ i k : Nat, (c.cone e)[i]? = some k → ∃ node, c.nodes[k]? = some node ∧
    node ≠ .bottom ∧ (∀ m ∈ node.children, m ∈ c.cone e) ∧
    d.nodes[i + 1]? = some (node.renumber (c.cone e))
  /-- The edge leads to the new number of its node. -/
  output : o.node = place (c.cone e) e.node
  /-- The edge keeps its sign. -/
  negated : o.negated = e.negated
  /-- It has the value it had. -/
  evaluate : ∀ v, d.evaluate o v = c.evaluate e v
  /-- It depends on the variables it did. -/
  atoms : d.atoms o = c.atoms e
  /-- It reaches every node but the constant. -/
  reached : ∀ i, 0 < i → i < d.size → Reaches d.children o.node i
  /-- The copy of the copy is the copy. -/
  again : d.extract o = (o, d)

variable {c : Circuit} {e : Edge}

namespace Canonical

/-- The new numbers of a cone are all positions of the copy, in order. -/
theorem map_place_cone (hc : c.Canonical) (e : Edge) :
    (0 :: c.cone e).map (place (c.cone e)) = List.range ((c.cone e).length + 1) := by
  refine List.ext_getElem (by simp) fun i hi _ => ?_
  rw [List.getElem_map, List.getElem_range]
  cases i with
  | zero => rfl
  | succ i => exact hc.place_getElem _

/-- The copy has the nodes of the cone in order, renumbered. -/
theorem exists_getElem?_extract (hc : c.Canonical) (he : e.node < c.size) {i k : Nat}
    (hk : (c.cone e)[i]? = some k) :
    ∃ node, c.nodes[k]? = some node ∧ node ≠ .bottom ∧ (∀ m ∈ node.children, m ∈ c.cone e) ∧
      (c.extract e).2.nodes[i + 1]? = some (node.renumber (c.cone e)) := by
  obtain ⟨hi, rfl⟩ := List.getElem?_eq_some_iff.mp hk
  have hmem : (c.cone e)[i] ∈ c.cone e := List.getElem_mem hi
  have hcopied := getElem?_extract hc he hmem
  rw [hc.place_getElem hi] at hcopied
  have hne := hc.copied_ne_bottom he hmem
  have hlt : (c.cone e)[i] < c.nodes.size := Nat.lt_of_le_of_lt (hc.le_of_mem_cone hmem) he
  have hnode : c.nodes[(c.cone e)[i]]? = some c.nodes[(c.cone e)[i]] :=
    Array.getElem?_eq_getElem hlt
  rw [copied, hnode, Option.getD_some] at hcopied hne
  refine ⟨_, hnode, fun hbottom => hne (by rw [hbottom]; rfl), fun m hm => ?_, hcopied⟩
  refine hc.mem_cone_of_mem_children hmem ?_
  rw [children, hnode]
  exact hm

/-- The copy has the variables of the edge. -/
theorem atoms_extract (hc : c.Canonical) (he : e.node < c.size) :
    (c.extract e).2.atoms (c.extract e).1 = c.atoms e := by
  refine (NatMap.pairwise_ascendingOf _).eq_of_mem_iff (NatMap.pairwise_ascendingOf _)
    fun atom => ?_
  constructor
  · intro hatom
    obtain ⟨i, -, hi⟩ := mem_atoms_iff.mp hatom
    exact (built_extract hc he).over hi
  · intro hatom
    obtain ⟨k, hk, hnode⟩ := mem_atoms_iff.mp hatom
    have hcopied := getElem?_extract hc he hk
    rw [copied_of_input hnode] at hcopied
    have hpos : place (c.cone e) k ≠ 0 := by
      rw [place_of_ne_zero (hc.mem_cone_iff.mp hk).1]
      omega
    exact mem_atoms_iff.mpr
      ⟨_, mem_cone_extract hc he hpos (lt_size_of_getElem? hcopied), hcopied⟩

/-! ## Circuits without other nodes -/

section

variable (hc : c.Canonical) (he : e.node < c.size)
  (hall : ∀ {k}, k ≠ 0 → k < c.size → k ∈ c.cone e)

include hc he hall

/-- Where all nodes are reached, the cone is all of them. -/
theorem cone_of_reached : c.cone e = List.range' 1 (c.size - 1) := by
  have hpos := hc.size_pos
  refine (c.pairwise_cone e).eq_of_mem_iff List.pairwise_lt_range' fun k => ?_
  rw [List.mem_range'_1]
  constructor
  · intro hk
    have hne := (hc.mem_cone_iff.mp hk).1
    have hle := hc.le_of_mem_cone hk
    omega
  · rintro ⟨hk, hlt⟩
    exact hall (by omega) (by omega)

/-- Then the nodes keep their numbers. -/
theorem place_of_reached {k : Nat} (hk : k < c.size) : place (c.cone e) k = k := by
  cases k with
  | zero => rfl
  | succ i =>
    have hcone := hc.cone_of_reached he hall
    have hi : i < (c.cone e).length := by
      rw [hcone, List.length_range']
      omega
    have hget : (c.cone e)[i] = i + 1 := by
      simp only [hcone, List.getElem_range']
      omega
    have hplace := hc.place_getElem hi
    rwa [hget] at hplace

theorem renumber_of_reached {a : Edge} (ha : a.node < c.size) :
    a.renumber (c.cone e) = a := by
  rw [Edge.renumber, hc.place_of_reached he hall ha, a.ofNode_node]

/-- Then each node is copied as it is. -/
theorem copied_of_reached {k : Nat} (hk : k ∈ c.cone e) :
    c.nodes[k]? = some (c.copied (c.cone e) k) := by
  rcases hc.cone_cases he hk with ⟨atom, hnode⟩ | ⟨l, r, hnode, hl, hr, -⟩
  · rw [copied_of_input hnode, hnode]
  · have hlt : ∀ {m}, m ∈ c.cone e → m < c.size := fun hm =>
      Nat.lt_of_le_of_lt (hc.le_of_mem_cone hm) he
    rw [copied_of_and hnode, hc.renumber_of_reached he hall (hlt hl),
      hc.renumber_of_reached he hall (hlt hr), hnode]

/-- **A circuit all of whose nodes are reached is its own copy.** -/
theorem extract_of_reached : c.extract e = (e, c) := by
  have hsize : (c.extract e).2.size = c.size := by
    have hpos := hc.size_pos
    rw [size_extract hc he, hc.cone_of_reached he hall, List.length_range']
    omega
  have hnodes : ∀ k : Nat, (c.extract e).2.nodes[k]? = c.nodes[k]? := by
    intro k
    by_cases hk : k < c.size
    · by_cases h0 : k = 0
      · rw [h0, (built_extract hc he).canonical.bottom, hc.bottom]
      · have hmem := hall h0 hk
        have hcopied := getElem?_extract hc he hmem
        rw [hc.place_of_reached he hall hk] at hcopied
        rw [hcopied, ← hc.copied_of_reached he hall hmem]
    · have hle : (c.extract e).2.nodes.size ≤ k := by
        rw [show (c.extract e).2.nodes.size = c.size from hsize]
        exact Nat.not_lt.mp hk
      rw [Array.getElem?_eq_none (Nat.not_lt.mp hk), Array.getElem?_eq_none hle]
  have hcircuit : (c.extract e).2.nodes = c.nodes := Array.ext_getElem? hnodes
  refine Prod.ext ?_ ?_
  · rw [(extract_eq hc he).1]
    exact hc.renumber_of_reached he hall he
  · cases hd : (c.extract e).2
    rw [hd] at hcircuit
    cases hcircuit
    rfl

end

end Canonical

variable {vocabulary : Nat → Prop}

/-- **What is cut out of a circuit is an exact copy.** -/
theorem extract_copiesCone (h : c.Made vocabulary) (he : e.node < c.size) :
    c.CopiesCone e (c.extract e).2 (c.extract e).1 := by
  have hc := h.canonical
  have hd := (built_extract hc he).canonical
  obtain ⟨houtput, -⟩ := extract_eq hc he
  have hascending := hc.pairwise_zero_cone e
  refine ⟨size_extract hc he, hascending, ?_, hd.bottom, fun i k => hc.exists_getElem?_extract he,
    ?_, ?_, evaluate_extract hc he, hc.atoms_extract he, fun i h0 hi => ?_, ?_⟩
  · rw [size_extract hc he]
    exact hc.map_place_cone e
  · rw [houtput]
    exact Edge.node_renumber hascending (hc.node_eq_zero_or_mem_cone e)
  · rw [houtput]
    rfl
  · exact (hd.mem_cone_iff.mp (mem_cone_extract hc he (Nat.ne_of_gt h0) hi)).2
  · exact hd.extract_of_reached (lt_size_extract hc he) fun h0 hi => mem_cone_extract hc he h0 hi

/-- The circuit of `(1 ∧ ¬2) ∨ 3`, with the conjunction of 1 and 3 made besides. -/
def cluttered : Circuit :=
  [.input 1, .input 2, .input 3, .and (.ofNode 1 false) (.ofNode 3 false),
    .and (.ofNode 1 false) (.ofNode 2 true), .or (.ofNode 5 false) (.ofNode 3 false)].foldl
      (fun c call => (c.perform call).2) {}

theorem made_cluttered : cluttered.Made (· ≠ 0) :=
  .perform (.perform (.perform (.perform (.perform (.perform .empty (by decide) (by decide))
    (by decide) (by decide)) (by decide) (by decide)) (by decide) (by decide)) (by decide)
    (by decide)) (by decide) (by decide)

/-- The conjunction that was made besides is left out, and what comes after it moves up. -/
theorem extract_copiesCone_cluttered :
    cluttered.Made (· ≠ 0) ∧ 6 < cluttered.size ∧
      cluttered.extract (.ofNode 6 false) = (.ofNode 5 false,
        ⟨#[.bottom, .input 1, .input 2, .input 3, .and (.ofNode 1 false) (.ofNode 2 true),
          .and (.ofNode 3 true) (.ofNode 4 true)]⟩) ∧
      cluttered.CopiesCone (.ofNode 6 false) (cluttered.extract (.ofNode 6 false)).2
        (cluttered.extract (.ofNode 6 false)).1 :=
  ⟨made_cluttered, by decide, by decide, extract_copiesCone made_cluttered (by decide)⟩

end Circuit
end Interpolation
