import Mathlib.Data.List.Sort
import Interpolation.Proofs.Extraction

/-!
# Reading a circuit with every index checked

The readings of a circuit look nodes up by their positions, and each has an answer
ready for a position at which there is nothing.  That answer is never wanted.  To say
so, the readings are written here a second time, as loops over a stack and over tables
of known length, and each of them gives up as soon as it comes to an index that lies
outside of what it indexes, or to a node that it expected to have been copied and was
not.

* The *search* keeps a stack and marks what it has seen.  A node may stand on the stack
  several times over; it is marked once, and the search ends because each round either
  marks a node or shortens the stack.
* The *evaluation* fills a table with the values of the cone alone, from small nodes to
  great ones.
* The *extraction* copies the cone and asks, for each edge of a conjunction, where its
  node has gone.

On an edge of a canonical circuit none of them gives up, and each returns what the
plain reading returns (`Canonical.readable`).  So the plain readings never need their
answers for nothing, and the order in which a search meets the nodes has no say.

* `Searching.exists_search?` --- a search under its invariant ends with the cone;
* `exists_foldlM_of_split` --- a loop over a list, from what each of its rounds keeps;
* `Canonical.readable` --- every index is good.
-/

namespace Interpolation

namespace Edge

/-- The value of an edge, if its node has one. -/
def value? (e : Edge) (values : List Bool) : Option Bool := values[e.node]?.map (· ^^ e.negated)

end Edge

/-- The value of a node, if the nodes it refers to have theirs. -/
def Node.value? (v : Nat → Bool) (values : List Bool) : Node → Option Bool
  | bottom => some false
  | input atom => some (v atom)
  | and left right => do
    let l ← left.value? values
    let r ← right.value? values
    some (l && r)

/-- A table with one of its entries replaced, if it has such an entry. -/
def replace? (values : List Bool) (i : Nat) (value : Bool) : Option (List Bool) :=
  if i < values.length then some (values.set i value) else none

theorem count_set_lt {seen : List Bool} {k : Nat} (h : seen[k]? = some false) :
    (seen.set k true).count false < seen.count false := by
  obtain ⟨hlt, hget⟩ := List.getElem?_eq_some_iff.mp h
  have hpos : 0 < seen.count false := List.count_pos_iff.mpr (hget ▸ List.getElem_mem hlt)
  rw [List.count_set hlt, hget]
  show seen.count false - 1 + 0 < seen.count false
  omega

/-! ## What searches have in common -/

/-- What is closed under reference holds with a place all that the place reaches. -/
theorem Reaches.mem_of_closed {below : Nat → List Nat} {found : List Nat}
    (hclosed : ∀ k ∈ found, ∀ m ∈ below k, m ∈ found) {j k : Nat} (h : Reaches below j k)
    (hj : j ∈ found) : k ∈ found := by
  induction h with
  | refl => exact hj
  | step hm _ ih => exact ih (hclosed _ hj _ hm)

/-- Finding what is on top of the stack loses nothing, whatever goes on the stack for it. -/
theorem mem_concat_or_mem_append {found stack pushed : List Nat} {k m : Nat}
    (h : m ∈ found ∨ m ∈ k :: stack) : m ∈ found ++ [k] ∨ m ∈ pushed ++ stack := by
  rcases h with hfound | hstack
  · exact Or.inl (List.mem_append_left _ hfound)
  · rcases List.mem_cons.mp hstack with rfl | hstack
    · exact Or.inl (List.mem_append_right _ List.mem_cons_self)
    · exact Or.inr (List.mem_append_right _ hstack)

/-- Nothing is found twice if what is found was not before. -/
theorem nodup_concat {found : List Nat} {k : Nat} (h : found.Nodup) (hk : k ∉ found) :
    (found ++ [k]).Nodup := by
  refine List.nodup_append.mpr ⟨h, List.nodup_singleton k, fun a ha b hb => ?_⟩
  rintro rfl
  exact hk (List.mem_singleton.mp hb ▸ ha)

/-- What has been found in any order is put in order by sorting. -/
theorem mergeSort_eq {found l : List Nat} (hfound : found.Nodup) (hl : l.Pairwise (· < ·))
    (hmem : ∀ k, k ∈ found ↔ k ∈ l) : found.mergeSort = l := by
  have hnodup : l.Nodup := hl.imp Nat.ne_of_lt
  have hperm : (found.mergeSort).Perm l :=
    (List.mergeSort_perm found _).trans ((List.perm_ext_iff_of_nodup hfound hnodup).mpr hmem)
  have hsorted : (found.mergeSort).Pairwise (· ≤ ·) := List.sortedLE_mergeSort.pairwise
  exact hperm.eq_of_pairwise (fun a b _ _ => Nat.le_antisymm) hsorted (hl.imp Nat.le_of_lt)

namespace Circuit

/-! ## The readings -/

/-- Searches on from a stack, where some nodes have been seen and found.  The constant is
passed over. -/
def search? (c : Circuit) (seen : List Bool) (stack found : List Nat) : Option (List Nat) :=
  match stack with
  | [] => some found
  | k :: stack =>
    if k = 0 then c.search? seen stack found
    else
      match _h : seen[k]? with
      | none => none
      | some true => c.search? seen stack found
      | some false =>
        match c.nodes[k]? with
        | none => none
        | some node => c.search? (seen.set k true) (node.children.reverse ++ stack) (found ++ [k])
termination_by (seen.count false, stack.length)
decreasing_by
  · exact Prod.Lex.right _ (Nat.lt_succ_self _)
  · exact Prod.Lex.right _ (Nat.lt_succ_self _)
  · exact Prod.Lex.left _ _ (count_set_lt _h)

/-- The cone of an edge, by searching. -/
def cone? (c : Circuit) (e : Edge) : Option (List Nat) :=
  (c.search? (List.replicate c.size false) [e.node] []).map (·.mergeSort)

/-- The variables an edge depends on, by looking at each node of the cone. -/
def atoms? (c : Circuit) (e : Edge) : Option (List Nat) := do
  let nodes ← (← c.cone? e).mapM fun k => c.nodes[k]?
  some (NatMap.ascendingOf (nodes.filterMap Node.atom?))

/-- Enters the value of a node into the table. -/
def enterValue? (c : Circuit) (v : Nat → Bool) (values : List Bool) (k : Nat) :
    Option (List Bool) := do
  let node ← c.nodes[k]?
  let value ← node.value? v values
  replace? values k value

/-- The value of an edge, from the values of its cone. -/
def evaluate? (c : Circuit) (e : Edge) (v : Nat → Bool) : Option Bool := do
  let values ← (← c.cone? e).foldlM (c.enterValue? v) (List.replicate (e.node + 1) false)
  e.value? values

/-- The counterpart of an edge in the copy, if its node has been copied. -/
def Copy.relocate? (copy : Copy) (e : Edge) : Option Edge :=
  (copy.moved.find? e.node).map fun base => if e.negated then base.negate else base

/-- Copies the node at one position, if what it refers to has been copied. -/
def copyNode? (c : Circuit) (copy : Copy) (k : Nat) : Option Copy := do
  let node ← c.nodes[k]?
  let (edge, circuit) ← match node with
    | .bottom => some (.bottom, copy.circuit)
    | .input atom => some (copy.circuit.input atom)
    | .and left right => do
      let l ← copy.relocate? left
      let r ← copy.relocate? right
      some (copy.circuit.and l r)
  some { circuit, moved := copy.moved.insert k edge }

/-- The counterpart of an edge in a circuit made of its cone alone, and that circuit. -/
def extract? (c : Circuit) (e : Edge) : Option (Edge × Circuit) := do
  let copy ← (← c.cone? e).foldlM c.copyNode? {}
  let output ← copy.relocate? e
  some (output, copy.circuit)

/-! ## Searching -/

/-- Whether a search is on its way to the cone of an edge. -/
structure Searching (c : Circuit) (e : Edge) (seen : List Bool) (stack found : List Nat) :
    Prop where
  /-- There is a mark for each node. -/
  length : seen.length = c.size
  /-- What is marked has been found. -/
  marked : ∀ k : Nat, seen[k]? = some true ↔ k ∈ found
  /-- Nothing is found twice. -/
  nodup : found.Nodup
  /-- What is found belongs to the cone. -/
  sound : ∀ k ∈ found, k ∈ c.cone e
  /-- So does what is on the stack, unless it is the constant. -/
  waiting : ∀ k ∈ stack, k = 0 ∨ k ∈ c.cone e
  /-- The search began with the node of the edge. -/
  start : e.node = 0 ∨ e.node ∈ found ∨ e.node ∈ stack
  /-- What a node found refers to is found or on the stack. -/
  closed : ∀ k ∈ found, ∀ m ∈ c.children k, m ∈ found ∨ m ∈ stack

namespace Searching

variable {c : Circuit} {e : Edge} {seen : List Bool} {stack found : List Nat} {k : Nat}

theorem initial (hc : c.Canonical) (e : Edge) :
    Searching c e (List.replicate c.size false) [e.node] [] where
  length := List.length_replicate
  marked k := by simp [List.getElem?_replicate]
  nodup := List.nodup_nil
  sound _ hk := absurd hk List.not_mem_nil
  waiting k hk := by
    obtain rfl := List.mem_singleton.mp hk
    exact hc.node_eq_zero_or_mem_cone e
  start := Or.inr (Or.inr List.mem_cons_self)
  closed _ hk := absurd hk List.not_mem_nil

/-- Passing over the constant or a node that was found before. -/
theorem pass (h : Searching c e seen (k :: stack) found) (hc : c.Canonical)
    (hk : k = 0 ∨ k ∈ found) : Searching c e seen stack found := by
  have hkeep : ∀ {m}, m ∈ found ∨ m ∈ k :: stack → m = 0 ∨ m ∈ found ∨ m ∈ stack := by
    rintro m (hfound | hstack)
    · exact Or.inr (Or.inl hfound)
    · rcases List.mem_cons.mp hstack with rfl | hstack
      · exact hk.imp_right Or.inl
      · exact Or.inr (Or.inr hstack)
  refine { h with
    waiting := fun m hm => h.waiting m (List.mem_cons_of_mem k hm)
    start := h.start.elim Or.inl hkeep
    closed := fun j hj m hm => ?_ }
  -- no node refers to the constant
  have hpos := hc.pos_of_mem_children hm
  exact (hkeep (h.closed j hj m hm)).resolve_left (Nat.ne_of_gt hpos)

/-- Finding a node. -/
theorem visit (h : Searching c e seen (k :: stack) found) (hc : c.Canonical) (h0 : k ≠ 0)
    (hseen : seen[k]? = some false) {node : Node} (hnode : c.nodes[k]? = some node) :
    Searching c e (seen.set k true) (node.children.reverse ++ stack) (found ++ [k]) := by
  have hkc : k ∈ c.cone e := (h.waiting k List.mem_cons_self).resolve_left h0
  have hchildren : c.children k = node.children := by rw [children, hnode]
  have hlt : k < seen.length := (List.getElem?_eq_some_iff.mp hseen).1
  have hnew : k ∉ found := by
    intro hk
    rw [(h.marked k).mpr hk] at hseen
    exact absurd hseen (by simp)
  refine ⟨?_, fun m => ?_, nodup_concat h.nodup hnew, fun m hm => ?_, fun m hm => ?_,
    h.start.imp_right mem_concat_or_mem_append, fun j hj m hm => ?_⟩
  · rw [List.length_set]
    exact h.length
  · rw [List.getElem?_set, if_pos hlt, List.mem_append, List.mem_singleton, ← h.marked m]
    split
    · rename_i hkm
      simp [hkm]
    · rename_i hkm
      simp [Ne.symm hkm]
  · rcases List.mem_append.mp hm with hm | hm
    · exact h.sound m hm
    · exact List.mem_singleton.mp hm ▸ hkc
  · rcases List.mem_append.mp hm with hm | hm
    · rw [List.mem_reverse, ← hchildren] at hm
      exact Or.inr (hc.mem_cone_of_mem_children hkc hm)
    · exact h.waiting m (List.mem_cons_of_mem k hm)
  · rcases List.mem_append.mp hj with hj | hj
    · exact mem_concat_or_mem_append (h.closed j hj m hm)
    · rw [List.mem_singleton.mp hj, hchildren] at hm
      exact Or.inr (List.mem_append_left _ (List.mem_reverse.mpr hm))

/-- When the stack is empty all that is reached has been found. -/
theorem mem_iff (h : Searching c e seen [] found) (hc : c.Canonical) :
    k ∈ found ↔ k ∈ c.cone e := by
  refine ⟨h.sound k, fun hk => ?_⟩
  obtain ⟨h0, hreach⟩ := hc.mem_cone_iff.mp hk
  rcases h.start with hz | hfound | hstack
  · have := hreach.le hc.descends
    omega
  · exact hreach.mem_of_closed
      (fun j hj m hm => (h.closed j hj m hm).resolve_right List.not_mem_nil) hfound
  · exact absurd hstack List.not_mem_nil

/-- **A search finds the cone.** -/
theorem exists_search? (h : Searching c e seen stack found) (hc : c.Canonical)
    (he : e.node < c.size) :
    ∃ l, c.search? seen stack found = some l ∧ l.Nodup ∧ ∀ k, k ∈ l ↔ k ∈ c.cone e := by
  have hlt : ∀ {k}, k ∈ c.cone e → k < c.size := fun hk =>
    Nat.lt_of_le_of_lt (hc.le_of_mem_cone hk) he
  fun_induction search? c seen stack found with
  | case1 seen found => exact ⟨found, rfl, h.nodup, fun k => h.mem_iff hc⟩
  | case2 seen found stack ih => exact ih (h.pass hc (Or.inl rfl))
  | case3 seen found k stack h0 hseen =>
    have hk := hlt ((h.waiting k List.mem_cons_self).resolve_left h0)
    rw [← h.length] at hk
    exact absurd hseen (by simp [List.getElem?_eq_getElem hk])
  | case4 seen found k stack h0 hseen ih => exact ih (h.pass hc (Or.inr ((h.marked k).mp hseen)))
  | case5 seen found k stack h0 hseen hnode =>
    have hk := hlt ((h.waiting k List.mem_cons_self).resolve_left h0)
    exact absurd hnode (by simp [Array.getElem?_eq_getElem hk])
  | case6 seen found k stack h0 hseen node hnode ih => exact ih (h.visit hc h0 hseen hnode)

end Searching

variable {c : Circuit} {e : Edge}

/-- The cone is what a search finds, put in order. -/
theorem Canonical.cone?_eq (hc : c.Canonical) (he : e.node < c.size) :
    c.cone? e = some (c.cone e) := by
  obtain ⟨l, hl, hnodup, hmem⟩ := (Searching.initial hc e).exists_search? hc he
  rw [cone?, hl, Option.map_some, mergeSort_eq hnodup (c.pairwise_cone e) hmem]

/-! ## Loops over a cone -/

/-- **A loop over a list runs through,** if each of its rounds does and keeps what the
rounds before it have kept. -/
theorem exists_foldlM_of_split {α σ : Type} {f : σ → α → Option σ} {P : List α → σ → Prop}
    {l : List α}
    (hstep : ∀ {done : List α} {a : α} {todo : List α} {s : σ}, l = done ++ a :: todo →
      P done s → ∃ t, f s a = some t ∧ P (done ++ [a]) t)
    {done todo : List α} {s : σ} (hsplit : l = done ++ todo) (h : P done s) :
    ∃ t, todo.foldlM f s = some t ∧ P l t := by
  induction todo generalizing done s with
  | nil =>
    rw [List.append_nil] at hsplit
    exact ⟨s, rfl, hsplit ▸ h⟩
  | cons a todo ih =>
    obtain ⟨t, ht, hkept⟩ := hstep hsplit h
    rw [List.foldlM_cons, ht]
    exact ih (by rw [hsplit, List.append_assoc]; rfl) hkept

/-- Whether the table of an evaluation has the values of the nodes done. -/
structure Tabled (c : Circuit) (e : Edge) (v : Nat → Bool) (done : List Nat)
    (values : List Bool) : Prop where
  /-- The table reaches up to the node of the edge. -/
  length : values.length = e.node + 1
  /-- The constant and the nodes done have their values. -/
  value : ∀ k, k = 0 ∨ k ∈ done → values[k]? = some (c.valueAt v k)

namespace Tabled

variable {v : Nat → Bool} {done : List Nat} {values : List Bool}

theorem initial (hc : c.Canonical) (e : Edge) (v : Nat → Bool) :
    Tabled c e v [] (List.replicate (e.node + 1) false) where
  length := List.length_replicate
  value k hk := by
    obtain rfl : k = 0 := hk.resolve_right List.not_mem_nil
    rw [List.getElem?_replicate, if_pos (Nat.succ_pos _), hc.valueAt_zero]

theorem value?_eq (h : Tabled c e v done values) {a : Edge} (ha : a.node = 0 ∨ a.node ∈ done) :
    a.value? values = some (c.evaluate a v) := by
  rw [Edge.value?, h.value _ ha, Option.map_some, evaluate_eq]

/-- Entering the value of the next node of the cone. -/
theorem step (hc : c.Canonical) (he : e.node < c.size) (h : Tabled c e v done values) {k : Nat}
    {todo : List Nat} (hsplit : c.cone e = done ++ k :: todo) :
    ∃ values', c.enterValue? v values k = some values' ∧ Tabled c e v (done ++ [k]) values' := by
  have hk : k ∈ c.cone e := by simp [hsplit]
  have hsorted := c.pairwise_cone e
  have hlt : k < values.length := by
    have := hc.le_of_mem_cone hk
    rw [h.length]
    omega
  have hvalue : ∃ node, c.nodes[k]? = some node ∧ node.value? v values = some (c.valueAt v k) := by
    rcases hc.cone_cases he hk with ⟨atom, hnode⟩ | ⟨l, r, hnode, hl, hr, hlr, hrk⟩
    · exact ⟨_, hnode, by rw [Node.value?, valueAt_input hnode]⟩
    · -- both conjuncts come before the node, so they have their values
      have hl' := mem_of_split hsorted hsplit hl (Nat.lt_trans hlr hrk)
      have hr' := mem_of_split hsorted hsplit hr hrk
      refine ⟨_, hnode, ?_⟩
      rw [Node.value?, h.value?_eq (Or.inr hl'), h.value?_eq (Or.inr hr'), hc.valueAt_and hnode]
      rfl
  obtain ⟨node, hnode, hval⟩ := hvalue
  refine ⟨values.set k (c.valueAt v k), ?_, ?_, fun m hm => ?_⟩
  · rw [enterValue?, hnode]
    simp only [Option.bind_eq_bind, Option.bind_some, hval]
    exact if_pos hlt
  · rw [List.length_set]
    exact h.length
  · rw [List.getElem?_set, if_pos hlt]
    split
    · rename_i hkm
      rw [hkm]
    · rename_i hkm
      refine h.value m (hm.imp_right fun hm => ?_)
      exact (List.mem_append.mp hm).resolve_right fun hm => hkm (List.mem_singleton.mp hm).symm

end Tabled

/-- The value of an edge comes out of the table of its cone. -/
theorem Canonical.evaluate?_eq (hc : c.Canonical) (he : e.node < c.size) (v : Nat → Bool) :
    c.evaluate? e v = some (c.evaluate e v) := by
  obtain ⟨values, hvalues, htabled⟩ := exists_foldlM_of_split (P := Tabled c e v)
    (fun hsplit h => h.step hc he hsplit) (List.nil_append _).symm (Tabled.initial hc e v)
  rw [evaluate?, hc.cone?_eq he]
  simp only [Option.bind_eq_bind, Option.bind_some, hvalues]
  exact htabled.value?_eq (hc.node_eq_zero_or_mem_cone e)

/-- Nodes that are there can be looked at one after another. -/
theorem exists_mapM_nodes (c : Circuit) {l : List Nat} (hl : ∀ k ∈ l, k < c.size) :
    ∃ nodes, l.mapM (fun k => c.nodes[k]?) = some nodes ∧
      nodes.filterMap Node.atom? = l.filterMap fun k => c.nodes[k]?.bind Node.atom? := by
  induction l with
  | nil => exact ⟨[], rfl, rfl⟩
  | cons k l ih =>
    obtain ⟨nodes, hnodes, hatoms⟩ := ih fun m hm => hl m (List.mem_cons_of_mem k hm)
    have hlt : k < c.nodes.size := hl k List.mem_cons_self
    have hk : c.nodes[k]? = some c.nodes[k] := Array.getElem?_eq_getElem hlt
    refine ⟨c.nodes[k] :: nodes, by simp [List.mapM_cons, hk, hnodes], ?_⟩
    rw [List.filterMap_cons, List.filterMap_cons, hatoms, hk, Option.bind_some]

/-- Every node of the cone is there to be looked at. -/
theorem Canonical.atoms?_eq (hc : c.Canonical) (he : e.node < c.size) :
    c.atoms? e = some (c.atoms e) := by
  obtain ⟨nodes, hread, hatoms⟩ := c.exists_mapM_nodes fun k hk =>
    Nat.lt_of_le_of_lt (hc.le_of_mem_cone hk) he
  rw [atoms?, hc.cone?_eq he]
  simp only [Option.bind_eq_bind, Option.bind_some, hread, hatoms]
  rfl

namespace Copied

variable {done : List Nat} {copy : Copy}

/-- The node of an edge that has been copied is known by its place. -/
theorem relocate?_eq (h : Copied c e done copy) {a : Edge} (ha : a.node = 0 ∨ a.node ∈ done) :
    copy.relocate? a = some (copy.relocate a) := by
  rw [Copy.relocate?, Copy.relocate, h.moved _ ha]
  rfl

/-- Copying the next node of the cone misses nothing. -/
theorem copyNode?_eq (hc : c.Canonical) (he : e.node < c.size) (h : Copied c e done copy)
    {k : Nat} {todo : List Nat} (hsplit : c.cone e = done ++ k :: todo) :
    c.copyNode? copy k = some (c.copyNode copy k) := by
  have hk : k ∈ c.cone e := by simp [hsplit]
  have hsorted := c.pairwise_cone e
  rcases hc.cone_cases he hk with ⟨atom, hnode⟩ | ⟨l, r, hnode, hl, hr, hlr, hrk⟩
  · simp only [copyNode?, copyNode, hnode, Option.bind_eq_bind, Option.bind_some]
  · have hl' := mem_of_split hsorted hsplit hl (Nat.lt_trans hlr hrk)
    have hr' := mem_of_split hsorted hsplit hr hrk
    simp only [copyNode?, copyNode, hnode, Option.bind_eq_bind, Option.bind_some,
      h.relocate?_eq (Or.inr hl'), h.relocate?_eq (Or.inr hr')]

end Copied

/-- Extraction finds the copy of whatever it asks for. -/
theorem Canonical.extract?_eq (hc : c.Canonical) (he : e.node < c.size) :
    c.extract? e = some (c.extract e) := by
  obtain ⟨copy, hcopy, hcopied, heq⟩ := exists_foldlM_of_split (f := c.copyNode?)
    (P := fun done copy => Copied c e done copy ∧ copy = done.foldl c.copyNode {})
    (fun hsplit h => ⟨_, h.1.copyNode?_eq hc he hsplit, h.1.step hc he hsplit,
      by rw [List.foldl_append, ← h.2]; rfl⟩)
    (List.nil_append _).symm ⟨copied_start c e, rfl⟩
  rw [extract?, hc.cone?_eq he]
  simp only [Option.bind_eq_bind, Option.bind_some, hcopy,
    hcopied.relocate?_eq (hc.node_eq_zero_or_mem_cone e)]
  rw [heq]
  rfl

/-- Whether the readings of an edge come to an end without ever leaving what they index,
and return what the plain readings return. -/
structure Readable (c : Circuit) (e : Edge) : Prop where
  /-- The search ends with the cone. -/
  cone : c.cone? e = some (c.cone e)
  /-- All nodes of the cone are there. -/
  atoms : c.atoms? e = some (c.atoms e)
  /-- All values are entered before they are wanted. -/
  evaluate : ∀ v, c.evaluate? e v = some (c.evaluate e v)
  /-- All nodes are copied before their copies are wanted. -/
  extract : c.extract? e = some (c.extract e)

/-- **In a canonical circuit every edge is readable.** -/
theorem Canonical.readable (hc : c.Canonical) (he : e.node < c.size) : c.Readable e where
  cone := hc.cone?_eq he
  atoms := hc.atoms?_eq he
  evaluate := hc.evaluate?_eq he
  extract := hc.extract?_eq he

end Circuit
end Interpolation
