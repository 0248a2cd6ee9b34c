import Interpolation.Encoding
import Interpolation.Proofs.CircuitCones

/-!
# What an encoding consists of

The encoder names the nodes of a cone one after another and collects clauses as
it goes.  What it ends with can be written down without following it.  The
conjunctions of the cone, in their order, take the fresh variables from the
counter on, one each, and an input is named by its variable (`nodeName`); an edge
takes the name of its node, negated if the edge is (`edgeName`); and the clauses
are those that define the conjunctions (`definition`), in their order, followed by
the name of the output.

So an encoding has three possible outcomes and no others (`encode_cases`): the
counter was not usable, or the atoms ran out, or the clauses are the ones just
described.  The atoms run out exactly when the last fresh variable would lie past
the largest atom.
-/

namespace Interpolation
namespace Encoding

/-! ## Names -/

/-- The conjunctions among the nodes listed. -/
def gates (c : Circuit) (nodes : List Nat) : List Nat :=
  nodes.filter fun k => match c.nodes[k]? with
    | some (.and _ _) => true
    | _ => false

variable (c : Circuit) (cone : List Nat) (next : Nat)

/-- The variable of a node: an input has its own, and a conjunction the fresh
variable of its place among the conjunctions. -/
def nodeAtom (k : Nat) : Nat :=
  match c.nodes[k]? with
  | some (.input atom) => atom
  | _ => next + (gates c cone).idxOf k

/-- The name of a node. -/
def nodeName (k : Nat) : Literal := .ofAtom (nodeAtom c cone next k) true

/-- The name of an edge. -/
def edgeName (e : Edge) : Literal :=
  if e.negated then (nodeName c cone next e.node).negate else nodeName c cone next e.node

/-- The clauses that define a node: those of its gate, if it is a conjunction. -/
def definition (k : Nat) : List Clause :=
  match c.nodes[k]? with
  | some (.and left right) =>
    gateClauses (nodeName c cone next k) (.literal (edgeName c cone next left))
      (.literal (edgeName c cone next right))
  | _ => []

variable {c cone next}

theorem mem_gates_iff {nodes : List Nat} {k : Nat} :
    k ∈ gates c nodes ↔ k ∈ nodes ∧ ∃ l r, c.nodes[k]? = some (.and l r) := by
  rw [gates, List.mem_filter]
  refine and_congr_right fun _ => ?_
  cases c.nodes[k]? with
  | none => simp
  | some node => cases node <;> simp

theorem gates_append (c : Circuit) (nodes rest : List Nat) :
    gates c (nodes ++ rest) = gates c nodes ++ gates c rest :=
  List.filter_append ..

theorem gates_of_input {k atom : Nat} (h : c.nodes[k]? = some (.input atom)) :
    gates c [k] = [] := by
  simp [gates, h]

theorem gates_of_and {k : Nat} {l r : Edge} (h : c.nodes[k]? = some (.and l r)) :
    gates c [k] = [k] := by
  simp [gates, h]

theorem pairwise_gates (h : cone.Pairwise (· < ·)) : (gates c cone).Pairwise (· < ·) :=
  h.filter _

/-- No conjunction of a cone is listed twice. -/
theorem nodup_gates (c : Circuit) (e : Edge) : (gates c (c.cone e)).Nodup :=
  (c.nodup_cone e).filter _

theorem nodeAtom_of_input {k atom : Nat} (h : c.nodes[k]? = some (.input atom)) :
    nodeAtom c cone next k = atom := by
  rw [nodeAtom, h]

theorem nodeAtom_of_and {k : Nat} {l r : Edge} (h : c.nodes[k]? = some (.and l r)) :
    nodeAtom c cone next k = next + (gates c cone).idxOf k := by
  rw [nodeAtom, h]

theorem definition_of_input {k atom : Nat} (h : c.nodes[k]? = some (.input atom)) :
    definition c cone next k = [] := by
  rw [definition, h]

theorem definition_of_and {k : Nat} {l r : Edge} (h : c.nodes[k]? = some (.and l r)) :
    definition c cone next k =
      gateClauses (nodeName c cone next k) (.literal (edgeName c cone next l))
        (.literal (edgeName c cone next r)) := by
  rw [definition, h]

/-! ## Naming node by node -/

/-- Whether the nodes that come first in a cone have been named, and no others. -/
structure Named (c : Circuit) (cone : List Nat) (next : Nat) (done : List Nat) (s : Naming) :
    Prop where
  /-- The nodes named have their names. -/
  names : ∀ k ∈ done, s.names.find? k = some (nodeName c cone next k)
  /-- The clauses so far define the nodes named. -/
  clauses : s.clauses = done.flatMap (definition c cone next)
  /-- Each conjunction has taken one variable. -/
  next_eq : s.next = next + (gates c done).length
  /-- No variable taken lies past the largest. -/
  bound : s.next ≤ atomMax + 1

namespace Named

variable {e : Edge} {done : List Nat} {s : Naming}

theorem term_eq (h : Named c cone next done s) {a : Edge} (ha : a.node ∈ done) :
    s.term a = .literal (edgeName c cone next a) := by
  rw [Naming.term, h.names _ ha]
  rfl

/-- Naming an input. -/
theorem input_step (h : Named c cone next done s) {k atom : Nat}
    (hk : c.nodes[k]? = some (.input atom)) :
    Named c cone next (done ++ [k])
      { s with names := s.names.insert k (.ofAtom atom true) } where
  names m hm := by
    rw [NatMap.find?_insert]
    split
    · rename_i hmk
      rw [hmk, nodeName, nodeAtom_of_input hk]
    · rename_i hmk
      exact h.names m ((List.mem_append.mp hm).resolve_right (by simpa using hmk))
  clauses := by
    rw [List.flatMap_append, List.flatMap_singleton, definition_of_input hk, List.append_nil]
    exact h.clauses
  next_eq := by
    rw [gates_append, gates_of_input hk, List.append_nil]
    exact h.next_eq
  bound := h.bound

/-- The counter, when a conjunction is to be named, is the variable that the
conjunction has. -/
theorem nodeName_eq (h : Named c cone next done s) (hs : cone.Pairwise (· < ·)) {k : Nat}
    {todo : List Nat} (hsplit : cone = done ++ k :: todo) {l r : Edge}
    (hk : c.nodes[k]? = some (.and l r)) :
    Literal.ofAtom s.next true = nodeName c cone next k := by
  have hgates : gates c cone = gates c done ++ k :: gates c todo := by
    rw [hsplit, ← List.singleton_append, gates_append, gates_append, gates_of_and hk,
      List.singleton_append]
  rw [nodeName, nodeAtom_of_and hk, h.next_eq, idxOf_of_split (pairwise_gates hs) hgates]

/-- Naming a conjunction whose conjuncts have been named. -/
theorem and_step (h : Named c cone next done s) {k : Nat} {l r : Edge}
    (hk : c.nodes[k]? = some (.and l r)) (hl : l.node ∈ done) (hr : r.node ∈ done)
    (hnew : k ∉ done) (hname : Literal.ofAtom s.next true = nodeName c cone next k)
    (hbound : s.next ≤ atomMax) :
    ∃ t, Naming.addNode c s k = .ok t ∧ Named c cone next (done ++ [k]) t := by
  refine ⟨_, by rw [Naming.addNode, hk]; exact if_neg (Nat.not_lt.mpr hbound), ?_⟩
  have hnames : ∀ m ∈ done, (s.names.insert k (.ofAtom s.next true)).find? m =
      some (nodeName c cone next m) := by
    intro m hm
    have hmk : m ≠ k := by
      rintro rfl
      exact hnew hm
    rw [NatMap.find?_insert, if_neg hmk]
    exact h.names m hm
  refine ⟨fun m hm => ?_, ?_, ?_, Nat.succ_le_succ hbound⟩
  · rcases List.mem_append.mp hm with hm | hm
    · exact hnames m hm
    · rw [List.mem_singleton.mp hm, NatMap.find?_insert_self, hname]
  · rw [List.flatMap_append, List.flatMap_singleton, definition_of_and hk, ← h.clauses, ← hname]
    simp only [Naming.term, hnames l.node hl, hnames r.node hr]
    rfl
  · rw [gates_append, gates_of_and hk, List.length_append, List.length_singleton,
      ← Nat.add_assoc, ← h.next_eq]

/-- Naming the next node of a cone succeeds, unless the atoms have run out. -/
theorem step (hc : c.Canonical) (he : e.node < c.size) (h : Named c (c.cone e) next done s)
    {k : Nat} {todo : List Nat} (hsplit : c.cone e = done ++ k :: todo) :
    (∃ t, Naming.addNode c s k = .ok t ∧ Named c (c.cone e) next (done ++ [k]) t) ∨
      (Naming.addNode c s k = .error .atomsExhausted ∧
        atomMax + 1 < next + (gates c (c.cone e)).length) := by
  have hk : k ∈ c.cone e := by simp [hsplit]
  have hsorted := c.pairwise_cone e
  rcases hc.cone_cases he hk with ⟨atom, hnode⟩ | ⟨l, r, hnode, hl, hr, hlr, hrk⟩
  · exact Or.inl ⟨_, by rw [Naming.addNode, hnode], h.input_step hnode⟩
  · by_cases hbound : s.next ≤ atomMax
    · have hl' := mem_of_split hsorted hsplit hl (Nat.lt_trans hlr hrk)
      have hr' := mem_of_split hsorted hsplit hr hrk
      exact Or.inl (h.and_step hnode hl' hr' (notMem_of_split hsorted hsplit)
        (h.nodeName_eq hsorted hsplit hnode) hbound)
    · refine Or.inr ⟨by rw [Naming.addNode, hnode]; exact if_pos (Nat.lt_of_not_le hbound), ?_⟩
      rw [hsplit, ← List.singleton_append, gates_append, gates_append, gates_of_and hnode,
        List.length_append, List.length_append, List.length_singleton]
      have := h.next_eq
      omega

/-- Naming the rest of a cone. -/
theorem run (hc : c.Canonical) (he : e.node < c.size) {todo : List Nat}
    (h : Named c (c.cone e) next done s) (hsplit : c.cone e = done ++ todo) :
    (∃ t, todo.foldlM (Naming.addNode c) s = .ok t ∧ Named c (c.cone e) next (c.cone e) t) ∨
      (todo.foldlM (Naming.addNode c) s = .error .atomsExhausted ∧
        atomMax + 1 < next + (gates c (c.cone e)).length) := by
  induction todo generalizing done s with
  | nil =>
    rw [List.append_nil] at hsplit
    exact Or.inl ⟨s, rfl, hsplit ▸ h⟩
  | cons k todo ih =>
    rcases h.step hc he hsplit with ⟨t, ht, hnamed⟩ | ⟨ht, hbound⟩
    · rw [List.foldlM_cons, ht]
      exact ih hnamed (by rw [hsplit, List.append_assoc]; rfl)
    · rw [List.foldlM_cons, ht]
      exact Or.inr ⟨rfl, hbound⟩

end Named

theorem named_start {e : Edge} (hnext : next ≤ atomMax + 1) :
    Named c (c.cone e) next [] { next } where
  names _ hk := absurd hk List.not_mem_nil
  clauses := rfl
  next_eq := rfl
  bound := hnext

/-! ## The outcomes of an encoding -/

/-- The clauses that an edge is encoded by, when it is not constant. -/
def encoding (c : Circuit) (e : Edge) (next : Nat) : List Clause :=
  (c.cone e).flatMap (definition c (c.cone e) next) ++ [[edgeName c (c.cone e) next e]]

/-- How many conjunctions an edge depends on. -/
def gateCount (c : Circuit) (e : Edge) : Nat := (gates c (c.cone e)).length

/-- The conjunction that has a fresh variable. -/
def gateAt (c : Circuit) (e : Edge) (next g : Nat) : Nat := (gates c (c.cone e)).getD (g - next) 0

theorem fresh_iff {e : Edge} :
    fresh c e next = true ↔ next ≠ 0 ∧ next ≤ atomMax ∧ ∀ atom ∈ c.atoms e, atom < next := by
  simp [fresh, and_assoc]

/-- **The outcomes of an encoding.**  The counter is refused, or the atoms run out
on the conjunctions, or the clauses are those that define the conjunctions and
assert the output. -/
theorem encode_cases (hc : c.Canonical) {e : Edge} (he : e.node < c.size) (h0 : e.node ≠ 0)
    (next : Nat) :
    (fresh c e next = false ∧ encode c e next = .error (.invalidFreshVariable next)) ∨
      (fresh c e next = true ∧ atomMax + 1 < next + gateCount c e ∧
        encode c e next = .error .atomsExhausted) ∨
      (fresh c e next = true ∧ next + gateCount c e ≤ atomMax + 1 ∧
        encode c e next = .ok (encoding c e next, next + gateCount c e)) := by
  have hconst : ¬ e.isConstant = true := by simpa [Edge.isConstant] using h0
  cases hfresh : fresh c e next with
  | false =>
    refine Or.inl ⟨rfl, ?_⟩
    rw [encode, if_neg hconst, if_neg (by simp [hfresh])]
  | true =>
    refine Or.inr ?_
    have hstart : Named c (c.cone e) next [] { next } :=
      named_start (Nat.le_succ_of_le (fresh_iff.mp hfresh).2.1)
    rcases hstart.run hc he (List.nil_append _).symm with ⟨t, ht, hnamed⟩ | ⟨ht, hbound⟩
    · refine Or.inr ⟨rfl, ?_, ?_⟩
      · rw [gateCount, ← hnamed.next_eq]
        exact hnamed.bound
      · rw [encode, if_neg hconst, if_pos hfresh, ht]
        show Except.ok (t.assert e, t.next) = _
        rw [Naming.assert, hnamed.term_eq (hc.mem_cone_self h0), hnamed.clauses, hnamed.next_eq]
        rfl
    · refine Or.inl ⟨rfl, hbound, ?_⟩
      rw [encode, if_neg hconst, if_pos hfresh, ht]
      rfl

end Encoding
end Interpolation
