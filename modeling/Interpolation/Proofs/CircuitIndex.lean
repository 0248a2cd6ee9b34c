import Mathlib.Data.Finmap
import Interpolation.Proofs.CircuitCalls

/-!
# A circuit with an index

Sharing has to know whether a node is there.  A circuit looks it up among its nodes.  An
*indexed* circuit has two maps beside the nodes, one from variables to edges and one from pairs
of edges to edges, looks nodes up in the maps only, and enters into them what it makes.

The maps are exact: what they hold is the inputs and the conjunctions of the circuit, each with
the edge to its position, and nothing else (`Exact`).  Therefore an indexed circuit returns what
the circuit without maps returns (`Agrees`), call by call, and when it is cut down to an edge as
well.  It follows that the maps are determined by the circuit (`Exact.eq_of_circuit_eq`), so that
a call which builds nothing leaves the maps alone too.

* `Exact.push_input`, `Exact.push_and` --- entering a new node keeps the maps exact;
* `Exact.agrees_perform`, `Exact.agrees_extract` --- indexed and plain circuits agree;
* `Made.orderly` --- the canonical form of an indexed circuit, maps included, and what it means
  for calls that are made in the other order or made again.
-/

namespace Interpolation

/-- A circuit with an index of its inputs and one of its conjunctions. -/
structure IndexedCircuit where
  /-- The circuit. -/
  circuit : Circuit := {}
  /-- The edges of the variables. -/
  inputs : NatMap Edge := ∅
  /-- The edges of the conjunctions, by what they join. -/
  conjunctions : Finmap fun _ : Edge × Edge => Edge := ∅

namespace IndexedCircuit

/-! ## Building -/

/-- The edge of a variable. -/
def input (x : IndexedCircuit) (atom : Nat) : Edge × IndexedCircuit :=
  match x.inputs.find? atom with
  | some edge => (edge, x)
  | none =>
    let edge := Edge.ofNode x.circuit.size false
    (edge, { x with
      circuit := ⟨x.circuit.nodes.push (.input atom)⟩
      inputs := x.inputs.insert atom edge })

/-- The edge of a literal: that of its variable, negated if the literal denies it. -/
def literal (x : IndexedCircuit) (l : Literal) : Edge × IndexedCircuit :=
  let (edge, x) := x.input l.atom
  (if l.polarity then edge else edge.negate, x)

/-- The edge of a conjunction of two edges in order. -/
def share (x : IndexedCircuit) (left right : Edge) : Edge × IndexedCircuit :=
  match x.conjunctions.lookup (left, right) with
  | some edge => (edge, x)
  | none =>
    let edge := Edge.ofNode x.circuit.size false
    (edge, { x with
      circuit := ⟨x.circuit.nodes.push (.and left right)⟩
      conjunctions := x.conjunctions.insert (left, right) edge })

/-- The edge of a conjunction. -/
def and (x : IndexedCircuit) (a b : Edge) : Edge × IndexedCircuit := conjoin x x.share a b

/-- The edge of a disjunction. -/
def or (x : IndexedCircuit) (a b : Edge) : Edge × IndexedCircuit :=
  let (edge, x) := x.and a.negate b.negate
  (edge.negate, x)

/-- What a call returns, and the indexed circuit after it. -/
def perform (x : IndexedCircuit) : Circuit.Call → Edge × IndexedCircuit
  | .input atom => x.input atom
  | .literal l => x.literal l
  | .and a b => x.and a b
  | .or a b => x.or a b

/-! ## Cutting -/

/-- A copy in the making: the indexed circuit so far, and where each copied node went. -/
structure Copy where
  /-- The copy so far. -/
  target : IndexedCircuit := {}
  /-- The edge of the copy for each node copied.  The constant is there from the start. -/
  moved : NatMap Edge := NatMap.empty.insert 0 .bottom

/-- The copy without its index. -/
def Copy.plain (copy : Copy) : Circuit.Copy := ⟨copy.target.circuit, copy.moved⟩

/-- Copies the node at one position, whose children have been copied. -/
def copyNode (x : IndexedCircuit) (copy : Copy) (k : Nat) : Copy :=
  let (edge, target) : Edge × IndexedCircuit :=
    match x.circuit.nodes[k]? with
    | some (.input atom) => copy.target.input atom
    | some (.and left right) =>
      copy.target.and (copy.plain.relocate left) (copy.plain.relocate right)
    | _ => (.bottom, copy.target)
  { target, moved := copy.moved.insert k edge }

/-- The counterpart of an edge in an indexed circuit made of its cone alone, and that circuit. -/
def extract (x : IndexedCircuit) (e : Edge) : Edge × IndexedCircuit :=
  let copy := (x.circuit.cone e).foldl x.copyNode {}
  (copy.plain.relocate e, copy.target)

/-! ## Exact maps -/

/-- Whether the maps hold the inputs and the conjunctions of the circuit, with the edges to their
positions, and nothing else. -/
structure Exact (x : IndexedCircuit) : Prop where
  /-- A variable is mapped to the plain edge to the position of its input. -/
  inputs : ∀ (atom : Nat) (e : Edge), x.inputs.find? atom = some e ↔
    ∃ i : Nat, x.circuit.nodes[i]? = some (.input atom) ∧ e = .ofNode i false
  /-- A pair of edges is mapped to the plain edge to the position of their conjunction. -/
  conjunctions : ∀ (l r e : Edge), x.conjunctions.lookup (l, r) = some e ↔
    ∃ i : Nat, x.circuit.nodes[i]? = some (.and l r) ∧ e = .ofNode i false

/-- In the smallest circuit there is nothing but the constant. -/
theorem eq_bottom_of_getElem? {i : Nat} {node : Node}
    (h : ({} : Circuit).nodes[i]? = some node) : node = .bottom := by
  have hlt := Circuit.lt_size_of_getElem? h
  obtain rfl : i = 0 := Nat.lt_one_iff.mp hlt
  exact (Option.some.inj h).symm

theorem exact_empty : Exact {} where
  inputs _ _ := by
    refine ⟨fun h => absurd h (by simp), fun ⟨_, h, _⟩ => ?_⟩
    exact Node.noConfusion (eq_bottom_of_getElem? h)
  conjunctions _ _ _ := by
    refine ⟨fun h => absurd h (by simp), fun ⟨_, h, _⟩ => ?_⟩
    exact Node.noConfusion (eq_bottom_of_getElem? h)

/-- What stands in a circuit with one more node. -/
theorem getElem?_push_iff {c : Circuit} {node m : Node} {i : Nat} :
    (c.nodes.push node)[i]? = some m ↔ c.nodes[i]? = some m ∨ i = c.size ∧ m = node := by
  rw [Array.getElem?_push]
  split
  · rename_i hi
    rw [hi]
    simp [Circuit.size, eq_comm]
  · rename_i hi
    simp [Circuit.size, hi]

namespace Exact

variable {x y : IndexedCircuit}

/-- A variable that is not entered has no input. -/
theorem input_notMem (h : x.Exact) {atom : Nat} (hnone : x.inputs.find? atom = none) {i : Nat} :
    x.circuit.nodes[i]? ≠ some (.input atom) := by
  intro hi
  have hfound := (h.inputs atom (.ofNode i false)).mpr ⟨i, hi, rfl⟩
  rw [hnone] at hfound
  exact absurd hfound (by simp)

/-- A pair that is not entered has no conjunction. -/
theorem and_notMem (h : x.Exact) {l r : Edge} (hnone : x.conjunctions.lookup (l, r) = none)
    {i : Nat} : x.circuit.nodes[i]? ≠ some (.and l r) := by
  intro hi
  have hfound := (h.conjunctions l r (.ofNode i false)).mpr ⟨i, hi, rfl⟩
  rw [hnone] at hfound
  exact absurd hfound (by simp)

/-- Entering a new input keeps the maps exact. -/
theorem push_input (h : x.Exact) {atom : Nat} (hnone : x.inputs.find? atom = none) :
    Exact { x with
      circuit := ⟨x.circuit.nodes.push (.input atom)⟩
      inputs := x.inputs.insert atom (.ofNode x.circuit.size false) } where
  inputs other e := by
    simp only [NatMap.find?_insert, getElem?_push_iff]
    split
    · rename_i heq
      simp [heq, h.input_notMem hnone, eq_comm]
    · rename_i hne
      simp [h.inputs, hne]
  conjunctions l r e := by
    simp [h.conjunctions, getElem?_push_iff]

/-- Entering a new conjunction keeps the maps exact. -/
theorem push_and (h : x.Exact) {left right : Edge}
    (hnone : x.conjunctions.lookup (left, right) = none) :
    Exact { x with
      circuit := ⟨x.circuit.nodes.push (.and left right)⟩
      conjunctions := x.conjunctions.insert (left, right) (.ofNode x.circuit.size false) } where
  inputs atom e := by
    simp [h.inputs, getElem?_push_iff]
  conjunctions l r e := by
    simp only [getElem?_push_iff]
    by_cases heq : (l, r) = (left, right)
    · obtain ⟨rfl, rfl⟩ := Prod.mk.inj heq
      simp [h.and_notMem hnone, eq_comm]
    · rw [Finmap.lookup_insert_of_ne _ heq, h.conjunctions]
      have hne : Node.and l r ≠ .and left right := by
        rintro h'
        obtain ⟨rfl, rfl⟩ := Node.and.inj h'
        exact heq rfl
      simp [hne]

/-- In an addressable circuit the plain edge to the position of a node is the plain edge that leads
to the node. -/
theorem exists_edge_iff (hsize : x.circuit.Addressable) {node : Node} {e : Edge} :
    (∃ i : Nat, x.circuit.nodes[i]? = some node ∧ e = .ofNode i false) ↔
      e.negated = false ∧ x.circuit.nodes[e.node]? = some node := by
  constructor
  · rintro ⟨i, hi, rfl⟩
    rw [Edge.node_ofNode_of_lt (Nat.lt_of_lt_of_le (Circuit.lt_size_of_getElem? hi) hsize)]
    exact ⟨rfl, hi⟩
  · rintro ⟨hplain, hnode⟩
    exact ⟨e.node, hnode, by rw [← hplain, e.ofNode_node]⟩

/-- **The maps are determined by the circuit.** -/
theorem eq_of_circuit_eq (hx : x.Exact) (hy : y.Exact) (h : x.circuit = y.circuit) : x = y := by
  have hinputs : x.inputs = y.inputs := by
    refine NatMap.ext fun atom => Option.ext fun e => ?_
    rw [hx.inputs, hy.inputs, h]
  have hconjunctions : x.conjunctions = y.conjunctions := by
    refine Finmap.ext_lookup fun pair => Option.ext fun e => ?_
    rw [hx.conjunctions, hy.conjunctions, h]
  cases x
  cases y
  cases h
  cases hinputs
  cases hconjunctions
  rfl

end Exact

/-! ## Agreement -/

/-- Whether an indexed circuit has returned what a plain one has, with exact maps. -/
structure Agrees (result : Edge × IndexedCircuit) (plain : Edge × Circuit) : Prop where
  /-- The edges are the same. -/
  edge : result.1 = plain.1
  /-- The circuits are the same. -/
  circuit : result.2.circuit = plain.2
  /-- The maps are exact. -/
  exact : result.2.Exact

namespace Exact

variable {x : IndexedCircuit}

theorem agrees_input (h : x.Exact) (hc : x.circuit.Canonical) (atom : Nat) :
    Agrees (x.input atom) (x.circuit.input atom) := by
  unfold input
  split
  · rename_i e he
    obtain ⟨i, hnode, rfl⟩ := (h.inputs atom e).mp he
    rw [Circuit.input, hc.share_of_getElem? hnode]
    exact ⟨rfl, rfl, h⟩
  · rename_i hnone
    have hnew : .input atom ∉ x.circuit.nodes := by
      intro hmem
      obtain ⟨i, hi⟩ := Array.mem_iff_getElem?.mp hmem
      exact h.input_notMem hnone hi
    rw [Circuit.input, Circuit.share_of_notMem hnew]
    exact ⟨rfl, rfl, h.push_input hnone⟩

theorem agrees_literal (h : x.Exact) (hc : x.circuit.Canonical) (l : Literal) :
    Agrees (x.literal l) (x.circuit.literal l) := by
  have hinput := h.agrees_input hc l.atom
  refine ⟨?_, hinput.circuit, hinput.exact⟩
  show (if l.polarity then (x.input l.atom).1 else (x.input l.atom).1.negate) =
    if l.polarity then (x.circuit.input l.atom).1 else (x.circuit.input l.atom).1.negate
  rw [hinput.edge]

theorem agrees_share (h : x.Exact) (hc : x.circuit.Canonical) (l r : Edge) :
    Agrees (x.share l r) (x.circuit.share (.and l r)) := by
  unfold share
  split
  · rename_i e he
    obtain ⟨i, hnode, rfl⟩ := (h.conjunctions l r e).mp he
    rw [hc.share_of_getElem? hnode]
    exact ⟨rfl, rfl, h⟩
  · rename_i hnone
    have hnew : .and l r ∉ x.circuit.nodes := by
      intro hmem
      obtain ⟨i, hi⟩ := Array.mem_iff_getElem?.mp hmem
      exact h.and_notMem hnone hi
    rw [Circuit.share_of_notMem hnew]
    exact ⟨rfl, rfl, h.push_and hnone⟩

theorem agrees_and (h : x.Exact) (hc : x.circuit.Canonical) (a b : Edge) :
    Agrees (x.and a b) (x.circuit.and a b) :=
  conjoin_related (R := Agrees) (fun _ => ⟨rfl, rfl, h⟩) (h.agrees_share hc) a b

theorem agrees_or (h : x.Exact) (hc : x.circuit.Canonical) (a b : Edge) :
    Agrees (x.or a b) (x.circuit.or a b) := by
  have hand := h.agrees_and hc a.negate b.negate
  exact ⟨congrArg Edge.negate hand.edge, hand.circuit, hand.exact⟩

/-- **Indexed and plain circuits answer a call alike.** -/
theorem agrees_perform (h : x.Exact) (hc : x.circuit.Canonical) (call : Circuit.Call) :
    Agrees (x.perform call) (x.circuit.perform call) := by
  cases call with
  | input atom => exact h.agrees_input hc atom
  | literal l => exact h.agrees_literal hc l
  | and a b => exact h.agrees_and hc a b
  | or a b => exact h.agrees_or hc a b

end Exact

/-- Results that agree are entered in copies that agree. -/
theorem Agrees.copy {result : Edge × IndexedCircuit} {plain : Edge × Circuit}
    (h : Agrees result plain) (moved : NatMap Edge) (k : Nat) :
    (Copy.mk result.2 (moved.insert k result.1)).plain = ⟨plain.2, moved.insert k plain.1⟩ := by
  rw [Copy.plain, h.circuit, h.edge]

section

variable {x : IndexedCircuit} {e : Edge} {copy : Copy}

/-- Copying a node with an index and without comes to the same. -/
theorem plain_copyNode (x : IndexedCircuit) (h : copy.target.Exact)
    (hc : copy.target.circuit.Canonical) (k : Nat) :
    (x.copyNode copy k).plain = x.circuit.copyNode copy.plain k ∧
      (x.copyNode copy k).target.Exact := by
  have hsame : ∀ {result : Edge × IndexedCircuit} {plain : Edge × Circuit}, Agrees result plain →
      x.copyNode copy k = ⟨result.2, copy.moved.insert k result.1⟩ →
      x.circuit.copyNode copy.plain k = ⟨plain.2, copy.moved.insert k plain.1⟩ →
        (x.copyNode copy k).plain = x.circuit.copyNode copy.plain k ∧
          (x.copyNode copy k).target.Exact := by
    intro result plain hagrees hcopy hplain
    rw [hcopy, hplain]
    exact ⟨hagrees.copy copy.moved k, hagrees.exact⟩
  have hbottom : Agrees (.bottom, copy.target) (.bottom, copy.plain.circuit) := ⟨rfl, rfl, h⟩
  cases hnode : x.circuit.nodes[k]? with
  | none =>
    exact hsame hbottom (by rw [copyNode, hnode]) (by rw [Circuit.copyNode, hnode]; rfl)
  | some node =>
    cases node with
    | bottom =>
      exact hsame hbottom (by rw [copyNode, hnode]) (by rw [Circuit.copyNode, hnode]; rfl)
    | input atom =>
      exact hsame (h.agrees_input hc atom) (by rw [copyNode, hnode])
        (by rw [Circuit.copyNode, hnode]; rfl)
    | and left right =>
      exact hsame (h.agrees_and hc (copy.plain.relocate left) (copy.plain.relocate right))
        (by rw [copyNode, hnode]) (by rw [Circuit.copyNode, hnode]; rfl)

/-- So does copying the rest of a cone. -/
theorem plain_foldl_copyNode (hx : x.circuit.Canonical) (he : e.node < x.circuit.size)
    {done todo : List Nat} (h : copy.target.Exact)
    (hcopied : Circuit.Copied x.circuit e done copy.plain)
    (hs : x.circuit.cone e = done ++ todo) :
    (todo.foldl x.copyNode copy).plain = todo.foldl x.circuit.copyNode copy.plain ∧
      (todo.foldl x.copyNode copy).target.Exact := by
  induction todo generalizing done copy with
  | nil => exact ⟨rfl, h⟩
  | cons k todo ih =>
    obtain ⟨hplain, hexact⟩ := plain_copyNode x h hcopied.built.canonical k
    have hstep := hcopied.step hx he hs
    rw [← hplain] at hstep
    rw [List.foldl_cons, List.foldl_cons, ← hplain]
    exact ih hexact hstep (by rw [hs, List.append_assoc]; rfl)

/-- **Indexed and plain circuits are cut alike.** -/
theorem agrees_extract (hx : x.circuit.Canonical) (he : e.node < x.circuit.size) :
    Agrees (x.extract e) (x.circuit.extract e) := by
  have hstart : ({} : Copy).target.Exact := exact_empty
  obtain ⟨hplain, hexact⟩ := plain_foldl_copyNode hx he hstart
    (Circuit.copied_start x.circuit e) (List.nil_append _).symm
  refine ⟨?_, congrArg Circuit.Copy.circuit hplain, hexact⟩
  exact congrArg (fun copy => Circuit.Copy.relocate copy e) hplain

end

/-! ## Building and cutting -/

/-- The indexed circuits that are reached by calls and by cutting a circuit down to one of its
edges, when only edges of the circuit are used. -/
inductive Made : IndexedCircuit → Prop
  | empty : Made {}
  | perform {x : IndexedCircuit} {call : Circuit.Call} :
      Made x → call.Fits x.circuit → Made (x.perform call).2
  | extract {x : IndexedCircuit} {e : Edge} :
      Made x → e.node < x.circuit.size → Made (x.extract e).2

/-- Whether calls lead from one indexed circuit to another. -/
inductive Leads (x : IndexedCircuit) : IndexedCircuit → Prop
  | refl : Leads x x
  | perform {y : IndexedCircuit} {call : Circuit.Call} :
      Leads x y → call.Fits y.circuit → Leads x (y.perform call).2

variable {x y : IndexedCircuit}

/-- **Whatever is built and cut is canonical, with exact maps.** -/
theorem Made.canonical_exact (h : x.Made) : x.circuit.Canonical ∧ x.Exact := by
  induction h with
  | empty => exact ⟨Circuit.canonical_empty, exact_empty⟩
  | @perform x call _ hfits ih =>
    have hagrees := ih.2.agrees_perform ih.1 call
    exact ⟨hagrees.circuit ▸ ih.1.perform hfits, hagrees.exact⟩
  | extract _ he ih =>
    have hagrees := agrees_extract ih.1 he
    exact ⟨hagrees.circuit ▸ (Circuit.built_extract ih.1 he).canonical, hagrees.exact⟩

theorem Leads.made (h : Leads x y) (hx : x.Made) : y.Made := by
  induction h with
  | refl => exact hx
  | perform _ hfits ih => exact .perform ih hfits

/-- Calls only add to the circuit. -/
theorem Leads.le (h : Leads x y) (hx : x.Made) : x.circuit ≤ y.circuit := by
  induction h with
  | refl => exact Circuit.le_refl _
  | @perform y call hleads _ ih =>
    obtain ⟨hc, hexact⟩ := (hleads.made hx).canonical_exact
    rw [(hexact.agrees_perform hc call).circuit]
    exact Circuit.le_trans ih (Circuit.le_perform _ call)

/-- **A call that is made again returns the same edge and changes nothing,** the maps
included. -/
theorem Made.perform_again (h : x.Made) {call : Circuit.Call} (hfits : call.Fits x.circuit)
    (hy : Leads (x.perform call).2 y) : y.perform call = ((x.perform call).1, y) := by
  obtain ⟨hc, hexact⟩ := h.canonical_exact
  obtain ⟨hcy, hexacty⟩ := (hy.made (.perform h hfits)).canonical_exact
  have hfirst := hexact.agrees_perform hc call
  have hsecond := hexacty.agrees_perform hcy call
  have hle := hy.le (.perform h hfits)
  rw [hfirst.circuit] at hle
  have hagain := hcy.perform_again hle
  have hedge : (y.perform call).1 = (x.perform call).1 := by
    rw [hsecond.edge, hagain, hfirst.edge]
  have hstate : (y.perform call).2 = y := by
    refine hsecond.exact.eq_of_circuit_eq hexacty ?_
    rw [hsecond.circuit, hagain]
  exact Prod.ext hedge hstate

/-- The canonical form of an indexed circuit. -/
structure Orderly (x : IndexedCircuit) : Prop where
  /-- The first node is constant and no other. -/
  bottom : ∀ i : Nat, x.circuit.nodes[i]? = some .bottom ↔ i = 0
  /-- No variable has two inputs. -/
  input : ∀ i j atom : Nat, x.circuit.nodes[i]? = some (.input atom) →
    x.circuit.nodes[j]? = some (.input atom) → i = j
  /-- A conjunction joins edges in strict order, which lead to different nodes made before it,
  neither of them constant. -/
  joins : ∀ (i : Nat) (l r : Edge), x.circuit.nodes[i]? = some (.and l r) →
    l < r ∧ l.node ≠ r.node ∧ (0 < l.node ∧ l.node < i) ∧ (0 < r.node ∧ r.node < i)
  /-- No pair of edges has two conjunctions. -/
  and : ∀ (i j : Nat) (l r : Edge), x.circuit.nodes[i]? = some (.and l r) →
    x.circuit.nodes[j]? = some (.and l r) → i = j
  /-- The maps hold the inputs and the conjunctions with the edges to their positions, and nothing
  else. -/
  exact : x.Exact
  /-- Below the limit the edge of a variable is the plain edge that leads to its input. -/
  input_edge : x.circuit.Addressable → ∀ (atom : Nat) (e : Edge),
    x.inputs.find? atom = some e ↔
      e.negated = false ∧ x.circuit.nodes[e.node]? = some (.input atom)
  /-- And the edge of a pair is the plain edge that leads to their conjunction. -/
  and_edge : x.circuit.Addressable → ∀ l r e : Edge,
    x.conjunctions.lookup (l, r) = some e ↔
      e.negated = false ∧ x.circuit.nodes[e.node]? = some (.and l r)

theorem orderly_of_canonical (hc : x.circuit.Canonical) (hexact : x.Exact) : x.Orderly where
  bottom i := by
    refine ⟨hc.eq_zero_of_bottom, ?_⟩
    rintro rfl
    exact hc.bottom
  input _ _ _ hi hj := hc.eq_of_getElem? hi hj
  joins i l r hi := by
    obtain ⟨hl, hlr, hr⟩ := hc.ordered hi
    have hne : l.node ≠ r.node := Nat.ne_of_lt hlr
    refine ⟨(Edge.lt_iff_of_node_ne hne).mpr hlr, hne, ⟨hl, ?_⟩, ?_, hr⟩
    · omega
    · omega
  and _ _ _ _ hi hj := hc.eq_of_getElem? hi hj
  exact := hexact
  input_edge hsize atom e := (hexact.inputs atom e).trans (Exact.exists_edge_iff hsize)
  and_edge hsize l r e := (hexact.conjunctions l r e).trans (Exact.exists_edge_iff hsize)

/-- **The canonical form of every circuit that is built and cut.**  Its nodes and its maps are in
order; the operands of a conjunction may be exchanged; a call made again, after any calls in
between, returns the edge it returned before and adds nothing; and calls and cuts are answered
as they are by the circuit alone, which has no maps. -/
theorem Made.orderly (h : x.Made) :
    x.Orderly ∧ (∀ a b, x.and a b = x.and b a) ∧
      (∀ call : Circuit.Call, call.Fits x.circuit → ∀ y, Leads (x.perform call).2 y →
        y.perform call = ((x.perform call).1, y)) ∧
      (∀ call, Agrees (x.perform call) (x.circuit.perform call)) ∧
      ∀ e, e.node < x.circuit.size → Agrees (x.extract e) (x.circuit.extract e) := by
  obtain ⟨hc, hexact⟩ := h.canonical_exact
  refine ⟨orderly_of_canonical hc hexact, conjoin_comm x x.share, fun call hfits y hy => ?_,
    hexact.agrees_perform hc, fun e he => agrees_extract hc he⟩
  exact h.perform_again hfits hy

/-- The circuit of `¬2 ∧ 1`. -/
def joinedInputs : IndexedCircuit :=
  ((((({} : IndexedCircuit).perform (.input 1)).2.perform (.literal (-2))).2.perform
    (.and (.ofNode 2 true) (.ofNode 1 false))).2)

theorem made_joinedInputs : joinedInputs.Made :=
  .perform (.perform (.perform .empty (by decide)) (by decide)) (by decide)

/-- The conjunction of `joinedInputs` is found with its operands exchanged, whatever else has
been built. -/
theorem orderly_joinedInputs :
    joinedInputs.Made ∧ joinedInputs.Orderly ∧
      joinedInputs.and (.ofNode 1 false) (.ofNode 2 true) =
        joinedInputs.and (.ofNode 2 true) (.ofNode 1 false) ∧
      (joinedInputs.perform (.and (.ofNode 1 false) (.ofNode 2 true))).1 = .ofNode 3 false ∧
      (∀ y, Leads (joinedInputs.perform (.and (.ofNode 1 false) (.ofNode 2 true))).2 y →
        y.perform (.and (.ofNode 1 false) (.ofNode 2 true)) =
          ((joinedInputs.perform (.and (.ofNode 1 false) (.ofNode 2 true))).1, y)) ∧
      Agrees (joinedInputs.perform (.or (.ofNode 1 false) (.ofNode 3 true)))
        (joinedInputs.circuit.perform (.or (.ofNode 1 false) (.ofNode 3 true))) ∧
      Agrees (joinedInputs.extract (.ofNode 3 true))
        (joinedInputs.circuit.extract (.ofNode 3 true)) := by
  obtain ⟨horderly, hswap, hagain, hcall, hcut⟩ := made_joinedInputs.orderly
  exact ⟨made_joinedInputs, horderly, hswap _ _, by decide, hagain _ (by decide), hcall _,
    hcut _ (by decide)⟩

end IndexedCircuit
end Interpolation
