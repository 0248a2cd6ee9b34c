import Interpolation.Proofs.Extraction

/-!
# Calling a circuit again

A circuit is made by calls, each of which asks for a variable, a literal, a conjunction or a
disjunction and returns an edge.  Two things are said of such a call here.

The order of its operands does not matter: folding looks at both alike, and what it does not
fold is put in order (`conjoin_comm`).  And a call that is made a second time, however much has
been built in between, returns the edge that it returned the first time and builds nothing
(`Canonical.perform_again`).  For what a call folds, it folds on any circuit; and what it does
not fold was there after the first call, is there still, and stands nowhere else.

A circuit may also be cut down to one of its edges, and building may go on from there.  The
circuits that can be reached in this way are described by `Made`.  They are all among those
that building alone can reach (`Made.built`), because a cut is itself made by building.

* `conjoin_related` --- two circuits that share alike conjoin alike;
* `Canonical.perform_again` --- the second call;
* `Made.built` --- cutting reaches nothing that building does not.
-/

namespace Interpolation

/-! ## Conjunctions on anything that can share nodes -/

/-- The conjunction of two edges, folded if it can be, and otherwise shared with the operands
in order.  What sharing is, and what it is done on, is left open. -/
def conjoin {σ : Type} (state : σ) (share : Edge → Edge → Edge × σ) (a b : Edge) : Edge × σ :=
  if a = .bottom ∨ b = .bottom ∨ a = b.negate then (.bottom, state)
  else if a = .top ∨ a = b then (b, state)
  else if b = .top then (a, state)
  else if a < b then share a b
  else share b a

theorem Edge.eq_negate_comm {a b : Edge} : a = b.negate ↔ b = a.negate := by
  constructor
  · rintro rfl
    exact b.negate_negate.symm
  · rintro rfl
    exact a.negate_negate.symm

section

variable {σ τ : Type} {s : σ} {t : τ} {share : Edge → Edge → Edge × σ}
  {share' : Edge → Edge → Edge × τ}

/-- What is not folded is shared in order. -/
theorem conjoin_of_not_folded (s : σ) (share : Edge → Edge → Edge × σ) {a b : Edge}
    (hbottom : ¬ (a = .bottom ∨ b = .bottom ∨ a = b.negate)) (ha : a ≠ .top) (hb : b ≠ .top)
    (hab : a ≠ b) : conjoin s share a b = if a < b then share a b else share b a := by
  rw [conjoin, if_neg hbottom, if_neg (not_or.mpr ⟨ha, hab⟩), if_neg hb]

/-- **The order of the operands does not matter.** -/
theorem conjoin_comm (s : σ) (share : Edge → Edge → Edge × σ) (a b : Edge) :
    conjoin s share a b = conjoin s share b a := by
  by_cases hab : a = b
  · rw [hab]
  have hswap : (a = .bottom ∨ b = .bottom ∨ a = b.negate) ↔
      (b = .bottom ∨ a = .bottom ∨ b = a.negate) := by
    rw [← Edge.eq_negate_comm, or_left_comm]
  by_cases hbottom : a = .bottom ∨ b = .bottom ∨ a = b.negate
  · rw [conjoin, conjoin, if_pos hbottom, if_pos (hswap.mp hbottom)]
  have hbottom' := fun h => hbottom (hswap.mpr h)
  by_cases ha : a = .top
  · have hb : ¬ (b = .top ∨ b = a) := by
      rw [ha, or_self, ← ha]
      exact Ne.symm hab
    rw [conjoin, if_neg hbottom, if_pos (Or.inl ha), conjoin, if_neg hbottom', if_neg hb,
      if_pos ha]
  by_cases hb : b = .top
  · rw [conjoin, if_neg hbottom, if_neg (not_or.mpr ⟨ha, hab⟩), if_pos hb, conjoin,
      if_neg hbottom', if_pos (Or.inl hb)]
  rw [conjoin_of_not_folded s share hbottom ha hb hab,
    conjoin_of_not_folded s share hbottom' hb ha (Ne.symm hab)]
  -- different edges have different codes
  have hcode : a.code ≠ b.code := fun h => hab (Edge.code_inj.mp h)
  by_cases hlt : a < b
  · have hnot : ¬ b < a := Nat.lt_asymm hlt
    rw [if_pos hlt, if_neg hnot]
  · have hgt : b < a := Nat.lt_of_le_of_ne (Nat.not_lt.mp hlt) hcode.symm
    rw [if_neg hlt, if_pos hgt]

/-- **What is shared alike is conjoined alike.**  A relation between results that holds where
nothing was done, and after any sharing, holds after a conjunction. -/
theorem conjoin_related {R : Edge × σ → Edge × τ → Prop} (hsame : ∀ e, R (e, s) (e, t))
    (hshare : ∀ l r, R (share l r) (share' l r)) (a b : Edge) :
    R (conjoin s share a b) (conjoin t share' a b) := by
  unfold conjoin
  split
  · exact hsame _
  split
  · exact hsame _
  split
  · exact hsame _
  split
  · exact hshare a b
  · exact hshare b a

end

namespace Circuit

theorem and_swap (c : Circuit) (a b : Edge) : c.and a b = c.and b a :=
  conjoin_comm c (fun l r => c.share (.and l r)) a b

/-! ## Calls -/

/-- A call that builds. -/
inductive Call
  /-- Asks for the edge of a variable. -/
  | input (atom : Nat)
  /-- Asks for the edge of a literal. -/
  | literal (l : Literal)
  /-- Asks for a conjunction. -/
  | and (a b : Edge)
  /-- Asks for a disjunction. -/
  | or (a b : Edge)
  deriving DecidableEq, Repr

namespace Call

/-- The edges a call joins. -/
def operands : Call → List Edge
  | input _ => []
  | literal _ => []
  | and a b => [a, b]
  | or a b => [a, b]

/-- The variables a call asks for. -/
def atoms : Call → List Nat
  | input atom => [atom]
  | literal l => [l.atom]
  | and _ _ => []
  | or _ _ => []

/-- Whether a call joins edges of a circuit only. -/
def Fits (c : Circuit) (call : Call) : Prop := ∀ e ∈ call.operands, e.node < c.size

instance (c : Circuit) (call : Call) : Decidable (call.Fits c) :=
  inferInstanceAs (Decidable (∀ e ∈ call.operands, e.node < c.size))

theorem fits_and_iff {c : Circuit} {a b : Edge} :
    (and a b).Fits c ↔ a.node < c.size ∧ b.node < c.size := by
  simp [Fits, operands]

theorem fits_or_iff {c : Circuit} {a b : Edge} :
    (or a b).Fits c ↔ a.node < c.size ∧ b.node < c.size := by
  simp [Fits, operands]

theorem Fits.mono {c d : Circuit} {call : Call} (h : call.Fits c) (hle : c ≤ d) : call.Fits d :=
  fun e he => Nat.lt_of_lt_of_le (h e he) (size_le_of_le hle)

end Call

/-- What a call returns, and the circuit after it. -/
def perform (c : Circuit) : Call → Edge × Circuit
  | .input atom => c.input atom
  | .literal l => c.literal l
  | .and a b => c.and a b
  | .or a b => c.or a b

theorem le_and (c : Circuit) (a b : Edge) : c ≤ (c.and a b).2 := by
  rcases and_cases c a b with ⟨h, -⟩ | ⟨h, -⟩ | ⟨h, -⟩ | ⟨l, r, -, -, -, h⟩
  · rw [h]
    exact le_refl c
  · rw [h]
    exact le_refl c
  · rw [h]
    exact le_refl c
  · rw [h]
    exact le_share c _

/-- A call only adds to a circuit. -/
theorem le_perform (c : Circuit) (call : Call) : c ≤ (c.perform call).2 := by
  cases call with
  | input atom => exact le_share c _
  | literal l => exact le_share c _
  | and a b => exact le_and c a b
  | or a b => exact le_and c a.negate b.negate

theorem Canonical.perform {c : Circuit} (hc : c.Canonical) {call : Call} (h : call.Fits c) :
    (c.perform call).2.Canonical := by
  cases call with
  | input atom => exact hc.input atom
  | literal l => exact hc.literal l
  | and a b => exact hc.and (Call.fits_and_iff.mp h).1 (Call.fits_and_iff.mp h).2
  | or a b => exact hc.or (Call.fits_or_iff.mp h).1 (Call.fits_or_iff.mp h).2

/-! ## Calling again -/

/-- A node that is there is shared. -/
theorem Canonical.share_of_getElem? {c : Circuit} (hc : c.Canonical) {i : Nat} {node : Node}
    (h : c.nodes[i]? = some node) : c.share node = (.ofNode i false, c) := by
  rcases share_cases c node with ⟨j, hj, hshare⟩ | ⟨hnew, -⟩
  · rw [hshare, hc.eq_of_getElem? h hj]
  · exact absurd (Array.mem_of_getElem? h) hnew

/-- A node that is not there is made. -/
theorem share_of_notMem {c : Circuit} {node : Node} (h : node ∉ c.nodes) :
    c.share node = (.ofNode c.size false, ⟨c.nodes.push node⟩) := by
  rcases share_cases c node with ⟨i, hi, -⟩ | ⟨-, hshare⟩
  · exact absurd (Array.mem_of_getElem? hi) h
  · exact hshare

/-- What was shared is shared again, whatever has been built since. -/
theorem Canonical.share_again {c d : Circuit} (hd : d.Canonical) {node : Node}
    (h : (c.share node).2 ≤ d) : d.share node = ((c.share node).1, d) := by
  obtain ⟨i, hi, hedge⟩ := exists_getElem?_share c node
  have hi' : d.nodes[i]? = some node := by
    rw [getElem?_of_le h (lt_size_of_getElem? hi)]
    exact hi
  rw [hd.share_of_getElem? hi', hedge]

theorem Canonical.and_again {c d : Circuit} (hd : d.Canonical) {a b : Edge}
    (h : (c.and a b).2 ≤ d) : d.and a b = ((c.and a b).1, d) :=
  conjoin_related (R := fun first second => first.2 ≤ d → second = (first.1, d))
    (fun _ _ => rfl) (fun _ _ hle => hd.share_again hle) a b h

/-- **A call that is made again returns the same edge and builds nothing.** -/
theorem Canonical.perform_again {c d : Circuit} (hd : d.Canonical) {call : Call}
    (h : (c.perform call).2 ≤ d) : d.perform call = ((c.perform call).1, d) := by
  cases call with
  | input atom => exact hd.share_again h
  | literal l =>
    have hinput : d.input l.atom = ((c.input l.atom).1, d) := hd.share_again h
    show d.literal l = ((c.literal l).1, d)
    rw [Circuit.literal, Circuit.literal, hinput]
  | and a b => exact hd.and_again h
  | or a b =>
    have hand : d.and a.negate b.negate = ((c.and a.negate b.negate).1, d) := hd.and_again h
    show d.or a b = ((c.or a b).1, d)
    rw [Circuit.or, Circuit.or, hand]

/-! ## Building and cutting -/

/-- The circuits that are reached by calls and by cutting a circuit down to one of its edges,
when only variables of a vocabulary are asked for and only edges of the circuit are used. -/
inductive Made (vocabulary : Nat → Prop) : Circuit → Prop
  | empty : Made vocabulary {}
  | perform {c : Circuit} {call : Call} :
      Made vocabulary c → call.Fits c → (∀ atom ∈ call.atoms, vocabulary atom) →
        Made vocabulary (c.perform call).2
  | extract {c : Circuit} {e : Edge} :
      Made vocabulary c → e.node < c.size → Made vocabulary (c.extract e).2

variable {vocabulary : Nat → Prop}

theorem Built.mono {vocabulary' : Nat → Prop} {c : Circuit} (h : Built vocabulary c)
    (hle : ∀ atom, vocabulary atom → vocabulary' atom) : Built vocabulary' c := by
  induction h with
  | empty => exact .empty
  | input _ ha ih => exact .input ih (hle _ ha)
  | literal _ ha ih => exact .literal ih (hle _ ha)
  | and _ ha hb ih => exact .and ih ha hb
  | or _ ha hb ih => exact .or ih ha hb

/-- **Cutting reaches nothing that building does not.** -/
theorem Made.built {c : Circuit} (h : Made vocabulary c) : Built vocabulary c := by
  induction h with
  | empty => exact .empty
  | @perform c call _ hfits hatoms ih =>
    cases call with
    | input atom => exact .input ih (hatoms _ List.mem_cons_self)
    | literal l => exact .literal ih (hatoms _ List.mem_cons_self)
    | and a b => exact .and ih (Call.fits_and_iff.mp hfits).1 (Call.fits_and_iff.mp hfits).2
    | or a b => exact .or ih (Call.fits_or_iff.mp hfits).1 (Call.fits_or_iff.mp hfits).2
  | extract _ he ih =>
    refine (built_extract ih.canonical he).mono fun atom hatom => ?_
    obtain ⟨k, -, hk⟩ := mem_atoms_iff.mp hatom
    exact ih.over hk

theorem Made.canonical {c : Circuit} (h : Made vocabulary c) : c.Canonical := h.built.canonical

end Circuit
end Interpolation
