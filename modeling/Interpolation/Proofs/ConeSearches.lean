import Mathlib.Data.Finset.Card
import Mathlib.Data.Finset.Range
import Interpolation.Proofs.CircuitReading
import Interpolation.Proofs.ConeCopies
import Interpolation.Proofs.Replays

/-!
# Searches for a cone

What a record rests on is found by a search, as is what an edge depends on.  Both searches keep
a stack, from which they take one place after another; a place that is met for the first time is
kept, and what it refers to goes on the stack.  In the end what was kept is put in order.

A place may be on the stack many times over, and neither search asks at once whether something
that goes there is there already.  They come to an end all the same, since every round keeps
something that was not kept before, of which there is only so much, or else leaves the stack
shorter than it was.

That what is kept is exactly what is reached follows from what every round preserves: what is
kept or waits on the stack is reached, and what anything kept refers to is kept or waits.  Order
has no part in it.  It comes in afterwards, since records refer to earlier records and nodes to
earlier nodes, and has the effect that an ascending list has everything after what it refers to.

* `Proof.search`, `Proof.searchCone` --- the search for the records that a record rests on;
* `Proof.Searching.search` --- a search ends with what is reached;
* `Proof.ExactCone`, `Circuit.ExactCone` --- what the lists should be;
* `searches_exact` --- what the searches come to.
-/

namespace Interpolation

/-- The greatest member of an ascending list is the last. -/
theorem getLast?_of_forall_le {l : List Nat} (hl : l.Pairwise (· < ·)) {a : Nat} (ha : a ∈ l)
    (hle : ∀ k ∈ l, k ≤ a) : l.getLast? = some a := by
  obtain ⟨before, after, rfl⟩ := List.append_of_mem ha
  have hafter : after = [] := by
    refine List.eq_nil_iff_forall_not_mem.mpr fun m hm => ?_
    have hgt := List.rel_of_pairwise_cons (List.pairwise_append.mp hl).2.1 hm
    have hmle := hle m (List.mem_append_right _ (List.mem_cons_of_mem a hm))
    omega
  rw [hafter, List.getLast?_concat]

namespace Proof

variable {p : Proof} {key k : Nat} {found stack : List Nat}

/-! ## The search -/

/-- How many records have not been found. -/
def unfound (p : Proof) (found : List Nat) : Nat := (Finset.range p.size \ found.toFinset).card

theorem unfound_concat_lt (hk : k < p.size) (hnew : k ∉ found) :
    p.unfound (found ++ [k]) < p.unfound found := by
  have herase : Finset.range p.size \ (found ++ [k]).toFinset =
      (Finset.range p.size \ found.toFinset).erase k := by
    ext m
    simp only [Finset.mem_sdiff, Finset.mem_erase, List.mem_toFinset, List.mem_append,
      List.mem_singleton, Finset.mem_range]
    tauto
  rw [unfound, herase]
  exact Finset.card_erase_lt_of_mem (by simp [hk, hnew])

theorem unfound_concat_of_not_lt (hk : ¬ k < p.size) :
    p.unfound (found ++ [k]) = p.unfound found := by
  unfold unfound
  congr 1
  ext m
  simp only [Finset.mem_sdiff, List.mem_toFinset, List.mem_append, List.mem_singleton,
    Finset.mem_range]
  constructor
  · exact fun ⟨hm, hnot⟩ => ⟨hm, fun hfound => hnot (Or.inl hfound)⟩
  · exact fun ⟨hm, hnot⟩ => ⟨hm, fun h => h.elim hnot fun hmk => hk (hmk ▸ hm)⟩

/-- Nothing is derived where nothing is recorded. -/
theorem antecedentsAt_of_not_lt (hk : ¬ k < p.size) : p.antecedentsAt k = [] := by
  have hnone : p.record? k = none := Array.getElem?_eq_none (Nat.not_lt.mp hk)
  rw [antecedentsAt, hnone]

/-- Searches on from a stack, where some keys have been found.  What a record was derived from
goes on the stack unless it has been found. -/
def search (p : Proof) (found : List Nat) : List Nat → List Nat
  | [] => found
  | k :: stack =>
    if k ∈ found then p.search found stack
    else
      p.search (found ++ [k]) (((p.antecedentsAt k).filter (· ∉ found ++ [k])).reverse ++ stack)
termination_by stack => (p.unfound found, stack.length)
decreasing_by
  · exact Prod.Lex.right _ (Nat.lt_succ_self _)
  · rename_i hnew
    by_cases hk : k < p.size
    · exact Prod.Lex.left _ _ (unfound_concat_lt hk hnew)
    · rw [antecedentsAt_of_not_lt hk, unfound_concat_of_not_lt hk]
      exact Prod.Lex.right _ (Nat.lt_succ_self _)

/-- The keys of the records that a record rests on, by searching. -/
def searchCone (p : Proof) (key : Nat) : List Nat := (p.search [] [key]).mergeSort

/-! ## What every round preserves -/

/-- Whether a search is on its way from a key to all that it reaches. -/
structure Searching (p : Proof) (key : Nat) (found stack : List Nat) : Prop where
  /-- Nothing is found twice. -/
  nodup : found.Nodup
  /-- What is found or on the stack is reached. -/
  sound : ∀ k, k ∈ found ∨ k ∈ stack → Reaches p.antecedentsAt key k
  /-- The search began with the key. -/
  start : key ∈ found ∨ key ∈ stack
  /-- What a record found was derived from is found or on the stack. -/
  closed : ∀ k ∈ found, ∀ m ∈ p.antecedentsAt k, m ∈ found ∨ m ∈ stack

namespace Searching

theorem initial (p : Proof) (key : Nat) : p.Searching key [] [key] where
  nodup := List.nodup_nil
  sound k hk := by
    obtain rfl := List.mem_singleton.mp (hk.resolve_left List.not_mem_nil)
    exact .refl k
  start := Or.inr List.mem_cons_self
  closed _ hk := absurd hk List.not_mem_nil

/-- Passing over what was found before. -/
theorem pass (h : p.Searching key found (k :: stack)) (hk : k ∈ found) :
    p.Searching key found stack := by
  have hkeep : ∀ {m}, m ∈ found ∨ m ∈ k :: stack → m ∈ found ∨ m ∈ stack := by
    rintro m (hfound | hstack)
    · exact Or.inl hfound
    · rcases List.mem_cons.mp hstack with rfl | hstack
      · exact Or.inl hk
      · exact Or.inr hstack
  exact ⟨h.nodup, fun m hm => h.sound m (hm.imp_right (List.mem_cons_of_mem k)), hkeep h.start,
    fun j hj m hm => hkeep (h.closed j hj m hm)⟩

/-- Finding a key. -/
theorem visit (h : p.Searching key found (k :: stack)) (hk : k ∉ found) :
    p.Searching key (found ++ [k])
      (((p.antecedentsAt k).filter (· ∉ found ++ [k])).reverse ++ stack) := by
  have hreaches : Reaches p.antecedentsAt key k := h.sound k (Or.inr List.mem_cons_self)
  refine ⟨nodup_concat h.nodup hk, ?_, mem_concat_or_mem_append h.start, fun j hj m hm => ?_⟩
  · rintro m (hm | hm)
    · rcases List.mem_append.mp hm with hm | hm
      · exact h.sound m (Or.inl hm)
      · exact List.mem_singleton.mp hm ▸ hreaches
    · rcases List.mem_append.mp hm with hm | hm
      · have hbelow := (List.mem_filter.mp (List.mem_reverse.mp hm)).1
        exact hreaches.trans (.step hbelow (.refl m))
      · exact h.sound m (Or.inr (List.mem_cons_of_mem k hm))
  · rcases List.mem_append.mp hj with hj | hj
    · exact mem_concat_or_mem_append (h.closed j hj m hm)
    · -- what the new key was derived from is found already, or goes on the stack
      obtain rfl := List.mem_singleton.mp hj
      by_cases hfound : m ∈ found ++ [j]
      · exact Or.inl hfound
      · refine Or.inr (List.mem_append_left _ (List.mem_reverse.mpr ?_))
        exact List.mem_filter.mpr ⟨hm, decide_eq_true hfound⟩

/-- **A search finds what is reached, once each.** -/
theorem search (h : p.Searching key found stack) :
    (p.search found stack).Nodup ∧
      ∀ k, k ∈ p.search found stack ↔ Reaches p.antecedentsAt key k := by
  fun_induction Proof.search p found stack with
  | case1 found =>
    -- with an empty stack what is found is closed under derivation
    have hclosed : ∀ k ∈ found, ∀ m ∈ p.antecedentsAt k, m ∈ found := fun k hk m hm =>
      (h.closed k hk m hm).resolve_right List.not_mem_nil
    exact ⟨h.nodup, fun k => ⟨fun hk => h.sound k (Or.inl hk), fun hk =>
      hk.mem_of_closed hclosed (h.start.resolve_right List.not_mem_nil)⟩⟩
  | case2 found k stack hk ih => exact ih (h.pass hk)
  | case3 found k stack hk ih => exact ih (h.visit hk)

end Searching

/-- In a proof that can be reached the search finds the cone. -/
theorem Reachable.searchCone_eq (hp : p.Reachable) (key : Nat) :
    p.searchCone key = cone p.antecedentsAt key := by
  obtain ⟨hnodup, hmem⟩ := (Searching.initial p key).search
  exact mergeSort_eq hnodup (pairwise_cone key) fun k =>
    (hmem k).trans (mem_cone_iff hp.wellFormed.descends_antecedentsAt).symm

/-! ## What the lists should be -/

/-- Whether a list of keys is as it should be for the records that a record rests on. -/
structure ExactCone (p : Proof) (key : Nat) (keys : List Nat) : Prop where
  /-- The keys ascend, and so none of them is repeated. -/
  ascends : keys.Pairwise (· < ·)
  /-- They are those that are reached. -/
  mem_iff : ∀ k, k ∈ keys ↔ Reaches p.antecedentsAt key k
  /-- The one that it began with is the last. -/
  last : keys.getLast? = some key
  /-- What a record was derived from is listed before it. -/
  before : ∀ {before after : List Nat} {k : Nat}, keys = before ++ k :: after →
    ∀ m ∈ p.antecedentsAt k, m ∈ before

theorem Reachable.exactCone (hp : p.Reachable) (key : Nat) :
    p.ExactCone key (cone p.antecedentsAt key) := by
  have hdescends := hp.wellFormed.descends_antecedentsAt
  have hascends : (cone p.antecedentsAt key).Pairwise (· < ·) := pairwise_cone key
  refine ⟨hascends, fun k => mem_cone_iff hdescends, ?_, fun {before after k} hsplit m hm => ?_⟩
  · exact getLast?_of_forall_le hascends (mem_cone_self hdescends key) fun k hk =>
      ((mem_cone_iff hdescends).mp hk).le hdescends
  · have hk : k ∈ cone p.antecedentsAt key := by simp [hsplit]
    exact mem_of_split hascends hsplit (mem_cone_of_mem hdescends hk hm) (hdescends k m hm)

end Proof

namespace Circuit

/-- Whether a list of nodes is as it should be for the nodes that an edge depends on. -/
structure ExactCone (c : Circuit) (e : Edge) (nodes : List Nat) : Prop where
  /-- The nodes ascend, and so none of them is repeated. -/
  ascends : nodes.Pairwise (· < ·)
  /-- They are those that are reached, but for the constant. -/
  mem_iff : ∀ k, k ∈ nodes ↔ k ≠ 0 ∧ Reaches c.children e.node k
  /-- None is greater than the edge's own. -/
  le : ∀ k ∈ nodes, k ≤ e.node
  /-- What a node refers to is listed before it. -/
  before : ∀ {before after : List Nat} {k : Nat}, nodes = before ++ k :: after →
    ∀ m ∈ c.children k, m ≠ 0 ∧ m ∈ before

theorem Canonical.exactCone {c : Circuit} (hc : c.Canonical) (e : Edge) :
    c.ExactCone e (c.cone e) := by
  refine ⟨c.pairwise_cone e, fun k => hc.mem_cone_iff, fun k => hc.le_of_mem_cone,
    fun {before after k} hsplit m hm => ⟨Nat.ne_of_gt (hc.pos_of_mem_children hm), ?_⟩⟩
  have hk : k ∈ c.cone e := by simp [hsplit]
  exact mem_of_split (c.pairwise_cone e) hsplit (hc.mem_cone_of_mem_children hk hm)
    (hc.descends k m hm)

end Circuit

/-- **The searches are exact.**  From any record of a proof that can be reached the search through
the records ends, and in order it has found the records that are reached, each once: the last is
the one that it began with, and every record comes after those that it was derived from.  From any
edge of a circuit made by calls and cuts the search through the nodes ends as well, without ever
leaving what it indexes, and in order it has found the nodes that are reached, the constant left
out, each once: none is greater than the edge's own, and every node comes after those that it
refers to. -/
theorem searches_exact :
    (∀ p : Proof, p.Reachable → ∀ key < p.size,
      p.searchCone key = cone p.antecedentsAt key ∧ p.ExactCone key (p.searchCone key)) ∧
    (∀ (vocabulary : Nat → Prop) (c : Circuit), Circuit.Made vocabulary c →
      ∀ e : Edge, e.node < c.size →
        ∃ nodes, c.cone? e = some nodes ∧ nodes = c.cone e ∧ c.ExactCone e nodes) := by
  constructor
  · intro p hp key _
    rw [hp.searchCone_eq key]
    exact ⟨rfl, hp.exactCone key⟩
  · intro vocabulary c hc e he
    exact ⟨c.cone e, hc.canonical.cone?_eq he, rfl, hc.canonical.exactCone e⟩

/-- The derived clause `2 ∨ 3` of `splitRefutation` rests on three of its premises, and the
disjunction in `cluttered` on all the nodes before it but one. -/
theorem searches_exact_splitRefutation :
    splitRefutation.searchCone 5 = [0, 1, 4, 5] ∧ splitRefutation.ExactCone 5 [0, 1, 4, 5] ∧
      Circuit.cluttered.cone? (.ofNode 6 false) = some [1, 2, 3, 5, 6] ∧
      Circuit.cluttered.ExactCone (.ofNode 6 false) [1, 2, 3, 5, 6] := by
  obtain ⟨hsearch, hrecords⟩ :=
    searches_exact.1 splitRefutation reachable_splitRefutation 5 (by decide)
  obtain ⟨nodes, hnodes, hcone, hcircuit⟩ :=
    searches_exact.2 _ _ Circuit.made_cluttered (.ofNode 6 false) (by decide)
  have hbelow : cone splitRefutation.antecedentsAt 5 = [0, 1, 4, 5] := by decide
  have hchildren : Circuit.cluttered.cone (.ofNode 6 false) = [1, 2, 3, 5, 6] := by decide
  rw [hsearch, hbelow] at hrecords
  rw [hcone, hchildren] at hcircuit hnodes
  exact ⟨hsearch.trans hbelow, hrecords, hnodes, hcircuit⟩

end Interpolation
