import Mathlib.Data.Set.Card
import Interpolation.Proofs.ConeCopies
import Interpolation.Proofs.InterpolantVocabulary

/-!
# When an encoding succeeds, and how long it is

An encoding takes one fresh variable for each conjunction that the output reaches: not for each
node, not for conjunctions made besides, and once for a conjunction that is reached in several
ways.  Hence whether it succeeds can be told from the circuit and the counter (`Answers`).  The
counter is refused when it is no atom or does not lie above the variables in use.  Otherwise the
atoms run out when the *last* fresh variable would be too large; the counter that is returned may
be.  A constant output takes no variable, and looks at no counter.

What is taken from one counter on lies below the counter that is returned, and so encodings that
follow one another never take the same variable.

* `ncard_reachedConjunctions` --- how many fresh variables are taken;
* `made_answers` --- the answer for each counter;
* `encode_succeeds_exactly` --- the answers, and what they make of encodings in a row.
-/

namespace Interpolation

/-- The conjunctions that an edge reaches. -/
def Circuit.reachedConjunctions (c : Circuit) (e : Edge) : Set Nat :=
  {k | Reaches c.children e.node k ∧ ∃ l r, c.nodes[k]? = some (.and l r)}

namespace Encoding

/-- Whether a counter cannot be used for an output: it is no atom, or a variable that the output
reaches does not lie below it. -/
def Unusable (c : Circuit) (e : Edge) (next : Nat) : Prop :=
  next = 0 ∨ atomMax < next ∨
    ∃ k atom : Nat, Reaches c.children e.node k ∧ c.nodes[k]? = some (.input atom) ∧ next ≤ atom

/-- Whether variables are taken from a counter on, the last of them past the largest atom. -/
def Exhausts (next count : Nat) : Prop := 0 < count ∧ atomMax < next + count - 1

/-- What the answer of an encoding is to be. -/
structure Answers (c : Circuit) (e : Edge) (next : Nat) : Prop where
  /-- A constant output leaves the counter alone, whatever it is. -/
  constant : e.node = 0 → encode c e next = .ok (if e.negated then [] else [[]], next)
  /-- For another output the counter is refused exactly if it cannot be used. -/
  refused : e.node ≠ 0 →
    (encode c e next = .error (.invalidFreshVariable next) ↔ Unusable c e next)
  /-- The atoms run out exactly if there are too few for the conjunctions. -/
  exhausted : e.node ≠ 0 →
    (encode c e next = .error .atomsExhausted ↔
      ¬ Unusable c e next ∧ Exhausts next (c.reachedConjunctions e).ncard)
  /-- In all other cases there are three clauses for each conjunction and one for the output,
  and the counter goes up by one for each conjunction. -/
  encoded : e.node ≠ 0 → ¬ Unusable c e next →
    ¬ Exhausts next (c.reachedConjunctions e).ncard →
      ∃ clauses, encode c e next = .ok (clauses, next + (c.reachedConjunctions e).ncard) ∧
        clauses.length = 3 * (c.reachedConjunctions e).ncard + 1
  /-- Of the variables from the counter on, the clauses speak of those below the counter that
  is returned. -/
  fresh : ∀ clauses following, encode c e next = .ok (clauses, following) →
    ∀ atom, next ≤ atom → ((∃ clause ∈ clauses, atom ∈ clause.atoms) ↔ atom < following)

/-! ## What is counted -/

theorem length_gateClauses (g x y : Literal) :
    (gateClauses g (.literal x) (.literal y)).length = 3 := rfl

/-- Three clauses define a fresh variable. -/
theorem Layered.length {c : Circuit} {next count : Nat} {x y : Nat → Literal}
    {asserted clauses : List Clause} (h : Layered c next count x y asserted clauses) :
    clauses.length = 3 * count + asserted.length := by
  rw [h.clauses_eq, List.length_append, List.length_flatMap]
  simp only [length_gateClauses, List.map_const', List.length_range', List.sum_replicate_nat]
  omega

variable {c : Circuit} {e : Edge} {next : Nat}

/-- **As many fresh variables are taken as conjunctions are reached.** -/
theorem ncard_reachedConjunctions (hc : c.Canonical) (e : Edge) :
    (c.reachedConjunctions e).ncard = gateCount c e := by
  have hset : c.reachedConjunctions e = (gates c (c.cone e)).toFinset := by
    ext k
    rw [Finset.mem_coe, List.mem_toFinset, mem_gates_iff, hc.mem_cone_iff]
    refine and_congr_left fun ⟨l, r, hnode⟩ => (and_iff_right ?_).symm
    exact hc.ne_zero_of_getElem? hnode Node.noConfusion
  rw [hset, Set.ncard_coe_finset, List.toFinset_card_of_nodup (nodup_gates c e), gateCount]

/-- The counter is refused for no other reason. -/
theorem unusable_iff (hc : c.Canonical) : Unusable c e next ↔ fresh c e next = false := by
  rw [← Bool.not_eq_true, fresh_iff, Unusable]
  have hatoms : (∃ k atom : Nat, Reaches c.children e.node k ∧
      c.nodes[k]? = some (.input atom) ∧ next ≤ atom) ↔ ¬ ∀ atom ∈ c.atoms e, atom < next := by
    push Not
    constructor
    · rintro ⟨k, atom, hreach, hnode, hle⟩
      have hne := hc.ne_zero_of_getElem? hnode Node.noConfusion
      exact ⟨atom, Circuit.mem_atoms_iff.mpr ⟨k, hc.mem_cone_iff.mpr ⟨hne, hreach⟩, hnode⟩, hle⟩
    · rintro ⟨atom, hatom, hle⟩
      obtain ⟨k, hk, hnode⟩ := Circuit.mem_atoms_iff.mp hatom
      exact ⟨k, atom, (hc.mem_cone_iff.mp hk).2, hnode, hle⟩
  rw [hatoms]
  have : atomMax < next ↔ ¬ next ≤ atomMax := Nat.not_le.symm
  tauto

/-- The last variable is an atom just when the counter after it is at most one more. -/
theorem exhausts_iff {count : Nat} (hnext : next ≤ atomMax) :
    Exhausts next count ↔ atomMax + 1 < next + count := by
  unfold Exhausts
  omega

/-! ## The answers -/

section

variable (hmade : c.Made (· ≠ 0)) (he : e.node < c.size)

include hmade he

/-- The clauses speak of the fresh variables that are taken, and of no others. -/
theorem mem_atoms_of_encode {following : Nat} {clauses : List Clause}
    (h : encode c e next = .ok (clauses, following)) {atom : Nat} (hatom : next ≤ atom) :
    (∃ clause ∈ clauses, atom ∈ clause.atoms) ↔ atom < following := by
  obtain ⟨⟨x, y, asserted, hlayered⟩, rfl⟩ :=
    layered_of_encode hmade.canonical hmade.built.over he h
  constructor
  · rintro ⟨clause, hclause, hmem⟩
    obtain ⟨l, hl, rfl⟩ := List.mem_map.mp hmem
    rcases (hlayered.literal clause hclause l hl).2 with ⟨-, hbelow⟩ | ⟨-, hlt⟩
    · omega
    · exact hlt
  · intro hlt
    exact hlayered.occurs hatom hlt

/-- **The answer of an encoding, for each counter.** -/
theorem made_answers (next : Nat) : Answers c e next := by
  have hc := hmade.canonical
  have hcount := ncard_reachedConjunctions hc e
  refine ⟨fun h0 => ?_, fun h0 => ?_, fun h0 => ?_, fun h0 husable hexhausts => ?_,
    fun clauses following h atom => mem_atoms_of_encode hmade he h⟩
  · exact encode_constant c (by simpa [Edge.isConstant] using h0) next
  · rw [unusable_iff hc]
    rcases encode_cases hc he h0 next with ⟨hfresh, h⟩ | ⟨hfresh, -, h⟩ | ⟨hfresh, -, h⟩
    · simp [h, hfresh]
    · simp [h, hfresh]
    · simp [h, hfresh]
  · rw [unusable_iff hc, hcount]
    rcases encode_cases hc he h0 next with ⟨hfresh, h⟩ | ⟨hfresh, hlt, h⟩ | ⟨hfresh, hle, h⟩
    · simp [h, hfresh]
    · simp [h, hfresh, exhausts_iff (fresh_iff.mp hfresh).2.1, hlt]
    · simp [h, hfresh, exhausts_iff (fresh_iff.mp hfresh).2.1, hle]
  · rw [unusable_iff hc] at husable
    rw [hcount] at hexhausts ⊢
    have hfresh : fresh c e next = true := by simpa using husable
    rw [exhausts_iff (fresh_iff.mp hfresh).2.1] at hexhausts
    rcases encode_cases hc he h0 next with ⟨hnot, -⟩ | ⟨-, hlt, -⟩ | ⟨-, -, h⟩
    · exact absurd hnot husable
    · exact absurd hlt hexhausts
    · obtain ⟨henc, -, -⟩ := encodable_of_encode hc hmade.built.over he h0 h
      exact ⟨_, h, henc.layered.length⟩

end

/-! ## Encodings in a row -/

/-- The ranges of the variables that encodings take one after another, each from the counter
that the last one to succeed returned. -/
def freshRanges : Nat → List (Circuit × Edge) → List (List Nat)
  | _, [] => []
  | next, (c, e) :: rest =>
    match encode c e next with
    | .ok (_, following) => List.range' next (following - next) :: freshRanges following rest
    | .error _ => freshRanges next rest

theorem freshRanges_of_ok {c : Circuit} {e : Edge} {clauses : List Clause} {next following : Nat}
    (h : encode c e next = .ok (clauses, following)) (rest : List (Circuit × Edge)) :
    freshRanges next ((c, e) :: rest) =
      List.range' next (following - next) :: freshRanges following rest := by
  rw [freshRanges, h]

theorem freshRanges_of_error {c : Circuit} {e : Edge} {next : Nat} {error : InterpolationError}
    (h : encode c e next = .error error) (rest : List (Circuit × Edge)) :
    freshRanges next ((c, e) :: rest) = freshRanges next rest := by
  rw [freshRanges, h]

/-- The counter does not go down. -/
theorem le_following (hmade : c.Made (· ≠ 0)) (he : e.node < c.size) {clauses : List Clause}
    {following : Nat} (h : encode c e next = .ok (clauses, following)) : next ≤ following := by
  obtain ⟨-, rfl⟩ := layered_of_encode hmade.canonical hmade.built.over he h
  exact Nat.le_add_right _ _

/-- Whether all requests are edges of circuits that were made over nonzero variables. -/
def AllMade (requests : List (Circuit × Edge)) : Prop :=
  ∀ request ∈ requests, request.1.Made (· ≠ 0) ∧ request.2.node < request.1.size

/-- Nothing is taken from below the counter. -/
theorem le_of_mem_freshRanges {requests : List (Circuit × Edge)} (hreq : AllMade requests) :
    ∀ {next : Nat}, ∀ range ∈ freshRanges next requests, ∀ atom ∈ range, next ≤ atom := by
  induction requests with
  | nil =>
    intro next range hrange
    exact absurd hrange List.not_mem_nil
  | cons request rest ih =>
    intro next range hrange atom hatom
    obtain ⟨⟨hmade, he⟩, hrest⟩ := List.forall_mem_cons.mp hreq
    cases h : encode request.1 request.2 next with
    | error error =>
      rw [freshRanges_of_error h] at hrange
      exact ih hrest range hrange atom hatom
    | ok answer =>
      rw [freshRanges_of_ok h] at hrange
      rcases List.mem_cons.mp hrange with rfl | hrange
      · exact (List.mem_range'_1.mp hatom).1
      · exact Nat.le_trans (le_following hmade he h) (ih hrest range hrange atom hatom)

/-- **No variable is taken twice.** -/
theorem pairwise_freshRanges {requests : List (Circuit × Edge)} (hreq : AllMade requests) :
    ∀ next, (freshRanges next requests).Pairwise List.Disjoint := by
  induction requests with
  | nil =>
    intro next
    exact List.Pairwise.nil
  | cons request rest ih =>
    intro next
    obtain ⟨⟨hmade, he⟩, hrest⟩ := List.forall_mem_cons.mp hreq
    cases h : encode request.1 request.2 next with
    | error error =>
      rw [freshRanges_of_error h]
      exact ih hrest next
    | ok answer =>
      rw [freshRanges_of_ok h]
      refine List.pairwise_cons.mpr ⟨fun range hrange atom hfirst hlater => ?_, ih hrest _⟩
      -- the first range ends below the counter from which the later ones are taken
      have hge := le_of_mem_freshRanges hrest range hrange atom hlater
      have hlt := (List.mem_range'_1.mp hfirst).2
      have := le_following hmade he h
      omega

/-- **When encodings succeed, how long they are, and that they share no fresh variable.** -/
theorem encode_succeeds_exactly :
    (∀ (c : Circuit) (e : Edge), c.Made (· ≠ 0) → e.node < c.size → ∀ next, Answers c e next) ∧
      ∀ requests, AllMade requests →
        ∀ next, (freshRanges next requests).Pairwise List.Disjoint :=
  ⟨fun _ _ hmade he => made_answers hmade he, fun _ hreq => pairwise_freshRanges hreq⟩

/-- The output of `cluttered` reaches two of its three conjunctions. -/
theorem encode_succeeds_exactly_cluttered :
    Circuit.cluttered.Made (· ≠ 0) ∧ 6 < Circuit.cluttered.size ∧
      (Circuit.cluttered.reachedConjunctions (.ofNode 6 false)).ncard = 2 ∧
      Answers Circuit.cluttered (.ofNode 6 false) 10 ∧
      encode Circuit.cluttered (.ofNode 6 false) 3 = .error (.invalidFreshVariable 3) ∧
      (∃ clauses,
        encode Circuit.cluttered (.ofNode 6 false) (atomMax - 1) = .ok (clauses, atomMax + 1) ∧
        clauses.length = 7) ∧
      encode Circuit.cluttered (.ofNode 6 false) atomMax = .error .atomsExhausted ∧
      freshRanges 10 [(Circuit.cluttered, .ofNode 6 false), (Circuit.cluttered, .ofNode 0 true),
        (Circuit.cluttered, .ofNode 5 true)] = [[10, 11], [], [12]] ∧
      [[10, 11], [], [12]].Pairwise List.Disjoint := by
  have hmade := Circuit.made_cluttered
  have hcount : (Circuit.cluttered.reachedConjunctions (.ofNode 6 false)).ncard = 2 :=
    ncard_reachedConjunctions hmade.canonical _
  have hranges : freshRanges 10 [(Circuit.cluttered, .ofNode 6 false),
      (Circuit.cluttered, .ofNode 0 true), (Circuit.cluttered, .ofNode 5 true)] =
        [[10, 11], [], [12]] := rfl
  have hreq : AllMade [(Circuit.cluttered, .ofNode 6 false), (Circuit.cluttered, .ofNode 0 true),
      (Circuit.cluttered, .ofNode 5 true)] := by
    simp only [AllMade, List.forall_mem_cons]
    exact ⟨⟨hmade, by decide⟩, ⟨hmade, by decide⟩, ⟨hmade, by decide⟩, List.forall_mem_nil _⟩
  exact ⟨hmade, by decide, hcount, encode_succeeds_exactly.1 _ _ hmade (by decide) 10, rfl,
    ⟨_, rfl, rfl⟩, rfl, hranges, hranges ▸ encode_succeeds_exactly.2 _ hreq 10⟩

end Encoding
end Interpolation
