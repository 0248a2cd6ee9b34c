import Interpolation.Proofs.InterpolantSoundness
import Interpolation.Proofs.ReplayFaults

/-!
# A replay on its way

An interpolant is read off a replay once that has come to the empty clause.  But the replay is
right at every moment before as well: as soon as a record has an edge, the edge stands between
the premises of part A and those of part B that were visited up to then, as far as the record's
clause goes, and nothing that is visited later can change that, unless the circuit has by then
more nodes than there are edges.  What the edge depends on, and what the clause follows from, is
as it should be whatever the size of the circuit.

For this it is enough that the records visited are closed under what they were derived from.
That is so of the records of a cone up to any one of them, since cones ascend and derivations go
down (`mem_of_isPrefix`).  No other premise has a part in the derivation of a clause, so none
else has to be true for the clause to follow, and the circuit has no inputs but those made for
shared variables of the premises of part A among them (`Replay.Carries`).

* `Replay.Mediates` --- how an edge stands between the two parts;
* `visitAll_mediates` --- every edge found on the way stands so.
-/

namespace Interpolation

/-- Where a list ascends, what is less than a member of a prefix is in the prefix. -/
theorem mem_of_isPrefix {before l : List Nat} (hl : l.Pairwise (· < ·)) (h : before <+: l)
    {k m : Nat} (hk : k ∈ before) (hm : m ∈ l) (hlt : m < k) : m ∈ before := by
  obtain ⟨after, rfl⟩ := h
  refine (List.mem_append.mp hm).resolve_right fun hafter => ?_
  have hkm : k < m := (List.pairwise_append.mp hl).2.2 k hk m hafter
  exact absurd hlt (Nat.lt_asymm hkm)

/-- Where both properties hold that a function separates, the clause is true. -/
theorem Separates.satisfiedBy {labels : Labelling} {A B : (Nat → Bool) → Prop}
    {f : (Nat → Bool) → Bool} {clause : Clause} (h : Separates labels A B f clause)
    {v : Nat → Bool} (hA : A v) (hB : B v) : clause.satisfiedBy v = true := by
  rcases h.left v hA with hf | ⟨l, hl, hlv, -⟩
  · obtain ⟨l, hl, hlv, -⟩ := h.right v hB hf
    exact Clause.satisfiedBy_iff.mpr ⟨l, hl, hlv⟩
  · exact Clause.satisfiedBy_iff.mpr ⟨l, hl, hlv⟩

theorem PartialInterpolant.exists_record {p : Proof} {labels : Labelling} {config : Config}
    {key : Nat} {f : (Nat → Bool) → Bool} (h : PartialInterpolant p labels config key f) :
    ∃ record, p.record? key = some record := by
  cases h with
  | premise hrecord => exact ⟨_, hrecord⟩
  | derived hrecord => exact ⟨_, hrecord⟩

/-- Whether all premises of a part that are recorded at the keys listed are true. -/
def Labelling.SatisfiesAt (labels : Labelling) (p : Proof) (part : Part) (keys : List Nat)
    (v : Nat → Bool) : Prop :=
  ∀ key ∈ keys, ∀ clause, labels.PremiseAt p part key clause → clause.satisfiedBy v = true

/-- Whether an edge stands between the premises of the two parts that are recorded at some keys, as
far as a clause goes. -/
structure Replay.Mediates (p : Proof) (labels : Labelling) (keys : List Nat) (replay : Replay)
    (clause : Clause) (edge : Edge) : Prop where
  /-- Where the premises of part A are true so is the edge, or a literal that is local to A. -/
  left : replay.circuit.Addressable → ∀ v, labels.SatisfiesAt p .a keys v →
    replay.circuit.evaluate edge v = true ∨
      ∃ l ∈ clause, l.holds v = true ∧ labels.scopeOf l.atom = .localTo .a
  /-- Where the premises of part B are true and the edge is, so is a literal that is shared or is
  local to B. -/
  right : replay.circuit.Addressable → ∀ v, labels.SatisfiesAt p .b keys v →
    replay.circuit.evaluate edge v = true → ∃ l ∈ clause, l.holds v = true ∧
      (labels.scopeOf l.atom = .shared ∨ labels.scopeOf l.atom = .localTo .b)
  /-- Every variable that the edge depends on is shared, and occurs in a premise of part A. -/
  atoms : ∀ atom ∈ replay.circuit.atoms edge, ∃ key ∈ keys, labels.SharedAt p key atom
  /-- The clause follows from the premises of both parts together. -/
  follows : ∀ v, labels.SatisfiesAt p .a keys v → labels.SatisfiesAt p .b keys v →
    clause.satisfiedBy v = true

/-- **Every edge found on the way of a replay stands between the parts.**  Let derivations be
checked, and let a replay have come without error through some of the records that the witness,
or any other record, rests on, in order from the first.  Then each of them has an edge.  As long as
the circuit is addressable, the edge is true where the premises of part A among them are, or else a
literal of its clause that is local to A is; and where those of part B are true and the edge is,
some other literal of the clause is true.  In any case every variable of the edge is shared and
occurs in one of those premises of part A, and the clause follows from the premises of both
parts. -/
theorem visitAll_mediates {p : Proof} (hp : p.Reachable) {labels : Labelling} {config : Config}
    (hcheck : config.checkDerivations.value = true) {witness : Nat} {keys : List Nat}
    (hkeys : keys <+: cone p.antecedentsAt witness) {replay : Replay}
    (h : Replay.visitAll p labels config keys = .ok replay) :
    ∀ key ∈ keys, ∃ record edge, p.record? key = some record ∧
      replay.interpolants.find? key = some edge ∧
      replay.Mediates p labels keys record.clause edge := by
  have hwell := hp.wellFormed
  have hcarries : replay.Carries (fun atom => ∃ key ∈ keys, labels.SharedAt p key atom) p labels
      config := Replay.Carries.visitAll (fun key hkey _ hatom => ⟨key, hkey, hatom⟩) h
  -- the records visited are closed under what they were derived from
  have hclosed : ∀ {key record}, key ∈ keys → p.record? key = some record →
      ∀ k ∈ record.antecedents, k ∈ keys := by
    intro key record hkey hrecord k hk
    have hbelow : k ∈ p.antecedentsAt key := by rwa [Proof.antecedentsAt, hrecord]
    have hdescends := hwell.descends_antecedentsAt
    exact mem_of_isPrefix (pairwise_cone witness) hkeys hkey
      (mem_cone_of_mem hdescends (hkeys.subset hkey) hbelow) (hdescends key k hbelow)
  intro key hkey
  obtain ⟨edge, hedge⟩ := Replay.exists_find? h (Or.inl hkey)
  obtain ⟨f, hpartial, hvalue⟩ := hcarries.stands hedge
  obtain ⟨record, hrecord⟩ := hpartial.exists_record
  have hsep : Separates labels (labels.SatisfiesAt p .a keys) (labels.SatisfiesAt p .b keys) f
      record.clause :=
    hpartial.separates_of_closed (K := (· ∈ keys)) hwell hcheck hclosed
      (fun hk hclause _ hv => hv _ hk _ hclause) (fun hk hclause _ hv => hv _ hk _ hclause) hkey
      hrecord
  refine ⟨record, edge, hrecord, hedge, fun hsize v hv => ?_, fun hsize v hv hf => ?_,
    fun atom hatom => ?_, fun v hA hB => hsep.satisfiedBy hA hB⟩
  · rw [hvalue hsize]
    exact hsep.left v hv
  · rw [hvalue hsize] at hf
    obtain ⟨l, hl, hlv, hscope⟩ := hsep.right v hv hf
    refine ⟨l, hl, hlv, ?_⟩
    cases hl' : labels.scopeOf l.atom with
    | shared => exact Or.inl rfl
    | localTo part =>
      cases part with
      | a => exact absurd hl' hscope
      | b => exact Or.inr rfl
  · obtain ⟨k, -, hk⟩ := Circuit.mem_atoms_iff.mp hatom
    exact hcarries.built.over hk

/-- A replay of `splitRefutation` that has come as far as the derived clause `2 ∨ 3`. -/
theorem visitAll_mediates_splitRefutation :
    ∃ replay, Replay.visitAll splitRefutation splitLabelling {} [0, 1, 2, 3, 4, 5] = .ok replay ∧
      replay.circuit.Addressable ∧
      ∀ key ∈ [0, 1, 2, 3, 4, 5], ∃ record edge, splitRefutation.record? key = some record ∧
        replay.interpolants.find? key = some edge ∧
        replay.Mediates splitRefutation splitLabelling [0, 1, 2, 3, 4, 5] record.clause edge := by
  have hprefix : [0, 1, 2, 3, 4, 5] <+: cone splitRefutation.antecedentsAt 6 := by decide
  obtain ⟨replay, hreplay⟩ :
      ∃ replay, Replay.visitAll splitRefutation splitLabelling {} [0, 1, 2, 3, 4, 5] = .ok replay :=
    ⟨_, rfl⟩
  have hsize : replay.circuit.Addressable :=
    Nat.le_trans (Replay.size_visitAll_le hreplay) (by decide)
  exact ⟨replay, hreplay, hsize, visitAll_mediates reachable_splitRefutation rfl hprefix hreplay⟩

end Interpolation
