import Mathlib.Algebra.GroupWithZero.Nat
import Interpolation.Proofs.Replays

/-!
# How large the circuit of a replay becomes

An edge has room for 31 bits of a position, and a replay does not look whether they are
enough.  Whether they are can be seen without replaying anything.  A literal of a premise
makes at most two nodes, one for its variable and one for the disjunction that it is taken
into, and an antecedent of a chain makes at most one, where it is joined.  So the nodes are
no more than what the records cost that are visited (`Replay.size_visitAll_le`).

* `Record.cost` --- what a record costs;
* `replayAddressable_of_cost` --- a refutation that costs less than there are edges is replayed
  into an addressable circuit.
-/

namespace Interpolation

/-- How many nodes are made for a record at most. -/
def Record.cost (r : Record) : Nat :=
  match r.source with
  | .premise => 2 * r.clause.length
  | .derived => r.antecedents.length

/-- How many nodes are made for the record at a key at most. -/
def Proof.costAt (p : Proof) (key : Nat) : Nat := ((p.record? key).map Record.cost).getD 0

namespace Circuit

theorem size_share_le (c : Circuit) (node : Node) : (c.share node).2.size ≤ c.size + 1 := by
  rcases share_cases c node with ⟨i, -, h⟩ | ⟨-, h⟩
  · rw [h]
    exact Nat.le_succ _
  · rw [h]
    simp [size]

theorem size_literal_le (c : Circuit) (l : Literal) : (c.literal l).2.size ≤ c.size + 1 :=
  size_share_le c (.input l.atom)

theorem size_and_le (c : Circuit) (a b : Edge) : (c.and a b).2.size ≤ c.size + 1 := by
  rcases and_cases c a b with ⟨h, -⟩ | ⟨h, -⟩ | ⟨h, -⟩ | ⟨l, r, -, -, -, h⟩
  · rw [h]
    exact Nat.le_succ _
  · rw [h]
    exact Nat.le_succ _
  · rw [h]
    exact Nat.le_succ _
  · rw [h]
    exact size_share_le c _

theorem size_or_le (c : Circuit) (a b : Edge) : (c.or a b).2.size ≤ c.size + 1 :=
  size_and_le c a.negate b.negate

end Circuit

variable {labels : Labelling}

/-- A literal of a premise makes two nodes at most. -/
theorem size_foldlM_addLiteral_le {part : Part} {id : Nat} {clause : Clause}
    {state result : Edge × Circuit}
    (h : clause.foldlM (addLiteral labels part id) state = .ok result) :
    result.2.size ≤ state.2.size + 2 * clause.length := by
  induction clause generalizing state with
  | nil =>
    obtain rfl : state = result := Except.ok.inj h
    exact Nat.le_refl _
  | cons l rest ih =>
    obtain ⟨middle, hl, hfold⟩ := foldlM_cons_eq_ok_iff.mp h
    have hrest := ih hfold
    have hmiddle : middle.2.size ≤ state.2.size + 2 := by
      obtain ⟨-, ⟨rfl, -⟩ | ⟨-, -, rfl⟩⟩ := addLiteral_cases hl
      · exact Nat.le_add_right _ 2
      · have hor := (state.2.literal l).2.size_or_le state.1 (state.2.literal l).1
        have hliteral := state.2.size_literal_le l
        omega
    rw [List.length_cons]
    omega

/-- An antecedent of a chain makes one node at most. -/
theorem size_foldl_join_le (labels : Labelling) (steps : List (Option Literal × Edge))
    (state : Edge × Circuit) :
    (steps.foldl (join labels) state).2.size ≤ state.2.size + steps.length := by
  induction steps generalizing state with
  | nil => exact Nat.le_refl _
  | cons step steps ih =>
    have hrest := ih (join labels state step)
    have hstep : (join labels state step).2.size ≤ state.2.size + 1 := by
      unfold join
      split
      · exact Nat.le_succ _
      · split
        · exact state.2.size_or_le state.1 step.2
        · exact state.2.size_and_le state.1 step.2
    rw [List.foldl_cons, List.length_cons]
    omega

variable {p : Proof} {config : Config} {replay result : Replay}

theorem length_of_mapM_eq_some {α β : Type} {f : α → Option β} {l : List α} {m : List β}
    (h : l.mapM f = some m) : m.length = l.length := by
  have hlength := congrArg List.length (mapM_eq_some_iff.mp h)
  rw [List.length_map, List.length_map] at hlength
  exact hlength.symm

/-- A record makes no more nodes than it costs. -/
theorem size_recordInterpolant_le {key : Nat} {record : Record} {made : Edge × Circuit}
    (h : recordInterpolant p labels config replay key record = .ok made) :
    made.2.size ≤ replay.circuit.size + record.cost := by
  unfold recordInterpolant at h
  cases hsource : record.source with
  | derived =>
    rw [hsource] at h
    obtain ⟨last, edge, rest, run, hsteps, -, -, rfl⟩ := derivedInterpolant_cases h
    have hjoin := size_foldl_join_le labels (run.pivots.zip (rest.map (·.2))) (edge, replay.circuit)
    have hlength := length_of_mapM_eq_some hsteps
    rw [List.length_cons, List.length_reverse] at hlength
    rw [List.length_zip, List.length_map] at hjoin
    simp only [Record.cost, hsource]
    dsimp only at hjoin
    omega
  | premise =>
    rw [hsource] at h
    cases hpart : labels.partAt? key with
    | none =>
      rw [hpart] at h
      exact absurd h (by simp)
    | some part =>
      rw [hpart] at h
      simp only [Record.cost, hsource]
      exact size_foldlM_addLiteral_le h

namespace Replay

theorem size_foldlM_visit_le {keys : List Nat}
    (h : keys.foldlM (visit p labels config) replay = .ok result) :
    result.circuit.size ≤ replay.circuit.size + (keys.map p.costAt).sum := by
  induction keys generalizing replay with
  | nil =>
    obtain rfl : replay = result := Except.ok.inj h
    exact Nat.le_refl _
  | cons key keys ih =>
    obtain ⟨middle, hvisit, h⟩ := foldlM_cons_eq_ok_iff.mp h
    obtain ⟨record, made, hrecord, hmade, rfl⟩ := visit_cases hvisit
    have hrest := ih h
    have hrecorded : p.costAt key = record.cost := by rw [Proof.costAt, hrecord]; rfl
    have hsize := size_recordInterpolant_le hmade
    rw [List.map_cons, List.sum_cons]
    dsimp only at hrest
    omega

/-- **A replay makes no more nodes than the records cost that it visits.** -/
theorem size_visitAll_le {keys : List Nat} (h : visitAll p labels config keys = .ok result) :
    result.circuit.size ≤ 1 + (keys.map p.costAt).sum :=
  size_foldlM_visit_le h

end Replay

/-- **A refutation that costs less than there are edges is replayed into an addressable
circuit.** -/
theorem replayAddressable_of_cost (labels : Labelling) (config : Config)
    (h : ∀ witness, witnessOf p = .ok witness →
      ((cone p.antecedentsAt witness).map p.costAt).sum < nodeLimit) :
    p.ReplayAddressable labels config := by
  intro witness replay hwitness hreplay
  have hsize := Replay.size_visitAll_le hreplay
  have hcost := h witness hwitness
  show replay.circuit.size ≤ nodeLimit
  omega

/-- Replaying `splitRefutation` costs 22 nodes at most. -/
theorem replayAddressable_splitRefutation (labels : Labelling) (config : Config) :
    splitRefutation.ReplayAddressable labels config := by
  refine replayAddressable_of_cost labels config fun witness hwitness => ?_
  obtain rfl : 6 = witness := Except.ok.inj hwitness
  decide

end Interpolation
