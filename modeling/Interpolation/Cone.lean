/-!
# What is reachable from a place

The records of a proof and the nodes of a circuit are both kept in the order in which they were
made, and each refers only to what was made before it.  Numbers standing for such things, with
the list of numbers that each refers to, are a graph in which every step goes down.

So what is reachable from a place needs no search.  One sweep from the place downwards settles
it: when the sweep comes to a number, everything that could have asked for it has been seen
already.  The sweep meets the numbers in descending order and puts each in front of what it
meets later turned around, so the *cone* it leaves behind ascends, and everything in it comes
after all that it refers to.

* `mem_cone_iff` --- where every step goes down, the cone is exactly what is reachable;
* `pairwise_cone` --- the cone ascends strictly;
* `mem_cone_self`, `mem_cone_of_mem` --- the place is in its cone, and so is whatever a member
  refers to.
-/

namespace Interpolation

/-- What can be reached from a number by going, any number of times, to something referred to. -/
inductive Reaches (below : Nat → List Nat) : Nat → Nat → Prop
  /-- A number reaches itself. -/
  | refl (n : Nat) : Reaches below n n
  /-- A number reaches what anything it refers to reaches. -/
  | step {n m k : Nat} : m ∈ below n → Reaches below m k → Reaches below n k

/-- Whether every number refers to smaller numbers only. -/
def Descends (below : Nat → List Nat) : Prop := ∀ n, ∀ m ∈ below n, m < n

/-- Goes down from below `n`, keeping what is wanted and wanting in turn what that refers to. -/
def sweep (below : Nat → List Nat) : Nat → List Nat → List Nat
  | 0, _ => []
  | n + 1, wanted =>
    if n ∈ wanted then sweep below n (below n ++ wanted) ++ [n] else sweep below n wanted

/-- The numbers reachable from `start`, in ascending order. -/
def cone (below : Nat → List Nat) (start : Nat) : List Nat := sweep below (start + 1) [start]

variable {below : Nat → List Nat}

theorem Reaches.trans {a b c : Nat} (h : Reaches below a b) (g : Reaches below b c) :
    Reaches below a c := by
  induction h with
  | refl => exact g
  | step hm _ ih => exact .step hm (ih g)

/-- Where every step goes down, nothing above is reachable. -/
theorem Reaches.le (hb : Descends below) {a b : Nat} (h : Reaches below a b) : b ≤ a := by
  induction h with
  | refl => exact Nat.le_refl _
  | step hm _ ih => exact Nat.le_trans ih (Nat.le_of_lt (hb _ _ hm))

theorem lt_of_mem_sweep {n k : Nat} {wanted : List Nat} (h : k ∈ sweep below n wanted) :
    k < n := by
  induction n generalizing wanted with
  | zero => simp [sweep] at h
  | succ n ih =>
    simp only [sweep] at h
    split at h
    · rcases List.mem_append.1 h with h | h
      · exact Nat.lt_succ_of_lt (ih h)
      · simp only [List.mem_singleton] at h; omega
    · exact Nat.lt_succ_of_lt (ih h)

theorem pairwise_sweep (n : Nat) (wanted : List Nat) :
    (sweep below n wanted).Pairwise (· < ·) := by
  induction n generalizing wanted with
  | zero => simp [sweep]
  | succ n ih =>
    simp only [sweep]
    split
    · refine List.pairwise_append.2 ⟨ih _, by simp, fun a ha b hb => ?_⟩
      simp only [List.mem_singleton] at hb
      exact hb ▸ lt_of_mem_sweep ha
    · exact ih _

/-- The sweep keeps exactly what the wanted numbers it still has before it reach. -/
theorem mem_sweep_iff (hb : Descends below) {n k : Nat} {wanted : List Nat} :
    k ∈ sweep below n wanted ↔ ∃ w ∈ wanted, w < n ∧ Reaches below w k := by
  induction n generalizing wanted with
  | zero => simp [sweep]
  | succ n ih =>
    simp only [sweep]
    split
    · rename_i hn
      rw [List.mem_append, ih, List.mem_singleton]
      constructor
      · rintro (⟨w, hw, hlt, hr⟩ | rfl)
        · rcases List.mem_append.1 hw with hw | hw
          · exact ⟨n, hn, Nat.lt_succ_self n, .step hw hr⟩
          · exact ⟨w, hw, Nat.lt_succ_of_lt hlt, hr⟩
        · exact ⟨k, hn, Nat.lt_succ_self k, .refl k⟩
      · rintro ⟨w, hw, hlt, hr⟩
        rcases Nat.lt_or_ge w n with h | h
        · exact .inl ⟨w, List.mem_append_right _ hw, h, hr⟩
        · obtain rfl : w = n := by omega
          cases hr with
          | refl => exact .inr rfl
          | step hm hr => exact .inl ⟨_, List.mem_append_left _ hm, hb _ _ hm, hr⟩
    · rename_i hn
      rw [ih]
      constructor
      · rintro ⟨w, hw, hlt, hr⟩
        exact ⟨w, hw, Nat.lt_succ_of_lt hlt, hr⟩
      · rintro ⟨w, hw, hlt, hr⟩
        have : w ≠ n := fun h => hn (h ▸ hw)
        exact ⟨w, hw, by omega, hr⟩

/-- Where every step goes down, the cone is exactly what is reachable. -/
theorem mem_cone_iff (hb : Descends below) {start k : Nat} :
    k ∈ cone below start ↔ Reaches below start k := by
  simp [cone, mem_sweep_iff hb]

/-- The cone ascends strictly. -/
theorem pairwise_cone (start : Nat) : (cone below start).Pairwise (· < ·) :=
  pairwise_sweep _ _

theorem mem_cone_self (hb : Descends below) (start : Nat) : start ∈ cone below start :=
  (mem_cone_iff hb).2 (.refl start)

theorem mem_cone_of_mem (hb : Descends below) {start k m : Nat} (h : k ∈ cone below start)
    (hm : m ∈ below k) : m ∈ cone below start :=
  (mem_cone_iff hb).2 (((mem_cone_iff hb).1 h).trans (.step hm (.refl m)))

end Interpolation
