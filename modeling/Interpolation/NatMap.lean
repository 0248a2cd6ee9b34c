/-!
# Finite maps with numbers for keys

Clauses have identifiers, records have keys, nodes have positions and variables have names,
and all of them are natural numbers; a `NatMap` stores something under each of finitely many
of them.  The entries are a list in strictly ascending order of keys, and that is part of the
type.  So a map is determined by what it finds (`NatMap.ext`), its entries come out in an
order that a reader can rely on, and equality of maps can be decided.

* `find?_insert`, `find?_erase` --- what a map finds after one change;
* `ext` --- two maps that find the same are the same;
* `mem_ascendingOf`, `pairwise_ascendingOf` --- a list put in ascending order, without
  repetition.
-/

namespace Interpolation

/-- A finite map from natural numbers, as its entries in ascending order of keys. -/
structure NatMap (α : Type) where
  /-- The entries, each a key with what is stored there. -/
  entries : List (Nat × α)
  /-- Keys ascend strictly, so none is there twice. -/
  ascending : entries.Pairwise (fun a b => a.1 < b.1)
  deriving DecidableEq, Repr

namespace NatMap

variable {α : Type}

/-- The map that stores nothing. -/
def empty : NatMap α := ⟨[], .nil⟩

instance : Inhabited (NatMap α) := ⟨empty⟩

instance : EmptyCollection (NatMap α) := ⟨empty⟩

/-- What the first entry under `k` holds. -/
def findIn (k : Nat) : List (Nat × α) → Option α
  | [] => none
  | e :: rest => if e.1 = k then some e.2 else findIn k rest

/-- Ascending entries with `a` stored under `k`. -/
def insertIn (k : Nat) (a : α) : List (Nat × α) → List (Nat × α)
  | [] => [(k, a)]
  | e :: rest =>
    if k < e.1 then (k, a) :: e :: rest
    else if k = e.1 then (k, a) :: rest
    else e :: insertIn k a rest

theorem mem_insertIn {k : Nat} {a : α} {e : Nat × α} {l : List (Nat × α)}
    (h : e ∈ insertIn k a l) : e = (k, a) ∨ e ∈ l := by
  induction l with
  | nil => simpa [insertIn] using h
  | cons d rest ih =>
    simp only [insertIn] at h
    split at h
    · simpa using h
    · split at h <;> simp only [List.mem_cons] at h ⊢
      · exact h.imp_right .inr
      · rcases h with h | h
        · exact .inr (.inl h)
        · exact (ih h).imp_right .inr

theorem ascending_insertIn {k : Nat} {a : α} {l : List (Nat × α)}
    (h : l.Pairwise (fun a b => a.1 < b.1)) :
    (insertIn k a l).Pairwise (fun a b => a.1 < b.1) := by
  induction l with
  | nil => simp [insertIn]
  | cons d rest ih =>
    have hd := List.pairwise_cons.1 h
    simp only [insertIn]
    split
    · rename_i hk
      refine List.pairwise_cons.2 ⟨fun e he => ?_, h⟩
      rcases List.mem_cons.1 he with rfl | he
      · exact hk
      · exact Nat.lt_trans hk (hd.1 e he)
    · split
      · rename_i hk
        subst hk
        exact List.pairwise_cons.2 ⟨hd.1, hd.2⟩
      · rename_i hlt hne
        refine List.pairwise_cons.2 ⟨fun e he => ?_, ih hd.2⟩
        rcases mem_insertIn he with rfl | he
        · simp only; omega
        · exact hd.1 e he

/-- What is stored under `k`, if anything. -/
def find? (m : NatMap α) (k : Nat) : Option α := findIn k m.entries

/-- Whether something is stored under `k`. -/
def contains (m : NatMap α) (k : Nat) : Bool := (m.find? k).isSome

/-- The map with `a` stored under `k`, in place of anything stored there before. -/
def insert (m : NatMap α) (k : Nat) (a : α) : NatMap α :=
  ⟨insertIn k a m.entries, ascending_insertIn m.ascending⟩

/-- The map with nothing stored under `k`. -/
def erase (m : NatMap α) (k : Nat) : NatMap α :=
  ⟨m.entries.filter (fun e => e.1 != k), m.ascending.filter _⟩

/-- How many keys have something stored under them. -/
def size (m : NatMap α) : Nat := m.entries.length

/-- The keys in ascending order. -/
def keys (m : NatMap α) : List Nat := m.entries.map (·.1)

/-- The distinct numbers of a list in ascending order. -/
def ascendingOf (l : List Nat) : List Nat :=
  (l.foldl (fun m k => m.insert k ()) (∅ : NatMap Unit)).keys

/-! ## What a map finds -/

theorem findIn_insertIn (k j : Nat) (a : α) (l : List (Nat × α)) :
    findIn j (insertIn k a l) = if j = k then some a else findIn j l := by
  induction l with
  | nil => simp [insertIn, findIn, eq_comm]
  | cons d rest ih =>
    simp only [insertIn]
    split
    · by_cases hj : j = k
      · simp [findIn, hj]
      · simp [findIn, hj, Ne.symm hj]
    · split
      · rename_i hk
        subst hk
        by_cases hj : j = d.1
        · simp [findIn, hj]
        · simp [findIn, hj, Ne.symm hj]
      · rename_i hne
        by_cases hj : d.1 = j
        · have : ¬ j = k := fun h => hne (h ▸ hj.symm)
          simp [findIn, hj, this]
        · simp [findIn, hj, ih]

theorem findIn_filter_ne (k j : Nat) (l : List (Nat × α)) :
    findIn j (l.filter fun e => e.1 != k) = if j = k then none else findIn j l := by
  induction l with
  | nil => simp [findIn]
  | cons d rest ih =>
    by_cases hd : d.1 = k
    · rw [List.filter_cons_of_neg (by simp [hd]), ih]
      by_cases hj : j = k
      · simp [hj]
      · simp [findIn, hd, Ne.symm hj, hj]
    · rw [List.filter_cons_of_pos (by simp [hd])]
      by_cases hj : d.1 = j
      · simp [findIn, hj, show ¬ j = k from fun h => hd (hj.trans h)]
      · simp [findIn, hj, ih]

@[simp] theorem find?_empty (j : Nat) : (∅ : NatMap α).find? j = none := rfl

/-- After an insertion the key finds what was inserted, and every other key what it found. -/
theorem find?_insert (m : NatMap α) (k j : Nat) (a : α) :
    (m.insert k a).find? j = if j = k then some a else m.find? j :=
  findIn_insertIn k j a m.entries

/-- After an erasure the key finds nothing, and every other key what it found. -/
theorem find?_erase (m : NatMap α) (k j : Nat) :
    (m.erase k).find? j = if j = k then none else m.find? j :=
  findIn_filter_ne k j m.entries

@[simp] theorem find?_insert_self (m : NatMap α) (k : Nat) (a : α) :
    (m.insert k a).find? k = some a := by simp [find?_insert]

@[simp] theorem find?_erase_self (m : NatMap α) (k : Nat) :
    (m.erase k).find? k = none := by simp [find?_erase]

theorem findIn_eq_none {k : Nat} {l : List (Nat × α)} (h : ∀ e ∈ l, e.1 ≠ k) :
    findIn k l = none := by
  induction l with
  | nil => rfl
  | cons d rest ih =>
    have hd : d.1 ≠ k := h d (by simp)
    simp [findIn, hd, ih fun e he => h e (by simp [he])]

/-- What is stored is exactly what is found. -/
theorem mem_entries_iff {m : NatMap α} {k : Nat} {a : α} :
    (k, a) ∈ m.entries ↔ m.find? k = some a := by
  obtain ⟨l, hl⟩ := m
  simp only [find?]
  induction l with
  | nil => simp [findIn]
  | cons d rest ih =>
    obtain ⟨hd, hr⟩ := List.pairwise_cons.1 hl
    by_cases hk : d.1 = k
    · have : (k, a) ∉ rest := fun h => by have := hd _ h; simp only at this; omega
      obtain ⟨d1, d2⟩ := d
      simp only at hk
      subst hk
      simp [findIn, this, eq_comm]
    · have : ¬ (k, a) = d := fun h => hk (by rw [← h])
      simp [findIn, hk, this, ih hr]

/-- Two maps that find the same under every key are the same map. -/
theorem ext {m n : NatMap α} (h : ∀ k, m.find? k = n.find? k) : m = n := by
  obtain ⟨l, hl⟩ := m
  obtain ⟨r, hr⟩ := n
  simp only [find?] at h
  have : l = r := by
    induction l generalizing r with
    | nil =>
      cases r with
      | nil => rfl
      | cons e s => exact absurd (h e.1) (by simp [findIn])
    | cons d t ih =>
      obtain ⟨hd, ht⟩ := List.pairwise_cons.1 hl
      cases r with
      | nil => exact absurd (h d.1) (by simp [findIn])
      | cons e s =>
        obtain ⟨he, hs⟩ := List.pairwise_cons.1 hr
        have below : ∀ {x : Nat} {q : List (Nat × α)}, (∀ p ∈ q, x < p.1) →
            findIn x q = none := fun hq => findIn_eq_none fun p hp => by
          have := hq p hp; omega
        have key : d.1 = e.1 := by
          rcases Nat.lt_trichotomy d.1 e.1 with hlt | heq | hgt
          · have h1 := h d.1
            have : findIn d.1 s = none := below fun p hp => Nat.lt_trans hlt (he p hp)
            simp [findIn, Nat.ne_of_gt hlt, this] at h1
          · exact heq
          · have h1 := h e.1
            have : findIn e.1 t = none := below fun p hp => Nat.lt_trans hgt (hd p hp)
            simp [findIn, Nat.ne_of_gt hgt, this] at h1
        have value : d.2 = e.2 := by
          have h1 := h d.1
          simpa [findIn, key] using h1
        have tail : t = s := by
          refine ih ht s hs fun k => ?_
          by_cases hk : k = d.1
          · subst hk
            rw [below hd, below (key ▸ he)]
          · have h1 := h k
            have hk' : ¬ e.1 = k := fun hh => hk (key.trans hh).symm
            simpa [findIn, hk', Ne.symm hk] using h1
        rw [tail, show d = e from Prod.ext key value]
  subst this
  rfl

/-! ## Lists put in order -/

theorem pairwise_keys (m : NatMap α) : m.keys.Pairwise (· < ·) :=
  List.pairwise_map.2 m.ascending

theorem mem_keys_iff {m : NatMap α} {k : Nat} : k ∈ m.keys ↔ (m.find? k).isSome = true := by
  simp only [keys, List.mem_map, Option.isSome_iff_exists, ← mem_entries_iff]
  exact ⟨fun ⟨e, he, hk⟩ => ⟨e.2, hk ▸ he⟩, fun ⟨a, ha⟩ => ⟨_, ha, rfl⟩⟩

theorem pairwise_ascendingOf (l : List Nat) : (ascendingOf l).Pairwise (· < ·) :=
  pairwise_keys _

/-- Putting a list in order loses nothing and adds nothing. -/
@[simp] theorem mem_ascendingOf {l : List Nat} {k : Nat} : k ∈ ascendingOf l ↔ k ∈ l := by
  have : ∀ (l : List Nat) (m : NatMap Unit),
      k ∈ (l.foldl (fun m k => m.insert k ()) m).keys ↔ k ∈ l ∨ k ∈ m.keys := by
    intro l
    induction l with
    | nil => simp
    | cons a l ih =>
      intro m
      rw [List.foldl_cons, ih]
      by_cases h : k = a <;> simp [mem_keys_iff, find?_insert, h]
  simp [ascendingOf, this, mem_keys_iff]

end NatMap

end Interpolation
