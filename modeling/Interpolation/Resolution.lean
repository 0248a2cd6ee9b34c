import Interpolation.Clause

/-!
# Chains of resolutions

The antecedents of a derived clause are a chain.  A solver reads it forwards, as clauses that
become unit one after another until the last is falsified.  Here it is read backwards: the last
antecedent is the first resolvent, and each earlier antecedent in turn is resolved with it.

What literal to resolve on is not written down and has to be found.  It is the one literal of
the antecedent whose negation is in the resolvent.  If there are several such literals the
resolvent would be a tautology and the chain is at fault; if there is none the antecedent was
not needed, and it depends on how strict the reading is whether that is a fault too.  A literal
repeated in an antecedent counts once.

Resolvents are lists, though only which literals occur in them matters.  A literal that is in the
resolvent already is not taken over once more, so that a resolvent stays about as short as the
set of its literals, however long the chain.

* `mem_resolve_iff` --- the literals of a resolvent;
* `runChain` --- the last resolvent of a chain, and the pivots that led to it.
-/

namespace Interpolation

/-- How an antecedent meets a resolvent. -/
inductive Clash
  /-- No literal of the antecedent has its negation in the resolvent. -/
  | absent
  /-- Exactly one literal of the antecedent, the pivot, has its negation in the resolvent. -/
  | on (pivot : Literal)
  /-- Several literals of the antecedent have their negations in the resolvent. -/
  | several
  deriving DecidableEq, Repr

/-- How an antecedent meets a resolvent. -/
def clash (resolvent antecedent : Clause) : Clash :=
  match antecedent.filter fun l => l.negate ∈ resolvent with
  | [] => .absent
  | l :: rest => if ∀ m ∈ rest, m = l then .on l else .several

/-- The clause obtained by resolving a resolvent with an antecedent on a literal of the
antecedent. -/
def resolve (resolvent antecedent : Clause) (pivot : Literal) : Clause :=
  let kept := resolvent.filter fun l => l ≠ pivot.negate
  kept ++ antecedent.filter fun l => l ≠ pivot ∧ l ∉ kept

/-- What reading a chain amounts to. -/
structure ChainRun where
  /-- The resolvent in the end. -/
  resolvent : Clause
  /-- The literal resolved on with each antecedent, or none where it was skipped. -/
  pivots : List (Option Literal)
  deriving DecidableEq, Repr

/-- Resolves a clause with each antecedent in turn.  There is no result if an antecedent clashes
more than once, or, read strictly, if one does not clash at all. -/
def runChain (strict : Bool) (resolvent : Clause) : List Clause → Option ChainRun
  | [] => some ⟨resolvent, []⟩
  | antecedent :: rest =>
    match clash resolvent antecedent with
    | .several => none
    | .absent =>
      if strict then none
      else (runChain strict resolvent rest).map fun run => { run with pivots := none :: run.pivots }
    | .on pivot =>
      (runChain strict (resolve resolvent antecedent pivot) rest).map fun run =>
        { run with pivots := some pivot :: run.pivots }

/-! ## What clashing and resolving mean -/

theorem mem_clashing_iff {resolvent antecedent : Clause} {l : Literal} :
    l ∈ antecedent.filter (fun l => l.negate ∈ resolvent) ↔
      l ∈ antecedent ∧ l.negate ∈ resolvent := by
  simp

theorem clash_eq_absent_iff {resolvent antecedent : Clause} :
    clash resolvent antecedent = .absent ↔ ∀ l ∈ antecedent, l.negate ∉ resolvent := by
  simp only [clash]
  split
  · rename_i h
    simpa [List.filter_eq_nil_iff] using h
  · rename_i l rest h
    have hl := mem_clashing_iff.1 (h ▸ List.mem_cons_self : l ∈ antecedent.filter _)
    split <;> simpa using ⟨l, hl⟩

/-- An antecedent clashes on a pivot just when the pivot is its only literal that clashes. -/
theorem clash_eq_on_iff {resolvent antecedent : Clause} {pivot : Literal} :
    clash resolvent antecedent = .on pivot ↔
      (pivot ∈ antecedent ∧ pivot.negate ∈ resolvent) ∧
        ∀ l ∈ antecedent, l.negate ∈ resolvent → l = pivot := by
  have key : ∀ l, (l ∈ antecedent ∧ l.negate ∈ resolvent) ↔
      l ∈ antecedent.filter (fun l => l.negate ∈ resolvent) := fun l => mem_clashing_iff.symm
  have all : (∀ l ∈ antecedent, l.negate ∈ resolvent → l = pivot) ↔
      ∀ l ∈ antecedent.filter (fun l => l.negate ∈ resolvent), l = pivot :=
    ⟨fun h l hl => h l ((key l).2 hl).1 ((key l).2 hl).2, fun h l ha hr => h l ((key l).1 ⟨ha, hr⟩)⟩
  rw [key, all, clash]
  generalize antecedent.filter (fun l => l.negate ∈ resolvent) = clashing
  cases clashing with
  | nil => simp
  | cons l rest =>
    simp only
    split
    · rename_i h
      constructor
      · intro he
        cases he
        exact ⟨List.mem_cons_self, fun m hm => (List.mem_cons.1 hm).elim id (h m)⟩
      · rintro ⟨-, hp⟩
        rw [hp l List.mem_cons_self]
    · rename_i h
      simp only [reduceCtorEq, false_iff, not_and]
      intro _ hp
      exact h fun m hm => (hp m (List.mem_cons_of_mem _ hm)).trans (hp l List.mem_cons_self).symm

theorem mem_resolve_iff {resolvent antecedent : Clause} {pivot l : Literal} :
    l ∈ resolve resolvent antecedent pivot ↔
      (l ∈ resolvent ∧ l ≠ pivot.negate) ∨ (l ∈ antecedent ∧ l ≠ pivot) := by
  simp only [resolve, List.mem_append, List.mem_filter, decide_eq_true_eq]
  grind

end Interpolation
