import Interpolation.Proofs.EncodingExactness
import Interpolation.Proofs.Extraction
import Interpolation.Proofs.ReplaySizes

/-!
# Interpolants are sound

A partial interpolant of a clause stands between the two parts, up to the clause.
Where the premises of part A are true it is true, unless the clause is true by a
literal local to A; and where the premises of part B are true and it is, the clause
is true by a literal that is not local to A.  That is what `Separates` says, and for
the empty clause it says that the interpolant follows from A and contradicts B.

The invariant speaks of true literals, not of a partition of the clause, and so asks
nothing of the clauses.  Of a pivot and its negation only one is true, whatever else
is in the two clauses and however often, and a literal that is true survives the
resolution unless it is the pivot's.  Adding literals to a clause, or passing over an
antecedent, loses nothing.

* `Separates.resolution` --- a resolution preserves the invariant;
* `Separates.chain` --- so does a chain of them;
* `PartialInterpolant.separates` --- every partial interpolant separates the parts;
* `interpolate_sound` --- an interpolant, as a circuit and as clauses, follows from
  part A and contradicts part B.
-/

namespace Interpolation

/-- A true literal of the resolvent is kept, unless it is the negation of the
pivot. -/
theorem mem_resolve_left {resolvent antecedent : Clause} {pivot l : Literal} (hl : l ∈ resolvent)
    (hne : l ≠ pivot.negate) : l ∈ resolve resolvent antecedent pivot :=
  mem_resolve_iff.mpr (Or.inl ⟨hl, hne⟩)

theorem mem_resolve_right {resolvent antecedent : Clause} {pivot l : Literal}
    (hl : l ∈ antecedent) (hne : l ≠ pivot) : l ∈ resolve resolvent antecedent pivot :=
  mem_resolve_iff.mpr (Or.inr ⟨hl, hne⟩)

/-- Of two true literals, one of the resolvent and one of the antecedent, a
resolution keeps one. -/
theorem exists_mem_resolve {resolvent antecedent : Clause} {pivot : Literal}
    (hpivot : pivot.toInt ≠ 0) {v : Nat → Bool} {P : Literal → Prop}
    (hr : ∃ l ∈ resolvent, l.holds v = true ∧ P l)
    (ha : ∃ l ∈ antecedent, l.holds v = true ∧ P l) :
    ∃ l ∈ resolve resolvent antecedent pivot, l.holds v = true ∧ P l := by
  obtain ⟨l, hl, hlv, hPl⟩ := hr
  obtain ⟨m, hm, hmv, hPm⟩ := ha
  by_cases hne : l = pivot.negate
  · refine ⟨m, mem_resolve_right hm fun hmp => ?_, hmv, hPm⟩
    -- the pivot and its negation are not both true
    rw [hne, Literal.holds_negate hpivot, ← hmp, hmv] at hlv
    exact absurd hlv (by simp)
  · exact ⟨l, mem_resolve_left hl hne, hlv, hPl⟩

/-- Whether a function of valuations separates two properties of valuations, up to a
clause. -/
structure Separates (labels : Labelling) (A B : (Nat → Bool) → Prop) (f : (Nat → Bool) → Bool)
    (clause : Clause) : Prop where
  /-- Where A holds so does the function, or a literal that is local to A. -/
  left : ∀ v, A v → f v = true ∨
    ∃ l ∈ clause, l.holds v = true ∧ labels.scopeOf l.atom = .localTo .a
  /-- Where B holds and the function does, so does a literal that is not. -/
  right : ∀ v, B v → f v = true →
    ∃ l ∈ clause, l.holds v = true ∧ labels.scopeOf l.atom ≠ .localTo .a

variable {labels : Labelling} {A B : (Nat → Bool) → Prop} {f g : (Nat → Bool) → Bool}

namespace Separates

/-- Literals may be added to the clause. -/
theorem weaken {clause larger : Clause} (h : Separates labels A B f clause)
    (hsub : ∀ l ∈ clause, l ∈ larger) : Separates labels A B f larger where
  left v hv := by
    rcases h.left v hv with hf | ⟨l, hl, hlv⟩
    · exact Or.inl hf
    · exact Or.inr ⟨l, hsub l hl, hlv⟩
  right v hv hf := by
    obtain ⟨l, hl, hlv⟩ := h.right v hv hf
    exact ⟨l, hsub l hl, hlv⟩

/-- A premise of part A keeps its shared literals; what is not shared is local
to A. -/
theorem premise_a {clause : Clause} (hallows : ∀ l ∈ clause, labels.Allows .a l)
    (htrue : ∀ v, A v → clause.satisfiedBy v = true) :
    Separates labels A B (labels.premiseValue .a clause) clause where
  left v hv := by
    obtain ⟨l, hl, hlv⟩ := Clause.satisfiedBy_iff.mp (htrue v hv)
    rcases hallows l hl with hshared | hlocal
    · refine Or.inl (Clause.satisfiedBy_iff.mpr ⟨l, ?_, hlv⟩)
      exact List.mem_filter.mpr ⟨hl, decide_eq_true hshared⟩
    · exact Or.inr ⟨l, hl, hlv, hlocal⟩
  right v _ hf := by
    obtain ⟨l, hl, hlv⟩ := Clause.satisfiedBy_iff.mp hf
    obtain ⟨hmem, hshared⟩ := List.mem_filter.mp hl
    refine ⟨l, hmem, hlv, fun hlocal => ?_⟩
    rw [of_decide_eq_true hshared] at hlocal
    exact absurd hlocal (by simp)

/-- A premise of part B is true, and has no literal that is local to A. -/
theorem premise_b {clause : Clause} (hallows : ∀ l ∈ clause, labels.Allows .b l)
    (htrue : ∀ v, B v → clause.satisfiedBy v = true) :
    Separates labels A B (labels.premiseValue .b clause) clause where
  left _ _ := Or.inl rfl
  right v hv _ := by
    obtain ⟨l, hl, hlv⟩ := Clause.satisfiedBy_iff.mp (htrue v hv)
    refine ⟨l, hl, hlv, fun hlocal => ?_⟩
    rcases hallows l hl with hshared | hlocal'
    · rw [hshared] at hlocal
      exact absurd hlocal (by simp)
    · rw [hlocal'] at hlocal
      exact absurd hlocal (by simp)

/-- **A resolution preserves the invariant.** -/
theorem resolution {resolvent antecedent : Clause} {pivot : Literal} (hpivot : pivot.toInt ≠ 0)
    (hf : Separates labels A B f resolvent) (hg : Separates labels A B g antecedent) :
    Separates labels A B (labels.joinValues f (some pivot, g))
      (resolve resolvent antecedent pivot) := by
  by_cases hlocal : labels.scopeOf pivot.atom = .localTo .a
  · have hjoin : labels.joinValues f (some pivot, g) = fun v => f v || g v := by
      funext v
      exact if_pos hlocal
    rw [hjoin]
    constructor
    · intro v hv
      rcases hf.left v hv with hfv | hr
      · exact Or.inl (Bool.or_eq_true_iff.mpr (Or.inl hfv))
      rcases hg.left v hv with hgv | ha
      · exact Or.inl (Bool.or_eq_true_iff.mpr (Or.inr hgv))
      exact Or.inr (exists_mem_resolve hpivot hr ha)
    · -- a literal that is not local to A is not the pivot's
      intro v hv hfg
      rcases Bool.or_eq_true_iff.mp hfg with hfv | hgv
      · obtain ⟨l, hl, hlv, hscope⟩ := hf.right v hv hfv
        refine ⟨l, mem_resolve_left hl fun hne => hscope ?_, hlv, hscope⟩
        rw [hne, Literal.atom_negate]
        exact hlocal
      · obtain ⟨l, hl, hlv, hscope⟩ := hg.right v hv hgv
        refine ⟨l, mem_resolve_right hl fun hne => hscope ?_, hlv, hscope⟩
        rw [hne]
        exact hlocal
  · have hjoin : labels.joinValues f (some pivot, g) = fun v => f v && g v := by
      funext v
      exact if_neg hlocal
    rw [hjoin]
    constructor
    · -- a literal that is local to A is not the pivot's
      intro v hv
      rcases hf.left v hv with hfv | ⟨l, hl, hlv, hscope⟩
      · rcases hg.left v hv with hgv | ⟨l, hl, hlv, hscope⟩
        · exact Or.inl (Bool.and_eq_true_iff.mpr ⟨hfv, hgv⟩)
        · refine Or.inr ⟨l, mem_resolve_right hl fun hne => hlocal ?_, hlv, hscope⟩
          rw [← hne]
          exact hscope
      · refine Or.inr ⟨l, mem_resolve_left hl fun hne => hlocal ?_, hlv, hscope⟩
        rw [← Literal.atom_negate, ← hne]
        exact hscope
    · intro v hv hfg
      obtain ⟨hfv, hgv⟩ := Bool.and_eq_true_iff.mp hfg
      exact exists_mem_resolve hpivot (hf.right v hv hfv) (hg.right v hv hgv)

/-- **A chain preserves the invariant.** -/
theorem chain {strict : Bool} {resolvent : Clause} {rest : List Antecedent} {run : ChainRun}
    (hproper : ∀ a ∈ rest, ∀ l ∈ a.clause, l.toInt ≠ 0)
    (hf : Separates labels A B f resolvent)
    (hrest : ∀ a ∈ rest, Separates labels A B a.value a.clause)
    (hrun : runChain strict resolvent (rest.map Antecedent.clause) = some run) :
    Separates labels A B ((run.pivots.zip (rest.map Antecedent.value)).foldl labels.joinValues f)
      run.resolvent := by
  induction rest generalizing resolvent f run with
  | nil =>
    obtain rfl := Option.some.inj hrun
    exact hf
  | cons a rest ih =>
    have hproper' := fun b hb => hproper b (List.mem_cons_of_mem a hb)
    have hrest' := fun b hb => hrest b (List.mem_cons_of_mem a hb)
    rcases runChain_cons_cases hrun with ⟨run', hrun', rfl⟩ | ⟨pivot, run', hclash, hrun', rfl⟩
    · exact ih hproper' hf hrest' hrun'
    · have hpivot := hproper a List.mem_cons_self pivot (clash_eq_on_iff.mp hclash).1.1
      exact ih hproper' (hf.resolution hpivot (hrest a List.mem_cons_self)) hrest' hrun'

end Separates

/-! ## Every partial interpolant separates the parts -/

variable {p : Proof} {config : Config}

/-- The refutation rests on what a record that it rests on was derived from. -/
theorem Proof.RestsOn.antecedent {key k : Nat} {record : Record} (h : p.RestsOn key)
    (hrecord : p.record? key = some record) (hk : k ∈ record.antecedents) : p.RestsOn k := by
  refine h.step ?_
  unfold antecedentsAt
  rw [hrecord]
  exact hk

theorem mem_of_derives (hcheck : config.checkDerivations.value = true)
    {resolvent clause : Clause} (h : derives config resolvent clause = true) :
    ∀ l ∈ resolvent, l ∈ clause := by
  simpa [derives, hcheck] using h

/-- **Every partial interpolant separates two properties up to its clause,** if of the records that
it comes from the premises of part A are true where the one property holds, and those of part B
where the other does. -/
theorem PartialInterpolant.separates_of_closed (hp : p.WellFormed)
    (hcheck : config.checkDerivations.value = true) {K : Nat → Prop}
    (hclosed : ∀ {key record}, K key → p.record? key = some record → ∀ k ∈ record.antecedents, K k)
    (hA : ∀ {key clause}, K key → labels.PremiseAt p .a key clause →
      ∀ v, A v → clause.satisfiedBy v = true)
    (hB : ∀ {key clause}, K key → labels.PremiseAt p .b key clause →
      ∀ v, B v → clause.satisfiedBy v = true)
    {key : Nat} (h : PartialInterpolant p labels config key f) (hkey : K key) {record : Record}
    (hrecord : p.record? key = some record) : Separates labels A B f record.clause := by
  induction h generalizing record with
  | @premise key former part hformer hsource hpart hallows =>
    obtain rfl : former = record := Option.some.inj (hformer.symm.trans hrecord)
    cases part with
    | a => exact .premise_a hallows (hA hkey ⟨former, hformer, hsource, hpart, rfl⟩)
    | b => exact .premise_b hallows (hB hkey ⟨former, hformer, hsource, hpart, rfl⟩)
  | @derived key former last rest run hformer hsource hkeys _ hrun hderives ih =>
    obtain rfl : former = record := Option.some.inj (hformer.symm.trans hrecord)
    have hsep : ∀ a ∈ last :: rest,
        Separates labels A B a.value a.clause ∧ ∀ l ∈ a.clause, l.toInt ≠ 0 := by
      intro a ha
      obtain ⟨hk, hclause⟩ := hkeys a ha
      obtain ⟨found, hfound, hclause⟩ := Option.map_eq_some_iff.mp hclause
      rw [← hclause]
      exact ⟨ih a ha (hclosed hkey hformer _ hk) hfound, fun l hl => (hp.proper hfound l hl).1⟩
    have hchain := Separates.chain (fun a ha => (hsep a (List.mem_cons_of_mem last ha)).2)
      (hsep last List.mem_cons_self).1 (fun a ha => (hsep a (List.mem_cons_of_mem last ha)).1) hrun
    exact hchain.weaken (mem_of_derives hcheck hderives)

/-- **Every partial interpolant of a record that the refutation rests on separates
the parts, up to its clause.** -/
theorem PartialInterpolant.separates (hp : p.WellFormed)
    (hcheck : config.checkDerivations.value = true) {key : Nat}
    (h : PartialInterpolant p labels config key f) (hrests : p.RestsOn key) {record : Record}
    (hrecord : p.record? key = some record) :
    Separates labels (labels.SatisfiesPart p .a) (labels.SatisfiesPart p .b) f record.clause :=
  h.separates_of_closed hp hcheck (fun hrests hrecord _ hk => hrests.antecedent hrecord hk)
    (fun hrests hclause _ hv => hv _ (hclause.premise hrests))
    (fun hrests hclause _ hv => hv _ (hclause.premise hrests)) hrests hrecord

/-! ## Interpolants -/

/-- The partial interpolant of the empty clause separates the parts outright. -/
theorem Interpolated.separates (hp : p.WellFormed)
    (hcheck : config.checkDerivations.value = true)
    (hsize : p.ReplayAddressable labels config) {next : Nat} {i : Interpolant} {witness : Nat}
    {edge : Edge} {replay : Replay} (h : Interpolated p labels config next i witness edge replay) :
    Separates labels (labels.SatisfiesPart p .a) (labels.SatisfiesPart p .b) i.evaluate [] := by
  obtain ⟨r, hr, -, hwitness⟩ := witnessOf_eq_ok_iff.mp h.refutation
  obtain ⟨record, hrecord, hempty⟩ := hp.empty hr hwitness
  have hrests : p.RestsOn witness := (restsOn_iff h.refutation).mpr (.refl witness)
  obtain ⟨f, hf, hedge⟩ := h.valid.stands h.found
  have hsep := hf.separates hp hcheck hrests hrecord
  rw [hempty, ← hedge (hsize witness replay h.refutation h.replayed), ← h.evaluate_eq] at hsep
  exact hsep

/-- **Interpolants are sound,** unless the refutation has more partial interpolants than
a circuit has edges for.  Where the premises of part A that the refutation rests on are
true the interpolant is true, and the fresh variables can be chosen so that its clauses
are.  Where those of part B are true the interpolant is false, and its clauses are not
all true. -/
theorem interpolate_sound (hp : p.Reachable) (hcheck : config.checkDerivations.value = true)
    (hsize : p.ReplayAddressable labels config)
    {next : Nat} {i : Interpolant} (h : interpolate p labels config next = .ok i)
    (v : Nat → Bool) :
    (labels.SatisfiesPart p .a v →
        i.evaluate v = true ∧
          ∃ w, AgreeOutside i.first i.next w v ∧ satisfiesAll i.clauses w = true) ∧
      (labels.SatisfiesPart p .b v →
        i.evaluate v = false ∧ satisfiesAll i.clauses v = false) := by
  obtain ⟨witness, edge, replay, hi⟩ := interpolated hp.wellFormed h
  have hsep := hi.separates hp.wellFormed hcheck hsize
  have hover : i.circuit.Over (· ≠ 0) := fun hnode => (hi.circuit_over hnode).ne_zero hp.wellFormed
  constructor
  · intro hv
    have heval : i.evaluate v = true := by
      rcases hsep.left v hv with heval | ⟨l, hl, -⟩
      · exact heval
      · exact absurd hl List.not_mem_nil
    refine ⟨heval, ?_⟩
    rw [hi.first]
    exact Encoding.exists_model_of_evaluate hi.canonical hover hi.lt hi.encode heval
  · intro hv
    have heval : ¬ i.evaluate v = true := by
      intro heval
      obtain ⟨l, hl, -⟩ := hsep.right v hv heval
      exact absurd hl List.not_mem_nil
    refine ⟨Bool.eq_false_iff.mpr heval, Bool.eq_false_iff.mpr fun hclauses => heval ?_⟩
    exact Encoding.evaluate_of_satisfiesAll hi.canonical hover hi.lt hi.encode hclauses

/-- The premises of part A of `splitRefutation` are true where just 2 is, and those of
part B where just 4 is. -/
theorem satisfiesPart_splitLabelling :
    splitLabelling.SatisfiesPart splitRefutation .a (· == 2) ∧
      splitLabelling.SatisfiesPart splitRefutation .b (· == 4) := by
  have hall : ∀ key < 7,
      (splitLabelling.partAt? key = some .a →
        (splitRefutation.record? key).all (·.clause.satisfiedBy (· == 2)) = true) ∧
      (splitLabelling.partAt? key = some .b →
        (splitRefutation.record? key).all (·.clause.satisfiedBy (· == 4)) = true) := by
    decide
  constructor
  · rintro clause ⟨key, record, -, hrecord, -, hpart, rfl⟩
    have htrue := (hall key (Proof.lt_size_of_record? hrecord)).1 hpart
    rwa [hrecord] at htrue
  · rintro clause ⟨key, record, -, hrecord, -, hpart, rfl⟩
    have htrue := (hall key (Proof.lt_size_of_record? hrecord)).2 hpart
    rwa [hrecord] at htrue

/-- The interpolant `2 ∨ 3` is true where just 2 is, and false where just 4 is. -/
theorem interpolate_sound_splitRefutation :
    splitRefutation.Reachable ∧ ({} : Config).checkDerivations.value = true ∧
      splitRefutation.ReplayAddressable splitLabelling {} ∧
      interpolate splitRefutation splitLabelling {} 20 = .ok (splitInterpolant 20) ∧
      ((splitInterpolant 20).evaluate (· == 2) = true ∧
        ∃ w, AgreeOutside 20 21 w (· == 2) ∧ satisfiesAll (splitInterpolant 20).clauses w = true) ∧
      (splitInterpolant 20).evaluate (· == 4) = false ∧
        satisfiesAll (splitInterpolant 20).clauses (· == 4) = false :=
  ⟨reachable_splitRefutation, rfl, replayAddressable_splitRefutation _ _,
    interpolate_splitRefutation,
    (interpolate_sound reachable_splitRefutation rfl (replayAddressable_splitRefutation _ _)
      interpolate_splitRefutation (· == 2)).1 satisfiesPart_splitLabelling.1,
    (interpolate_sound reachable_splitRefutation rfl (replayAddressable_splitRefutation _ _)
      interpolate_splitRefutation (· == 4)).2 satisfiesPart_splitLabelling.2⟩

end Interpolation
