import Mathlib.Data.List.Sort
import Mathlib.Data.Set.Function
import Interpolation.Proofs.PropagationChains

/-!
# Interpolants and the keys of records

A proof has more on record than its refutation rests on, and which keys the records of the
refutation have depends on what else was recorded and when.  An interpolant depends on none of
this.  If what two refutations rest on is the same up to a renaming of the keys that keeps their
order, and the labels agree as far as that goes, then the two interpolants are the same: the
same circuit with the same nodes, the same clauses, and the same error if there is one.

The proof takes the two replays step by step.  The circuits are equal throughout, and the edges
found for a key and for its other name are the same (`Replay.Follows`).  That the order is kept
matters twice: the cone of one refutation is then the renamed cone of the other
(`Proof.Renaming.cone_eq`), and so the records are visited in the same order.

* `Alike` --- computations that fail alike, or succeed with related results;
* `Replay.alike_visitAll` --- records and their namesakes, visited in order;
* `interpolate_eq_of_renaming` --- other records have no say in an interpolant.
-/

namespace Interpolation

/-! ## Computations that go alike -/

/-- Whether two computations fail with the same error, or succeed with related results. -/
inductive Alike {ε α β : Type} (R : α → β → Prop) : Except ε α → Except ε β → Prop
  /-- Both fail, with the same error. -/
  | error (e : ε) : Alike R (.error e) (.error e)
  /-- Both succeed. -/
  | ok {a : α} {b : β} : R a b → Alike R (.ok a) (.ok b)

section

variable {ε α β γ : Type} {R : α → β → Prop}

/-- One computation after another goes alike when each does. -/
theorem Alike.bind {α' β' : Type} {S : α' → β' → Prop} {x : Except ε α} {y : Except ε β}
    {f : α → Except ε α'} {g : β → Except ε β'} (h : Alike R x y)
    (hstep : ∀ {a b}, R a b → Alike S (f a) (g b)) : Alike S (x >>= f) (y >>= g) := by
  cases h with
  | error e => exact .error e
  | ok hab => exact hstep hab

/-- Two folds go alike when each step does, over a list and over the renamed list. -/
theorem Alike.foldlM {f : α → γ → Except ε α} {g : β → γ → Except ε β} {rename : γ → γ}
    {l : List γ} (hstep : ∀ c ∈ l, ∀ {a b}, R a b → Alike R (f a c) (g b (rename c)))
    {a : α} {b : β} (hab : R a b) :
    Alike R (l.foldlM f a) ((l.map rename).foldlM g b) := by
  induction l generalizing a b with
  | nil => exact .ok hab
  | cons c l ih =>
    rw [List.map_cons, List.foldlM_cons, List.foldlM_cons]
    refine (hstep c List.mem_cons_self hab).bind fun h => ?_
    exact ih (fun c' hc' => hstep c' (List.mem_cons_of_mem c hc')) h

end

/-! ## Records at the same keys -/

section

variable {p q : Proof} {R : Record → Record → Prop}

/-- Proofs with as many records have related records at every key, or none in either. -/
theorem Proof.rel_record?_of_size (hsize : q.size = p.size)
    (h : ∀ {key r s}, p.record? key = some r → q.record? key = some s → R r s) (key : Nat) :
    Option.Rel R (p.record? key) (q.record? key) := by
  cases hfound : p.record? key with
  | none =>
    have hle : p.size ≤ key := Array.getElem?_eq_none_iff.mp hfound
    have hnone : q.record? key = none :=
      Array.getElem?_eq_none (Nat.le_trans (Nat.le_of_eq hsize) hle)
    rw [hnone]
    exact .none
  | some r =>
    have hlt : key < q.size := Nat.lt_of_lt_of_eq (Proof.lt_size_of_record? hfound) hsize.symm
    have hfound' : q.record? key = some q.records[key] := Array.getElem?_eq_getElem hlt
    rw [hfound']
    exact .some (h hfound hfound')

variable (hrel : ∀ key, Option.Rel R (p.record? key) (q.record? key))

include hrel

theorem Proof.antecedentsAt_congr (hR : ∀ {r s}, R r s → s.antecedents = r.antecedents) :
    q.antecedentsAt = p.antecedentsAt := by
  funext key
  have hkey := hrel key
  unfold antecedentsAt
  generalize p.record? key = found, q.record? key = found' at hkey
  cases hkey with
  | none => rfl
  | some h => exact hR h

/-- Which premise is the first without a label depends on where the premises are and on their
identifiers. -/
theorem firstUnlabelled?_congr (hsize : q.size = p.size)
    (hR : ∀ {r s}, R r s → s.source = r.source ∧ s.id = r.id) (labels : Labelling) :
    firstUnlabelled? q labels = firstUnlabelled? p labels := by
  unfold firstUnlabelled?
  rw [hsize]
  congr 1
  funext key
  have hkey := hrel key
  generalize p.record? key = found, q.record? key = found' at hkey
  cases hkey with
  | none => rfl
  | some h =>
    obtain ⟨hsource, hid⟩ := hR h
    simp only [Option.bind_some, hsource, hid]

end

/-! ## What a record is given -/

/-- Whether a record is another one with its antecedents under other keys. -/
structure Record.Renames (f : Nat → Nat) (r s : Record) : Prop where
  id : s.id = r.id
  clause : s.clause = r.clause
  source : s.source = r.source
  antecedents : s.antecedents = r.antecedents.map f

instance (f : Nat → Nat) (r s : Record) : Decidable (r.Renames f s) :=
  decidable_of_iff (s.id = r.id ∧ s.clause = r.clause ∧ s.source = r.source ∧
      s.antecedents = r.antecedents.map f)
    ⟨fun ⟨hid, hclause, hsource, hantecedents⟩ => ⟨hid, hclause, hsource, hantecedents⟩,
      fun h => ⟨h.id, h.clause, h.source, h.antecedents⟩⟩

/-- Whether two labellings say the same of where the variables of a clause may occur. -/
def Labelling.AgreesOn (labels labels' : Labelling) (clause : Clause) : Prop :=
  ∀ l ∈ clause, labels'.scopeOf l.atom = labels.scopeOf l.atom

variable {p q : Proof} {f : Nat → Nat} {labels labels' : Labelling} {config : Config}

theorem addLiteral_congr {l : Literal} (h : labels'.scopeOf l.atom = labels.scopeOf l.atom)
    (part : Part) (id : Nat) (state : Edge × Circuit) :
    addLiteral labels' part id state l = addLiteral labels part id state l := by
  unfold addLiteral
  rw [h]

/-- A premise is given the same by labellings that agree on it. -/
theorem premiseInterpolant_congr {clause : Clause} (h : labels.AgreesOn labels' clause)
    (c : Circuit) (part : Part) (id : Nat) :
    premiseInterpolant labels' c part id clause = premiseInterpolant labels c part id clause := by
  unfold premiseInterpolant
  generalize (startOf part, c) = state
  induction clause generalizing state with
  | nil => rfl
  | cons l rest ih =>
    rw [List.foldlM_cons, List.foldlM_cons, addLiteral_congr (h l List.mem_cons_self)]
    exact bind_congr fun state' => ih (fun m hm => h m (List.mem_cons_of_mem l hm)) state'

/-- What a chain is resolved on occurs in its antecedents. -/
theorem exists_mem_of_mem_pivots {strict : Bool} {resolvent : Clause} {chain : List Clause}
    {run : ChainRun} (h : runChain strict resolvent chain = some run) {pivot : Literal}
    (hpivot : some pivot ∈ run.pivots) : ∃ clause ∈ chain, pivot ∈ clause := by
  induction chain generalizing resolvent run with
  | nil =>
    obtain rfl : ⟨resolvent, []⟩ = run := Option.some.inj h
    exact absurd hpivot List.not_mem_nil
  | cons antecedent rest ih =>
    have hrest {resolvent' : Clause} {run' : ChainRun}
        (hrun' : runChain strict resolvent' rest = some run') (hmem : some pivot ∈ run'.pivots) :
        ∃ clause ∈ antecedent :: rest, pivot ∈ clause := by
      obtain ⟨clause, hclause, hin⟩ := ih hrun' hmem
      exact ⟨clause, List.mem_cons_of_mem antecedent hclause, hin⟩
    rcases runChain_cons_cases h with ⟨run', hrun', rfl⟩ | ⟨pivot', run', hclash, hrun', rfl⟩
    · rcases List.mem_cons.mp hpivot with hskip | hmem
      · exact absurd hskip (by simp)
      · exact hrest hrun' hmem
    · rcases List.mem_cons.mp hpivot with heq | hmem
      · obtain rfl : pivot = pivot' := Option.some.inj heq
        exact ⟨antecedent, List.mem_cons_self, (clash_eq_on_iff.mp hclash).1.1⟩
      · exact hrest hrun' hmem

/-- Pivots join edges alike under labellings that agree on them. -/
theorem foldl_join_congr {steps : List (Option Literal × Edge)}
    (h : ∀ pivot edge, (some pivot, edge) ∈ steps →
      labels'.scopeOf pivot.atom = labels.scopeOf pivot.atom) (state : Edge × Circuit) :
    steps.foldl (join labels') state = steps.foldl (join labels) state := by
  induction steps generalizing state with
  | nil => rfl
  | cons step steps ih =>
    have hjoin : join labels' state step = join labels state step := by
      obtain ⟨pivot, edge⟩ := step
      cases pivot with
      | none => rfl
      | some pivot =>
        show (if labels'.scopeOf pivot.atom = _ then _ else _) =
          if labels.scopeOf pivot.atom = _ then _ else _
        rw [h pivot edge List.mem_cons_self]
    rw [List.foldl_cons, List.foldl_cons, hjoin]
    exact ih (fun pivot edge hmem => h pivot edge (List.mem_cons_of_mem step hmem)) _

/-- Looking up the renamed members of a list leads to the same as looking up its members. -/
theorem mapM_map_congr {α β γ : Type} {g : γ → Option β} {g' : α → Option β} {f : γ → α}
    {l : List γ} (h : ∀ c ∈ l, g' (f c) = g c) : (l.map f).mapM g' = l.mapM g := by
  refine Option.ext fun m => ?_
  rw [mapM_eq_some_iff, mapM_eq_some_iff, List.map_map, ← List.map_congr_left h]
  rfl

variable {replay replay' : Replay}

/-- **A derived clause is given the same as its namesake,** where that holds of the
antecedents. -/
theorem derivedInterpolant_congr {record record' : Record} (hrecord : record.Renames f record')
    (hcircuit : replay'.circuit = replay.circuit)
    (hantecedents : ∀ k ∈ record.antecedents,
      antecedent? q replay' (f k) = antecedent? p replay k ∧
        labels.AgreesOn labels' (p.clauseAt k)) :
    derivedInterpolant q labels' config replay' record' =
      derivedInterpolant p labels config replay record := by
  have hmalformed : malformed record' = malformed record := by
    rw [malformed, malformed, hrecord.id]
  have hsteps : record'.antecedents.reverse.mapM (antecedent? q replay') =
      record.antecedents.reverse.mapM (antecedent? p replay) := by
    rw [hrecord.antecedents, ← List.map_reverse]
    exact mapM_map_congr fun k hk => (hantecedents k (List.mem_reverse.mp hk)).1
  unfold derivedInterpolant
  rw [hsteps, hmalformed, hcircuit, hrecord.clause]
  cases hfound : record.antecedents.reverse.mapM (antecedent? p replay) with
  | none => rfl
  | some steps =>
    cases steps with
    | nil => rfl
    | cons step rest =>
      obtain ⟨last, edge⟩ := step
      cases hrun : runChain config.strictChains.value last (rest.map (·.1)) with
      | none => simp only [hrun]
      | some run =>
        have hjoin : ∀ pivot e, (some pivot, e) ∈ run.pivots.zip (rest.map (·.2)) →
            labels'.scopeOf pivot.atom = labels.scopeOf pivot.atom := by
          intro pivot e hmem
          obtain ⟨clause, hclause, hpivot⟩ :=
            exists_mem_of_mem_pivots hrun (List.of_mem_zip hmem).1
          obtain ⟨step, hstep, rfl⟩ := List.mem_map.mp hclause
          obtain ⟨k, hk, hlookup⟩ :=
            mem_of_mapM_eq_some hfound (List.mem_cons_of_mem (last, edge) hstep)
          obtain ⟨hclauseAt, -⟩ := antecedent?_eq_some_iff.mp hlookup
          obtain ⟨r, hr, hrclause⟩ := Option.map_eq_some_iff.mp hclauseAt
          have hagrees := (hantecedents k (List.mem_reverse.mp hk)).2
          rw [Proof.clauseAt_of_record? hr, hrclause] at hagrees
          exact hagrees pivot hpivot
        simp only [hrun, foldl_join_congr hjoin]

/-! ## Two replays, step by step -/

/-- How two proofs with their labels are the same on some keys, up to a renaming of the keys. -/
structure Renamed (keys : Nat → Prop) (f : Nat → Nat) (p q : Proof)
    (labels labels' : Labelling) : Prop where
  /-- Different keys have different names. -/
  inj : ∀ {j k}, keys j → keys k → f j = f k → j = k
  /-- The keys include those of antecedents. -/
  closed : ∀ {key}, keys key → ∀ k ∈ p.antecedentsAt key, keys k
  /-- A record and its namesake are the same, their antecedents renamed. -/
  record : ∀ {key}, keys key → Option.Rel (Record.Renames f) (p.record? key) (q.record? (f key))
  /-- A premise and its namesake belong to the same part. -/
  part : ∀ {key record}, keys key → p.record? key = some record → record.source = .premise →
    labels'.partAt? (f key) = labels.partAt? key
  /-- The variables of a clause may occur in the same places. -/
  scope : ∀ {key}, keys key → labels.AgreesOn labels' (p.clauseAt key)

namespace Replay

/-- Whether a replay has got as far as another, under other names. -/
structure Follows (keys : Nat → Prop) (f : Nat → Nat) (replay replay' : Replay) : Prop where
  /-- The circuits are the same, node by node. -/
  circuit : replay'.circuit = replay.circuit
  /-- The same edge was found for a key and for its other name. -/
  find? : ∀ {key}, keys key →
    replay'.interpolants.find? (f key) = replay.interpolants.find? key

variable {keys : Nat → Prop}

/-- An antecedent is the same under its other name. -/
theorem Follows.antecedent? (h : Follows keys f replay replay')
    (hrenamed : Renamed keys f p q labels labels') {key : Nat} (hkey : keys key) :
    antecedent? q replay' (f key) = antecedent? p replay key := by
  have hrecord := hrenamed.record hkey
  unfold Interpolation.antecedent?
  rw [h.find? hkey]
  generalize p.record? key = found, q.record? (f key) = found' at hrecord
  cases hrecord with
  | none => rfl
  | some hrecord =>
    cases replay.interpolants.find? key with
    | none => rfl
    | some edge => simp only [hrecord.clause]

/-- A record is given the same as its namesake. -/
theorem Follows.recordInterpolant (h : Follows keys f replay replay')
    (hrenamed : Renamed keys f p q labels labels') {key : Nat} (hkey : keys key)
    {record record' : Record} (hfound : p.record? key = some record)
    (hrecord : record.Renames f record') :
    recordInterpolant q labels' config replay' (f key) record' =
      recordInterpolant p labels config replay key record := by
  have hclauseAt : p.clauseAt key = record.clause := Proof.clauseAt_of_record? hfound
  unfold Interpolation.recordInterpolant
  rw [hrecord.source]
  cases hsource : record.source with
  | derived =>
    refine derivedInterpolant_congr hrecord h.circuit fun k hk => ?_
    have hmem : k ∈ p.antecedentsAt key := by
      rwa [Proof.antecedentsAt, hfound]
    have hk' := hrenamed.closed hkey k hmem
    exact ⟨h.antecedent? hrenamed hk', hrenamed.scope hk'⟩
  | premise =>
    have hpart := hrenamed.part hkey hfound hsource
    have hscope := hrenamed.scope hkey
    rw [hclauseAt] at hscope
    simp only [hpart, hrecord.id, hrecord.clause, h.circuit, premiseInterpolant_congr hscope]

/-- **Visiting a record goes as visiting its namesake does.** -/
theorem Follows.visit (h : Follows keys f replay replay')
    (hrenamed : Renamed keys f p q labels labels') {key : Nat} (hkey : keys key) :
    Alike (Follows keys f) (replay.visit p labels config key)
      (replay'.visit q labels' config (f key)) := by
  have hrecord := hrenamed.record hkey
  cases hfound : p.record? key with
  | none =>
    rw [hfound] at hrecord
    cases hfound' : q.record? (f key) with
    | none =>
      simp only [Replay.visit, hfound, hfound']
      exact .error _
    | some record' =>
      rw [hfound'] at hrecord
      cases hrecord
  | some record =>
    rw [hfound] at hrecord
    cases hfound' : q.record? (f key) with
    | none =>
      rw [hfound'] at hrecord
      cases hrecord
    | some record' =>
      rw [hfound'] at hrecord
      cases hrecord with
      | some hrecord =>
        rw [visit_of_record? hfound, visit_of_record? hfound',
          h.recordInterpolant hrenamed hkey hfound hrecord]
        cases Interpolation.recordInterpolant p labels config replay key record with
        | error e => exact .error e
        | ok made =>
          refine .ok ⟨rfl, fun {k} hk => ?_⟩
          -- distinct keys have distinct names, so the same entry is replaced in both
          have hname : f k = f key ↔ k = key :=
            ⟨hrenamed.inj hk hkey, congrArg f⟩
          rw [NatMap.find?_insert, NatMap.find?_insert, h.find? hk]
          simp only [hname]

/-- **Visiting records goes as visiting their namesakes does.** -/
theorem alike_visitAll (hrenamed : Renamed keys f p q labels labels') {listed : List Nat}
    (hlisted : ∀ key ∈ listed, keys key) (config : Config) :
    Alike (Follows keys f) (visitAll p labels config listed)
      (visitAll q labels' config (listed.map f)) := by
  have hstart : Follows keys f {} {} := ⟨rfl, fun _ => rfl⟩
  exact Alike.foldlM (fun key hkey _ _ h => h.visit hrenamed (hlisted key hkey)) hstart

end Replay

/-- **What a refutation leads to is what its namesake leads to,** where their cones are
namesakes of one another. -/
theorem interpolate_congr {keys : Nat → Prop} {witness witness' : Nat}
    (hwitness : witnessOf p = .ok witness) (hwitness' : witnessOf q = .ok witness')
    (hlabelled : firstUnlabelled? q labels' = firstUnlabelled? p labels)
    (hrenamed : Renamed keys f p q labels labels') (hname : f witness = witness')
    (hself : keys witness) (hkeys : ∀ key ∈ cone p.antecedentsAt witness, keys key)
    (hcone : cone q.antecedentsAt witness' = (cone p.antecedentsAt witness).map f) (next : Nat) :
    interpolate q labels' config next = interpolate p labels config next := by
  unfold interpolate
  cases config.mode.value with
  | symmetric => rfl
  | asymmetric =>
    simp only [hwitness, hwitness', hlabelled, bind, Except.bind]
    cases firstUnlabelled? p labels with
    | some id => rfl
    | none =>
      have halike := Replay.alike_visitAll hrenamed hkeys config
      simp only [hcone]
      generalize Replay.visitAll p labels config (cone p.antecedentsAt witness) = found,
        Replay.visitAll q labels' config ((cone p.antecedentsAt witness).map f) = found' at halike
      cases halike with
      | error e => rfl
      | ok hfollows =>
        have hedge := hfollows.find? hself
        rw [hname] at hedge
        simp only [hedge, hfollows.circuit]

/-! ## Refutations that are namesakes -/

/-- Whether what one refutation rests on is what another rests on, under other keys that come
in the same order. -/
structure Proof.Renaming (p q : Proof) (f : Nat → Nat) : Prop where
  /-- Each key that the one rests on has a name among those that the other rests on. -/
  bijOn : Set.BijOn f {key | p.RestsOn key} {key | q.RestsOn key}
  /-- The order of the keys is kept. -/
  strictMonoOn : StrictMonoOn f {key | p.RestsOn key}
  /-- A record and its namesake have the same identifier, literals and source, and antecedents
  that are namesakes in turn. -/
  renames : ∀ key, p.RestsOn key → ∀ r ∈ p.record? key, ∀ s ∈ q.record? (f key), r.Renames f s

/-- Whether two labellings say the same of what two refutations rest on. -/
structure Labelling.Matches (labels labels' : Labelling) (p : Proof) (f : Nat → Nat) : Prop where
  /-- A premise and its namesake belong to the same part. -/
  part : ∀ key, p.RestsOn key → ∀ r ∈ p.record? key, r.source = .premise →
    labels'.partAt? (f key) = labels.partAt? key
  /-- The variables that occur may occur in the same places. -/
  scope : ∀ key, p.RestsOn key → ∀ r ∈ p.record? key, labels.AgreesOn labels' r.clause

namespace Proof

variable {witness witness' : Nat}

namespace Renaming

variable (h : p.Renaming q f) (hp : p.WellFormed) (hq : q.WellFormed)

section

variable (hwitness : witnessOf p = .ok witness) (hwitness' : witnessOf q = .ok witness')

include h hp hq hwitness hwitness'

/-- **The cone of one refutation is the renamed cone of the other.** -/
theorem cone_eq : cone q.antecedentsAt witness' = (cone p.antecedentsAt witness).map f := by
  have hsorted : ((cone p.antecedentsAt witness).map f).Pairwise (· < ·) := by
    rw [List.pairwise_map]
    refine (pairwise_cone witness).imp_of_mem fun {j k} hj hk hlt => ?_
    rw [mem_cone_iff_restsOn hp hwitness] at hj hk
    exact h.strictMonoOn hj hk hlt
  refine (pairwise_cone witness').eq_of_mem_iff hsorted fun key => ?_
  rw [mem_cone_iff_restsOn hq hwitness', List.mem_map]
  simp only [mem_cone_iff_restsOn hp hwitness]
  exact (Set.ext_iff.mp h.bijOn.image_eq key).symm

/-- The empty clause that ends one refutation is the namesake of the one that ends the other. -/
theorem witness_eq : f witness = witness' := by
  have hle {r : Proof} (hr : r.WellFormed) {w key : Nat} (hw : witnessOf r = .ok w)
      (hkey : r.RestsOn key) : key ≤ w :=
    ((restsOn_iff hw).mp hkey).le hr.descends_antecedentsAt
  have hself : p.RestsOn witness := (restsOn_iff hwitness).mpr (.refl witness)
  obtain ⟨key, hkey, hname⟩ := h.bijOn.surjOn ((restsOn_iff hwitness').mpr (.refl witness'))
  refine Nat.le_antisymm (hle hq hwitness' (h.bijOn.mapsTo hself)) ?_
  rw [← hname]
  exact h.strictMonoOn.monotoneOn hkey hself (hle hp hwitness hkey)

end

include h hp hq

omit h in
/-- Cones that are namesakes, with records that are, make a renaming. -/
theorem of_cone (hwitness : witnessOf p = .ok witness) (hwitness' : witnessOf q = .ok witness')
    (hcone : cone q.antecedentsAt witness' = (cone p.antecedentsAt witness).map f)
    (hrenames : ∀ key ∈ cone p.antecedentsAt witness,
      ∀ r ∈ p.record? key, ∀ s ∈ q.record? (f key), r.Renames f s) : p.Renaming q f := by
  have hmem {key : Nat} : key ∈ cone p.antecedentsAt witness ↔ p.RestsOn key :=
    mem_cone_iff_restsOn hp hwitness
  have hmono : StrictMonoOn f {key | p.RestsOn key} := by
    have hascends : (cone p.antecedentsAt witness).Pairwise fun j k => f j < f k := by
      rw [← List.pairwise_map, ← hcone]
      exact pairwise_cone witness'
    -- of two members the one that comes first in the cone is the smaller, before and after
    have hup : (cone p.antecedentsAt witness).Pairwise fun j k => j < k → f j < f k :=
      hascends.imp fun {j k} (hlt : f j < f k) (_ : j < k) => hlt
    have hdown : (cone p.antecedentsAt witness).Pairwise fun j k => k < j → f k < f j :=
      (pairwise_cone witness).imp fun hlt hgt => absurd hgt (Nat.lt_asymm hlt)
    have hordered := List.Pairwise.forall_of_forall_of_flip
      (fun j _ hlt => absurd hlt (Nat.lt_irrefl j)) hup hdown
    exact fun j hj k hk hlt => hordered (hmem.mpr hj) (hmem.mpr hk) hlt
  have himage : f '' {key | p.RestsOn key} = {key | q.RestsOn key} := by
    ext key
    show (∃ k, p.RestsOn k ∧ f k = key) ↔ q.RestsOn key
    rw [← mem_cone_iff_restsOn hq hwitness', hcone, List.mem_map]
    simp only [hmem]
  exact
    { bijOn := ⟨himage ▸ Set.mapsTo_image f _, hmono.injOn, himage.symm.subset⟩
      strictMonoOn := hmono
      renames := fun key hkey => hrenames key (hmem.mpr hkey) }

/-- The records that the refutations rest on are namesakes. -/
theorem renamed (hmatches : labels.Matches labels' p f) :
    Renamed p.RestsOn f p q labels labels' where
  inj hj hk heq := h.bijOn.injOn hj hk heq
  closed hkey _ hk := hkey.step hk
  record {key} hkey := by
    have hlt := hkey.lt_size hp
    have hlt' := RestsOn.lt_size hq (h.bijOn.mapsTo hkey)
    have hfound : p.record? key = some p.records[key] := Array.getElem?_eq_getElem hlt
    have hfound' : q.record? (f key) = some q.records[f key] := Array.getElem?_eq_getElem hlt'
    rw [hfound, hfound']
    exact .some (h.renames key hkey _ hfound _ hfound')
  part hkey hfound hsource := hmatches.part _ hkey _ hfound hsource
  scope {key} hkey := by
    intro l hl
    cases hfound : p.record? key with
    | none =>
      rw [clauseAt, hfound] at hl
      exact absurd hl List.not_mem_nil
    | some record =>
      rw [clauseAt_of_record? hfound] at hl
      exact hmatches.scope key hkey record hfound l hl

end Renaming
end Proof

/-- **Records outside the refutation are irrelevant.**  Take two proofs that were reached by
operations, each with a refutation of the formula that has a witness, and each with all its
premises labelled.  If what the one refutation rests on is what the other rests on, up to a
renaming of the keys that keeps their order, and the labels say the same of it, then with any
settings and from any counter on the two have the same interpolant, down to the nodes of the
circuit and the literals of the clauses, or the same error. -/
theorem interpolate_eq_of_renaming {witness witness' : Nat} (hp : p.Reachable) (hq : q.Reachable)
    (hwitness : witnessOf p = .ok witness) (hwitness' : witnessOf q = .ok witness')
    (hcovers : labels.Covers p) (hcovers' : labels'.Covers q) (hrenaming : p.Renaming q f)
    (hmatches : labels.Matches labels' p f) (config : Config) (next : Nat) :
    interpolate q labels' config next = interpolate p labels config next := by
  have hp := hp.wellFormed
  have hq := hq.wellFormed
  have hlabelled : firstUnlabelled? q labels' = firstUnlabelled? p labels := by
    rw [firstUnlabelled?_eq_none hcovers, firstUnlabelled?_eq_none hcovers']
  exact interpolate_congr hwitness hwitness' hlabelled
    (hrenaming.renamed hp hq hmatches)
    (hrenaming.witness_eq hp hq hwitness hwitness')
    ((restsOn_iff hwitness).mpr (.refl witness))
    (fun key hkey => (mem_cone_iff_restsOn hp hwitness).mp hkey)
    (hrenaming.cone_eq hp hq hwitness hwitness') next

/-- The refutation `splitRefutation` with other clauses on record: one that was deleted, and one
that was derived to no purpose. -/
def paddedRefutation : Proof :=
  Proof.run {} [.premise 7 false [50, 4] false, .premise 1 false [10, 2] false,
    .premise 2 false [-10, 3] false, .premise 3 false [-2] false, .premise 4 false [-3] false,
    .premise 5 false [2, 4] false, .delete 7, .derived 8 true [10, 2, 50] [1],
    .derived 6 false [2, 3] [5, 1, 2], .conclude .conflict [3, 4, 6]]

/-- The keys in `paddedRefutation` of the records in `splitRefutation`. -/
def paddedKey (key : Nat) : Nat := if key < 5 then key + 1 else key + 2

/-- The labels of `splitLabelling` for `paddedRefutation`, with one for a variable that only the
other clauses have. -/
def paddedLabelling : Labelling :=
  ((((((((({} : Labelling).setScope 10 (.localTo .a)).2.setScope 50 (.localTo .b)).2.setPartAt 0
    .a).setPartAt 1 .a).setPartAt 2 .a).setPartAt 3 .b).setPartAt 4 .b).setPartAt 5 .b)

theorem reachable_paddedRefutation : paddedRefutation.Reachable := Proof.Reachable.start.run _

theorem renaming_paddedRefutation : splitRefutation.Renaming paddedRefutation paddedKey := by
  have hwitness : witnessOf splitRefutation = .ok 6 := by decide
  have hwitness' : witnessOf paddedRefutation = .ok 8 := by decide
  exact .of_cone reachable_splitRefutation.wellFormed reachable_paddedRefutation.wellFormed
    hwitness hwitness' (by decide) (by decide)

theorem covers_paddedLabelling : paddedLabelling.Covers paddedRefutation := by
  have hall : ∀ key < 9, ∀ r ∈ paddedRefutation.record? key,
      r.source = .premise → (paddedLabelling.partAt? key).isSome := by decide
  exact fun key record hrecord => hall key (Proof.lt_size_of_record? hrecord) record hrecord

theorem matches_paddedLabelling :
    splitLabelling.Matches paddedLabelling splitRefutation paddedKey := by
  have hpart : ∀ key < 7, ∀ r ∈ splitRefutation.record? key, r.source = .premise →
      paddedLabelling.partAt? (paddedKey key) = splitLabelling.partAt? key := by decide
  have hscope : ∀ key < 7, ∀ r ∈ splitRefutation.record? key, ∀ l ∈ r.clause,
      paddedLabelling.scopeOf l.atom = splitLabelling.scopeOf l.atom := by decide
  exact ⟨fun key _ r hr => hpart key (Proof.lt_size_of_record? hr) r hr,
    fun key _ r hr => hscope key (Proof.lt_size_of_record? hr) r hr⟩

theorem interpolate_eq_of_renaming_paddedRefutation :
    splitRefutation.Reachable ∧ paddedRefutation.Reachable ∧
      splitLabelling.Covers splitRefutation ∧ paddedLabelling.Covers paddedRefutation ∧
      splitRefutation.Renaming paddedRefutation paddedKey ∧
      splitLabelling.Matches paddedLabelling splitRefutation paddedKey ∧
      interpolate paddedRefutation paddedLabelling {} 20 =
        interpolate splitRefutation splitLabelling {} 20 := by
  have hwitness : witnessOf splitRefutation = .ok 6 := by decide
  have hwitness' : witnessOf paddedRefutation = .ok 8 := by decide
  exact ⟨reachable_splitRefutation, reachable_paddedRefutation, splitLabelling_conditions.1,
    covers_paddedLabelling, renaming_paddedRefutation, matches_paddedLabelling,
    interpolate_eq_of_renaming reachable_splitRefutation reachable_paddedRefutation hwitness
      hwitness' splitLabelling_conditions.1 covers_paddedLabelling renaming_paddedRefutation
      matches_paddedLabelling {} 20⟩

end Interpolation
