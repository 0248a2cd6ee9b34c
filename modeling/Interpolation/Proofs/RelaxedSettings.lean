import Interpolation.Proofs.Replays

/-!
# Settings that ask for less

Two settings say how closely a refutation is read: whether every antecedent has to be of use, and
whether what a chain leads to has to lie within the clause that it is said to derive.  Neither is
to have a say in the interpolant.  So take two configurations of which one asks for no more than
the other (`Config.Relaxes`).  Where the stricter one leads to an interpolant the other leads to
the same, down to the nodes of the circuit and the names of the fresh variables.

The reason is that a setting is only ever consulted in order to give up.  An antecedent is skipped
or it is an error, and where it is an error there is nothing to compare; where it is not, both
readings have the same resolvent and the same pivots (`runChain_of_strict`).  So the two replays
are in the same state, record after record, until the stricter one ends over a derivation
(`Stricter`), and it is the same circuit that is encoded in the end.

* `Stricter.bind`, `Stricter.foldlM` --- computations one after another;
* `runChain_of_strict` --- a chain that can be read strictly reads the same loosely;
* `Replay.stricter_visitAll` --- two replays side by side;
* `interpolate_of_relaxes` --- settings that ask for less change no interpolant.
-/

namespace Interpolation

/-- Whether the second of two configurations asks for no more than the first. -/
structure Config.Relaxes (config relaxed : Config) : Prop where
  /-- Both ask for the same system. -/
  mode : relaxed.mode.value = config.mode.value
  /-- Derivations are checked only if they were. -/
  checkDerivations : relaxed.checkDerivations.value = true → config.checkDerivations.value = true
  /-- Chains are read strictly only if they were. -/
  strictChains : relaxed.strictChains.value = true → config.strictChains.value = true

/-- Whether an error says that antecedents do not resolve to what they should. -/
def InterpolationError.faultsDerivation : InterpolationError → Bool
  | malformedProof _ => true
  | malformedRefutation => true
  | _ => false

theorem faultsDerivation_malformed (record : Record) :
    (malformed record).faultsDerivation = true := by
  unfold malformed
  cases record.id <;> rfl

/-! ## Computations of which one is stricter -/

/-- Whether one computation goes exactly as another does, or else ends over a derivation. -/
def Stricter {α : Type} (x y : Except InterpolationError α) : Prop :=
  x = y ∨ ∃ e, x = .error e ∧ e.faultsDerivation = true

namespace Stricter

variable {α β : Type} {x y : Except InterpolationError α}

theorem refl (x : Except InterpolationError α) : Stricter x x := Or.inl rfl

theorem error {e : InterpolationError} (he : e.faultsDerivation = true)
    (y : Except InterpolationError α) : Stricter (.error e) y :=
  Or.inr ⟨e, rfl, he⟩

/-- One computation after another is stricter when each is, from the same state on. -/
theorem bind {f g : α → Except InterpolationError β} (h : Stricter x y)
    (hstep : ∀ a, Stricter (f a) (g a)) : Stricter (x >>= f) (y >>= g) := by
  obtain rfl | ⟨e, rfl, he⟩ := h
  · cases x with
    | error e => exact .refl _
    | ok a => exact hstep a
  · exact .error he _

/-- A fold is stricter when each step is. -/
theorem foldlM {f g : β → α → Except InterpolationError β} (hstep : ∀ b a, Stricter (f b a) (g b a))
    (l : List α) (b : β) : Stricter (l.foldlM f b) (l.foldlM g b) := by
  induction l generalizing b with
  | nil => exact .refl _
  | cons a l ih =>
    rw [List.foldlM_cons, List.foldlM_cons]
    exact (hstep b a).bind ih

/-- What the stricter computation leads to the other leads to. -/
theorem eq_ok {a : α} (h : Stricter x y) (hx : x = .ok a) : y = .ok a := by
  obtain rfl | ⟨e, rfl, -⟩ := h
  · exact hx
  · exact absurd hx (by simp)

/-- What the other fails with the stricter fails with, if it does not end over a derivation. -/
theorem exists_error {e : InterpolationError} (h : Stricter x y) (hy : y = .error e) :
    ∃ e', x = .error e' ∧ (e' = e ∨ e'.faultsDerivation = true) := by
  obtain rfl | ⟨e', rfl, he'⟩ := h
  · exact ⟨e, hy, Or.inl rfl⟩
  · exact ⟨e', rfl, Or.inr he'⟩

/-- What the stricter fails with, other than over a derivation, the other fails with. -/
theorem eq_error {e : InterpolationError} (h : Stricter x y) (hx : x = .error e)
    (he : e.faultsDerivation = false) : y = .error e := by
  obtain rfl | ⟨e', rfl, he'⟩ := h
  · exact hx
  · obtain rfl : e' = e := Except.error.inj hx
    rw [he] at he'
    exact absurd he' (by decide)

end Stricter

/-! ## Chains and what they lead to -/

/-- **A chain that can be read strictly reads the same loosely,** with the same pivots and the same
resolvent in the end, for nothing in it is skipped. -/
theorem runChain_of_strict {strict loose : Bool} (h : loose = true → strict = true)
    {resolvent : Clause} {chain : List Clause} {run : ChainRun}
    (hrun : runChain strict resolvent chain = some run) :
    runChain loose resolvent chain = some run := by
  cases loose with
  | true => rwa [h rfl] at hrun
  | false =>
    cases strict with
    | false => exact hrun
    | true =>
      -- an antecedent that is skipped here was an error there
      induction chain generalizing resolvent run with
      | nil => exact hrun
      | cons antecedent rest ih =>
        unfold runChain at hrun ⊢
        cases hclash : clash resolvent antecedent with
        | several =>
          rw [hclash] at hrun
          exact absurd hrun (by simp)
        | absent =>
          rw [hclash] at hrun
          exact absurd hrun (by simp)
        | on pivot =>
          rw [hclash] at hrun
          obtain ⟨run', hrun', rfl⟩ := Option.map_eq_some_iff.mp hrun
          exact Option.map_eq_some_iff.mpr ⟨run', ih hrun', rfl⟩

variable {config relaxed : Config}

/-- A resolvent that is acceptable stays so. -/
theorem derives_of_relaxes (h : config.Relaxes relaxed) {resolvent clause : Clause}
    (hderives : derives config resolvent clause = true) :
    derives relaxed resolvent clause = true := by
  unfold derives at hderives ⊢
  cases hcheck : relaxed.checkDerivations.value with
  | true => rwa [h.checkDerivations hcheck] at hderives
  | false =>
    cases hempty : clause.isEmpty with
    | true =>
      rw [hempty, Bool.or_true] at hderives
      exact hderives
    | false => rfl

/-! ## Two replays side by side -/

variable (h : config.Relaxes relaxed) (p : Proof) (labels : Labelling) (replay : Replay)

include h

theorem stricter_derivedInterpolant (record : Record) :
    Stricter (derivedInterpolant p labels config replay record)
      (derivedInterpolant p labels relaxed replay record) := by
  have hmalformed := faultsDerivation_malformed record
  unfold derivedInterpolant
  cases record.antecedents.reverse.mapM (antecedent? p replay) with
  | none => exact .refl _
  | some steps =>
    cases steps with
    | nil => exact .refl _
    | cons step rest =>
      obtain ⟨last, edge⟩ := step
      dsimp only
      cases hrun : runChain config.strictChains.value last (rest.map (·.1)) with
      | none => exact .error hmalformed _
      | some run =>
        rw [runChain_of_strict h.strictChains hrun]
        dsimp only
        split
        · rename_i hderives
          rw [if_pos (derives_of_relaxes h hderives)]
          exact .refl _
        · exact .error hmalformed _

theorem stricter_recordInterpolant (key : Nat) (record : Record) :
    Stricter (recordInterpolant p labels config replay key record)
      (recordInterpolant p labels relaxed replay key record) := by
  unfold recordInterpolant
  cases record.source with
  | derived => exact stricter_derivedInterpolant h p labels replay record
  | premise => exact .refl _

namespace Replay

theorem stricter_visit (key : Nat) :
    Stricter (replay.visit p labels config key) (replay.visit p labels relaxed key) := by
  unfold visit
  cases p.record? key with
  | none => exact .refl _
  | some record =>
    exact (stricter_recordInterpolant h p labels replay key record).bind fun _ => .refl _

/-- **Two replays go alike until the stricter one ends over a derivation.** -/
theorem stricter_visitAll (keys : List Nat) :
    Stricter (visitAll p labels config keys) (visitAll p labels relaxed keys) :=
  Stricter.foldlM (fun replay key => stricter_visit h p labels replay key) keys {}

end Replay

theorem stricter_interpolate (next : Nat) :
    Stricter (interpolate p labels config next) (interpolate p labels relaxed next) := by
  unfold interpolate
  rw [h.mode]
  cases config.mode.value with
  | symmetric => exact .refl _
  | asymmetric =>
    refine Stricter.bind (.refl _) fun witness => ?_
    cases firstUnlabelled? p labels with
    | some id => exact .refl _
    | none => exact (Replay.stricter_visitAll h p labels _).bind fun _ => .refl _

/-- **Settings that ask for less change no interpolant.**  Take any proof with any labels, and two
configurations of which the second asks for no more than the first.  From any counter on, the
interpolant that there is under the first is there under the second, with the same clauses, the
same counters, the same circuit and the same output.  Where there is none under the second there is
none under the first either; and the reason is the same, or else it is that a derivation does not
hold up.  Any other reason that there is under the first is the reason under the second, too. -/
theorem interpolate_of_relaxes (next : Nat) :
    (∀ i, interpolate p labels config next = .ok i → interpolate p labels relaxed next = .ok i) ∧
      (∀ e, interpolate p labels relaxed next = .error e →
        ∃ e', interpolate p labels config next = .error e' ∧
          (e' = e ∨ e'.faultsDerivation = true)) ∧
      ∀ e, interpolate p labels config next = .error e → e.faultsDerivation = false →
        interpolate p labels relaxed next = .error e := by
  have hstricter := stricter_interpolate h p labels next
  exact ⟨fun _ => hstricter.eq_ok, fun _ => hstricter.exists_error, fun _ => hstricter.eq_error⟩

omit h

/-- The configuration that asks for everything. -/
def strictConfig : Config :=
  { strictChains := { ({} : Config).strictChains with value := true } }

/-- The configuration that asks for nothing. -/
def looseConfig : Config :=
  { checkDerivations := { ({} : Config).checkDerivations with value := false } }

/-- The refutation `splitRefutation` without the antecedent that is not needed. -/
def tightRefutation : Proof :=
  Proof.run {} [.premise 1 false [10, 2] false, .premise 2 false [-10, 3] false,
    .premise 3 false [-2] false, .premise 4 false [-3] false, .premise 5 false [2, 4] false,
    .derived 6 false [2, 3] [1, 2], .conclude .conflict [3, 4, 6]]

theorem interpolate_of_relaxes_tightRefutation :
    strictConfig.Relaxes looseConfig ∧
      interpolate tightRefutation splitLabelling strictConfig 20 = .ok (splitInterpolant 20) ∧
      interpolate tightRefutation splitLabelling looseConfig 20 = .ok (splitInterpolant 20) ∧
      interpolate tightRefutation splitLabelling looseConfig 0 = .error (.invalidFreshVariable 0) ∧
      ∃ e, interpolate tightRefutation splitLabelling strictConfig 0 = .error e := by
  have h : strictConfig.Relaxes looseConfig := ⟨rfl, fun _ => rfl, by decide⟩
  have hstrict : interpolate tightRefutation splitLabelling strictConfig 20 =
    .ok (splitInterpolant 20) := rfl
  have hloose : interpolate tightRefutation splitLabelling looseConfig 0 =
    .error (.invalidFreshVariable 0) := rfl
  obtain ⟨hsame, -, -⟩ := interpolate_of_relaxes h tightRefutation splitLabelling 20
  obtain ⟨-, hfails, -⟩ := interpolate_of_relaxes h tightRefutation splitLabelling 0
  obtain ⟨e, he, -⟩ := hfails _ hloose
  exact ⟨h, hstrict, hsame _ hstrict, hloose, e, he⟩

/-- The same antecedent ends the strict reading of `splitRefutation`, and the other skips it. -/
example : interpolate splitRefutation splitLabelling strictConfig 20 = .error (.malformedProof 6) ∧
    interpolate splitRefutation splitLabelling looseConfig 20 = .ok (splitInterpolant 20) :=
  ⟨rfl, rfl⟩

end Interpolation
