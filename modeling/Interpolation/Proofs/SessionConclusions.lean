import Interpolation.Proofs.ClauseLabels
import Interpolation.Proofs.ReplayFaults
import Interpolation.Proofs.SolveReports

/-!
# What a session has concluded

A session says in two places that there is no model: in its phase, and in the refutation that its
proof has on record.  They are kept in different ways.  The phase moves with the events that are
accepted, and some of these look at the refutation first; the refutation comes and goes with
operations on the proof.  They agree all the same, through every run of a session.

What is on record can be read off the exchanges of the run.  It is what was announced and accepted
last, if no model was announced and accepted after it, and the session was not started afresh
(`LastConcluded`).  From that it follows how a session answers when asked for an interpolant that
it cannot have for want of a refutation of the formula.  It says that there is no refutation just
when it is not in the phase that says there is; and it says that the conclusion does not support
an interpolant just when the last one was relative to assumptions or a constraint.

* `Session.settled_run` --- phase and refutation agree;
* `Session.stated_run` --- the refutation on record follows from the exchanges;
* `interpolate_eq_error_iff_witnessOf` --- which errors are about the conclusion on record;
* `Session.interpolate_of_concluded` --- what a session answers without a refutation of the formula.
-/

namespace Interpolation

/-! ## Conclusions among exchanges -/

/-- What a refutation says: the sense in which there is no model, and the identifiers given. -/
def Refutation.stated (r : Refutation) : Conclusion × List Nat := (r.conclusion, r.chain)

namespace Call

/-- The conclusion that there is no model, if the call announces one and it is accepted. -/
def concludes : Call → Reply → Option (Conclusion × List Nat)
  | .note (.unsat conclusion chain), .noted answer =>
    if stands answer then some (conclusion, chain) else none
  | _, _ => none

/-- Whether a call takes a conclusion back: a model is announced and accepted, or the session
starts afresh. -/
def retracts : Call → Reply → Bool
  | .note (.sat _), .noted answer => stands answer
  | .reset, _ => true
  | _, _ => false

/-- The conclusion that stands after a call, when one may have stood before. -/
def conclusionAfter (stated : Option (Conclusion × List Nat)) (c : Call) (reply : Reply) :
    Option (Conclusion × List Nat) :=
  (c.concludes reply).or (if c.retracts reply then none else stated)

/-- A refused event leaves the conclusion that there is. -/
theorem conclusionAfter_of_not_stands {e : Event} {answer : Except Error Unit}
    (h : stands answer = false) (stated : Option (Conclusion × List Nat)) :
    conclusionAfter stated (.note e) (.noted answer) = stated := by
  cases e with
  | unsat | sat =>
    simp only [conclusionAfter, concludes, retracts, h, Bool.false_eq_true, if_false,
      Option.none_or]
  | _ => rfl

end Call

/-- The conclusion that stands after exchanges in turn. -/
def conclusionAfterAll (stated : Option (Conclusion × List Nat)) (exchanges : List (Call × Reply)) :
    Option (Conclusion × List Nat) :=
  exchanges.foldl (fun found exchange => exchange.1.conclusionAfter found exchange.2) stated

/-- Whether a conclusion is the last that was accepted, and was not taken back since. -/
def LastConcluded (exchanges : List (Call × Reply)) (stated : Conclusion × List Nat) : Prop :=
  ∃ before c reply after, exchanges = before ++ (c, reply) :: after ∧
    c.concludes reply = some stated ∧
    ∀ later ∈ after, later.1.concludes later.2 = none ∧ later.1.retracts later.2 = false

/-- **The last conclusion is the one that stands.** -/
theorem conclusionAfterAll_eq_some_iff {exchanges : List (Call × Reply)}
    {stated : Conclusion × List Nat} :
    conclusionAfterAll none exchanges = some stated ↔ LastConcluded exchanges stated := by
  unfold conclusionAfterAll
  induction exchanges using List.reverseRecOn with
  | nil => exact iff_of_false (by simp) (by rintro ⟨before, c, reply, after, h, -⟩; simp at h)
  | append_singleton exchanges exchange ih =>
    rw [List.foldl_append, List.foldl_cons, List.foldl_nil, Call.conclusionAfter,
      Option.or_eq_some_iff]
    constructor
    · rintro (hlast | ⟨hnone, hstands⟩)
      · exact ⟨exchanges, exchange.1, exchange.2, [], rfl, hlast, List.forall_mem_nil _⟩
      · split at hstands
        · exact absurd hstands (by simp)
        · rename_i hretracts
          obtain ⟨before, c, reply, after, rfl, hc, hafter⟩ := ih.mp hstands
          refine ⟨before, c, reply, after ++ [exchange], by simp, hc, ?_⟩
          rw [List.forall_mem_append, List.forall_mem_singleton]
          exact ⟨hafter, hnone, Bool.eq_false_iff.mpr hretracts⟩
    · rintro ⟨before, c, reply, after, hsplit, hc, hafter⟩
      rcases concat_eq_append_cons_iff.mp hsplit with ⟨-, rfl, -⟩ | ⟨after, rfl, rfl⟩
      · exact Or.inl hc
      · rw [List.forall_mem_append, List.forall_mem_singleton] at hafter
        obtain ⟨hafter, hnone, hretracts⟩ := hafter
        refine Or.inr ⟨hnone, ?_⟩
        rw [hretracts, if_neg Bool.false_ne_true]
        exact ih.mpr ⟨before, c, reply, after, rfl, hc, hafter⟩

/-- Where none has been announced, none stands. -/
theorem conclusionAfterAll_eq_none {exchanges : List (Call × Reply)}
    (h : ∀ exchange ∈ exchanges, exchange.1.concludes exchange.2 = none) :
    conclusionAfterAll none exchanges = none := by
  unfold conclusionAfterAll
  induction exchanges with
  | nil => rfl
  | cons exchange rest ih =>
    obtain ⟨hnone, hrest⟩ := List.forall_mem_cons.mp h
    rw [List.foldl_cons, Call.conclusionAfter, hnone, Option.none_or, ite_self]
    exact ih hrest

/-! ## Errors about the conclusion on record -/

namespace InterpolationError

/-- Whether an error is about what was concluded: nothing was, or not that the formula has no
model. -/
def aboutConclusion : InterpolationError → Bool
  | noRefutation => true
  | unsupportedConclusion _ => true
  | _ => false

end InterpolationError

section

variable {p : Proof} {labels : Labelling} {config : Config} {e : InterpolationError}

theorem witnessOf_eq_noRefutation_iff :
    witnessOf p = .error .noRefutation ↔ p.refutation = none := by
  unfold witnessOf
  cases p.refutation with
  | none => simp
  | some r =>
    obtain ⟨conclusion, chain, witness⟩ := r
    cases conclusion <;> cases witness <;> simp

theorem witnessOf_eq_unsupported_iff {conclusion : Conclusion} :
    witnessOf p = .error (.unsupportedConclusion conclusion) ↔
      conclusion ≠ .conflict ∧
        ∃ chain, p.refutation.map Refutation.stated = some (conclusion, chain) := by
  unfold witnessOf
  cases p.refutation with
  | none => simp
  | some r =>
    obtain ⟨found, chain, witness⟩ := r
    cases found <;> cases witness <;> cases conclusion <;> simp [Refutation.stated]

/-- What is at fault with a record is never the conclusion. -/
theorem Proof.Fault.aboutConclusion {key : Nat} (h : p.Fault labels config key e) :
    e.aboutConclusion = false := by
  cases h <;> rfl

/-- **An error about the conclusion is one about the witness,** for once there is a witness
nothing else that goes wrong is about the conclusion. -/
theorem interpolate_eq_error_iff_witnessOf (hp : p.Reachable)
    (hmode : config.mode.value = .asymmetric) (he : e.aboutConclusion = true) (next : Nat) :
    interpolate p labels config next = .error e ↔ witnessOf p = .error e := by
  cases hwitness : witnessOf p with
  | error cause => simp only [interpolate, hmode, hwitness, bind, Except.bind, Except.error.injEq]
  | ok witness =>
    refine iff_of_false (fun h => ?_) (by simp)
    by_cases hcovers : labels.Covers p
    · by_cases hsound : ∀ key e, p.RestsOn key → ¬ p.Fault labels config key e
      · rcases interpolate_of_sound hp hwitness hmode hcovers hsound next with ⟨i, hi⟩ | hi | hi
        · rw [hi] at h
          exact absurd h (by simp)
        · obtain rfl := Except.error.inj (hi.symm.trans h)
          exact absurd he Bool.false_ne_true
        · obtain rfl := Except.error.inj (hi.symm.trans h)
          exact absurd he Bool.false_ne_true
      · push Not at hsound
        obtain ⟨key, cause, hrests, hfault⟩ := hsound
        obtain ⟨first, cause', hfirst, hi⟩ :=
          interpolate_of_fault hp hwitness hmode hcovers hrests hfault next
        obtain rfl := Except.error.inj (hi.symm.trans h)
        rw [hfirst.fault.aboutConclusion] at he
        exact absurd he Bool.false_ne_true
    · obtain ⟨key, id, -, -, -, hi⟩ := interpolate_of_not_covers hp hwitness hmode hcovers next
      obtain rfl := Except.error.inj (hi.symm.trans h)
      exact absurd he Bool.false_ne_true

end

/-! ## Runs -/

namespace Session

open Observer

variable {ε τ : Type} [Observer ε τ] {surroundings : ε} {s : Session τ}

/-- Only an event or a fresh start bears on the journal. -/
theorem journal_perform {c : Call} (hnote : ∀ e, c ≠ .note e) (hreset : c ≠ .reset) :
    (s.perform surroundings c).2.1.keeper.journal = s.keeper.journal := by
  have hconfig := exists_withConfig (s := s) (c := c) surroundings
  cases c with
  | note e => exact absurd rfl (hnote e)
  | reset => exact absurd rfl hreset
  | setMode | setCheckDerivations | setStrictChains | interpolate =>
    obtain ⟨config, hsame⟩ := hconfig rfl
    rw [hsame]
    rfl
  | setScope | setNextPart => rfl
  | setPart id part =>
    exact revise_ind (P := fun t => t.keeper.journal = s.keeper.journal) rfl
      (s.labels.setPart s.proof id part) _ fun labels _ => rfl

theorem settled_perform (h : s.keeper.journal.Settled) (c : Call) :
    (s.perform surroundings c).2.1.keeper.journal.Settled := by
  cases c with
  | note e =>
    show (note surroundings s e).observer.keeper.journal.Settled
    rw [journal_note]
    exact h.keep e
  | reset => exact Journal.settled_initial
  | _ =>
    rw [journal_perform (by simp) (by simp)]
    exact h

/-- **Phase and refutation agree throughout every run.** -/
theorem settled_run (config : Config) (surroundings : ε) (steps : List (Step ε τ)) :
    ((new τ config).run surroundings steps).2.1.keeper.journal.Settled :=
  run_ind (P := fun d => d.journal.Settled) Journal.settled_initial fun _ _ c _ h =>
    settled_perform h c

/-- **What is on record after an event is what the exchange says.** -/
theorem stated_note (surroundings : ε) (s : Session τ) (e : Event) :
    (note surroundings s e).observer.proof.refutation.map Refutation.stated =
      Call.conclusionAfter (s.proof.refutation.map Refutation.stated) (.note e)
        (.noted (note surroundings s e).outcome) := by
  rw [proof_note]
  cases hkeep : (s.keeper.journal.keep e).1 with
  | error cause =>
    have hstands : stands (note surroundings s e).outcome = false := by
      rw [note_of_error hkeep]
      rfl
    rw [Journal.refutation_keep_of_error hkeep, Call.conclusionAfter_of_not_stands hstands]
    rfl
  | ok u =>
    have hstands : stands (note surroundings s e).outcome = true :=
      Relay.stands_note_of_ok ((s.keeper.fst_keep e).trans hkeep)
    cases e with
    | unsat conclusion chain =>
      obtain ⟨witness, hwitness⟩ := Journal.refutation_keep_unsat hkeep
      rw [hwitness, Call.conclusionAfter, Call.concludes, if_pos hstands]
      rfl
    | sat model =>
      rw [Journal.refutation_keep_sat hkeep, Call.conclusionAfter, Call.retracts, if_pos hstands]
      rfl
    | _ =>
      rw [Journal.refutation_keep (by rintro _ ⟨⟩ <;> rfl)]
      rfl

theorem stated_perform (surroundings : ε) (s : Session τ) (c : Call) :
    (s.perform surroundings c).2.1.proof.refutation.map Refutation.stated =
      c.conclusionAfter (s.proof.refutation.map Refutation.stated)
        (s.perform surroundings c).1 := by
  have hjournal : (∀ e, c ≠ .note e) → c ≠ .reset →
      (s.perform surroundings c).2.1.keeper.journal = s.keeper.journal := journal_perform
  cases c with
  | note e => exact stated_note surroundings s e
  | reset => rfl
  | _ =>
    rw [proof, hjournal (by simp) (by simp)]
    rfl

/-- **The refutation on record follows from the exchanges.** -/
theorem stated_run (surroundings : ε) (s : Session τ) (steps : List (Step ε τ)) :
    (s.run surroundings steps).2.1.proof.refutation.map Refutation.stated =
      conclusionAfterAll (s.proof.refutation.map Refutation.stated)
        (s.exchanges surroundings steps) := by
  induction steps generalizing s surroundings with
  | nil => rfl
  | cons step rest ih =>
    cases step with
    | call c =>
      rw [exchanges_call, conclusionAfterAll, List.foldl_cons, ← stated_perform]
      exact ih _ _
    | connect consumer => exact ih surroundings (s.connect consumer).2
    | release => exact ih surroundings s.release.2
    | outside f => exact ih (f surroundings) s

/-- **A session answers for what was concluded.**  Take a session through any steps: events that
are accepted or refused, fresh starts, revisions, and consumers that come and go.  It is in the
phase of having found no model just when its proof has a refutation.  Asked for an interpolant in
the asymmetric system it answers that there is no refutation just when it is not in that phase, as
it does in particular after a model was accepted and until a conclusion that there is none is; and
it answers that a conclusion is not supported just when that was the last one accepted since the
session started, was relative to assumptions or a constraint, and no model was accepted since. -/
theorem interpolate_of_concluded (config : Config) (surroundings : ε) (steps : List (Step ε τ)) :
    let later := ((new τ config).run surroundings steps).2.1
    let exchanges := (new τ config).exchanges surroundings steps
    (later.phase = .unsatisfiable ↔ later.proof.refutation.isSome = true) ∧
      (later.config.mode.value = .asymmetric → ∀ next,
        (later.interpolate next = .error .noRefutation ↔ later.phase ≠ .unsatisfiable) ∧
          (∀ before model answer after,
            exchanges = before ++ (.note (.sat model), .noted answer) :: after →
            stands answer = true →
            (∀ exchange ∈ after, exchange.1.concludes exchange.2 = none) →
            later.interpolate next = .error .noRefutation) ∧
          ∀ conclusion,
            later.interpolate next = .error (.unsupportedConclusion conclusion) ↔
              conclusion ≠ .conflict ∧ ∃ chain, LastConcluded exchanges (conclusion, chain)) := by
  intro later exchanges
  have hsettled : later.phase = .unsatisfiable ↔ later.proof.refutation.isSome = true :=
    settled_run config surroundings steps
  refine ⟨hsettled, fun hmode next => ?_⟩
  have hp : later.proof.Reachable := (tied_run config surroundings steps).reachable
  have hstated : later.proof.refutation.map Refutation.stated =
      conclusionAfterAll none exchanges :=
    stated_run surroundings (new τ config) steps
  have hnone : later.interpolate next = .error .noRefutation ↔ later.proof.refutation = none :=
    (interpolate_eq_error_iff_witnessOf hp hmode rfl next).trans witnessOf_eq_noRefutation_iff
  refine ⟨?_, ?_, fun conclusion => ?_⟩
  · rw [hnone, ne_eq, hsettled, Option.not_isSome_iff_eq_none]
  · intro before model answer after hsplit hstands hafter
    have hmodel (found : Option (Conclusion × List Nat)) :
        Call.conclusionAfter found (.note (.sat model)) (.noted answer) = none := by
      rw [Call.conclusionAfter, Call.retracts, if_pos hstands]
      rfl
    rw [hnone, ← Option.map_eq_none_iff, hstated, hsplit, conclusionAfterAll, List.foldl_append,
      List.foldl_cons, hmodel]
    exact conclusionAfterAll_eq_none hafter
  · refine (interpolate_eq_error_iff_witnessOf hp hmode rfl next).trans ?_
    rw [witnessOf_eq_unsupported_iff, hstated]
    simp only [conclusionAfterAll_eq_some_iff]

/-- A model is found, and then there is none relative to an assumption; another conclusion is
refused, and a consumer has come and gone. -/
def supposingSteps : List (Step Unit Silent) :=
  [.call (.note (.premise 1 false [1, 2] false)), .call (.note .solve), .connect {},
    .call (.note (.sat [1])), .call (.note (.assume (-1))), .call (.note .solve),
    .call (.note (.unsat .assumptions [1])), .release, .call (.note (.unsat .conflict [7]))]

/-- The conclusion that was refused is not the one that the session answers for. -/
theorem interpolate_of_concluded_supposingSteps :
    let later := ((new Silent {}).run () supposingSteps).2.1
    later.config.mode.value = .asymmetric ∧ later.phase = .unsatisfiable ∧
      LastConcluded ((new Silent {}).exchanges () supposingSteps) (.assumptions, [1]) ∧
      later.interpolate 20 = .error (.unsupportedConclusion .assumptions) := by
  obtain ⟨hphase, hanswers⟩ := interpolate_of_concluded (τ := Silent) {} () supposingSteps
  have hlast : LastConcluded ((new Silent {}).exchanges () supposingSteps) (.assumptions, [1]) := by
    let refused : Call × Reply :=
      (.note (.unsat .conflict [7]), .noted (.error (.proof (.unknownClause 7))))
    refine ⟨((new Silent {}).exchanges () supposingSteps).take 5, .note (.unsat .assumptions [1]),
      .noted (.ok ()), [refused], rfl, rfl, ?_⟩
    exact List.forall_mem_singleton.mpr ⟨rfl, rfl⟩
  obtain ⟨-, -, hunsupported⟩ := hanswers rfl 20
  exact ⟨rfl, hphase.mpr rfl, hlast, (hunsupported .assumptions).mpr ⟨by decide, [1], hlast⟩⟩

end Session

end Interpolation
