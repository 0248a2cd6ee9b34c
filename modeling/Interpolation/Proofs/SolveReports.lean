import Interpolation.Proofs.ForwardedLogs

/-!
# What is reported of a solve

A session follows the solver through one solve after another.  While a solve is under way
nothing is known of the formula; once the solve has concluded, what it found is reported, and
that stays so until the next solve or the next conclusion.  In between the solver announces
clauses, has announcements refused, and goes on about its work, and none of this bears on what
is reported.

There is one thing that earlier solves can do to later ones.  A conclusion that was relative to
assumptions or a constraint stays on record until a model is found, and a journal that has a
conclusion on record takes no notice of a solve that begins.  So what is reported goes on being
that there is no model, while the solve is under way and even when it is given up
(`report_of_stale_conclusion`).  This is the only exception: every solve that begins with no
conclusion on record is reported as it should be, whatever was concluded before it.

* `Journal.phase_keepAll_of_quiet` --- announcements other than solves and conclusions leave the
  phase alone;
* `Journal.Settled.keepAll` --- there is a conclusion on record just while it is reported;
* `Scribe.report_of_solve` --- what is reported while a solve is under way and after it.
-/

namespace Interpolation

/-- The phase that a solve ends in with an event, if the event concludes a solve. -/
def Event.ending? : Event → Option Phase
  | .unsat .. => some .unsatisfiable
  | .sat _ => some .satisfiable
  | .unknown _ => some .input
  | _ => none

namespace Journal

open Observer Keeper

variable {j : Journal} {e : Event}

/-! ## One event -/

/-- What is accepted, solves and conclusions apart, changes the phase of a new session at most. -/
theorem phase_accept_of_quiet (hphase : j.phase ≠ .configuration) (hending : e.ending? = none)
    (hsolve : e = .solve → j.phase = .solving) : (j.accept e).phase = j.phase := by
  have hinput : j.phase.withInput = j.phase := by
    cases h : j.phase with
    | configuration => exact absurd h hphase
    | _ => rfl
  cases e with
  | «begin» | premise | derived => exact hinput
  | unsat | sat | unknown => exact absurd hending (by simp [Event.ending?])
  | solve =>
    show (if j.proof.refutation.isNone then { j with phase := .solving } else j).phase = j.phase
    split
    · exact (hsolve rfl).symm
    · rfl
  | _ => rfl

/-- A conclusion that is accepted ends the solve that is under way. -/
theorem phase_accept_of_ending {phase : Phase} (hending : e.ending? = some phase)
    (hsolving : j.phase = .solving) : (j.accept e).phase = phase := by
  cases e with
  | unsat | sat => exact Option.some.inj hending
  | unknown trail =>
    show j.phase.givenUp = phase
    rw [hsolving]
    exact Option.some.inj hending
  | _ => exact absurd hending (by simp [Event.ending?])

/-- The phase follows from what is accepted. -/
theorem phase_keep_of_ok (h : (j.keep e).1 = .ok ()) :
    (j.keep e).2.phase = ({ j with proof := (j.keep e).2.proof }.accept e).phase :=
  congrArg phase (keep_of_ok h)

theorem phase_keep_of_error {cause : ProofError} (h : (j.keep e).1 = .error cause) :
    (j.keep e).2.phase = j.phase := by
  obtain ⟨operation, -, -, hleft⟩ := exists_refused h
  rw [hleft]

/-- The conclusion on record is what it was, unless the event is itself a conclusion. -/
theorem refutation_keep
    (h : ∀ operation, e.operation? = some operation → operation.decides = false) :
    (j.keep e).2.proof.refutation = j.proof.refutation := by
  rw [proof_keep]
  cases hoperation : e.operation? with
  | none => rfl
  | some operation =>
    show (operation.apply j.proof).refutation = j.proof.refutation
    rw [← Operation.snd_attempt]
    exact (Operation.outcome_attempt j.proof operation).refutation_eq (h operation hoperation)

theorem refutation_keep_of_error {cause : ProofError} (h : (j.keep e).1 = .error cause) :
    (j.keep e).2.proof.refutation = j.proof.refutation := by
  obtain ⟨operation, -, hrefused, hleft⟩ := exists_refused h
  rw [hleft]
  exact (Operation.outcome_attempt j.proof operation).refutation_of_error hrefused

/-- An announcement that there is no model puts a conclusion on record, if it is accepted. -/
theorem refutation_keep_unsat {conclusion : Conclusion} {chain : List Nat}
    (h : (j.keep (.unsat conclusion chain)).1 = .ok ()) :
    ∃ witness, (j.keep (.unsat conclusion chain)).2.proof.refutation =
      some ⟨conclusion, chain, witness⟩ := by
  rw [keep_eq] at h ⊢
  obtain ⟨key, hkey⟩ := exists_ok_of_settle h
  obtain ⟨witness, hwitness⟩ :=
    (Operation.outcome_attempt j.proof (.conclude conclusion chain)).refutation_of_conclude hkey
  refine ⟨witness, ?_⟩
  show (j.settle (Operation.attempt j.proof (.conclude conclusion chain)) _).2.proof.refutation = _
  rw [settle_of_ok hkey]
  exact hwitness

/-- A model takes it off the record. -/
theorem refutation_keep_sat {model : Clause} (h : (j.keep (.sat model)).1 = .ok ()) :
    (j.keep (.sat model)).2.proof.refutation = none := by
  rw [keep_eq] at h ⊢
  obtain ⟨key, hkey⟩ := exists_ok_of_settle h
  show (j.settle (Operation.attempt j.proof .withdraw) _).2.proof.refutation = none
  rw [settle_of_ok hkey]
  exact (Operation.outcome_attempt j.proof .withdraw).refutation_of_withdraw hkey

/-! ## The phase and the conclusion on record -/

/-- Whether a journal reports that there is no model just while it has that on record. -/
def Settled (j : Journal) : Prop :=
  j.phase = .unsatisfiable ↔ j.proof.refutation.isSome = true

theorem settled_initial : Settled {} := iff_of_false (by decide) (by decide)

/-- **Phase and conclusion stay in step with each event,** accepted or refused. -/
theorem Settled.keep (h : j.Settled) (e : Event) : (j.keep e).2.Settled := by
  unfold Settled at h ⊢
  cases hkeep : (j.keep e).1 with
  | error cause => rw [phase_keep_of_error hkeep, refutation_keep_of_error hkeep, h]
  | ok u =>
    rw [phase_keep_of_ok hkeep]
    have hwithInput : j.phase.withInput = .unsatisfiable ↔ j.phase = .unsatisfiable := by
      cases j.phase <;> decide
    have hgivenUp : j.phase.givenUp = .unsatisfiable ↔ j.phase = .unsatisfiable := by
      cases j.phase <;> decide
    cases e with
    | «begin» | premise | derived =>
      rw [refutation_keep (by rintro _ ⟨⟩; rfl), ← h]
      exact hwithInput
    | unsat conclusion chain =>
      obtain ⟨witness, hwitness⟩ := refutation_keep_unsat hkeep
      rw [hwitness]
      exact iff_of_true rfl rfl
    | sat model =>
      rw [refutation_keep_sat hkeep]
      exact iff_of_false (by simp [accept]) (by simp)
    | unknown trail =>
      rw [refutation_keep (by rintro _ ⟨⟩), ← h]
      exact hgivenUp
    | solve =>
      rw [show (j.keep .solve).2.proof = j.proof from j.proof_accept .solve]
      show (if j.proof.refutation.isNone then { j with phase := .solving } else j).phase = _ ↔ _
      split
      · rename_i hnone
        exact iff_of_false (by simp) (by simp [Option.isNone_iff_eq_none.mp hnone])
      · exact h
    | delete | weaken | strengthen | finalize | assume | constrain | resetAssumptions
    | assumptionClause | status =>
      rw [refutation_keep (by rintro _ ⟨⟩ <;> rfl), ← h]
      exact Iff.rfl

theorem Settled.keepAll (h : j.Settled) (events : List Event) : (keepAll j events).Settled := by
  induction events generalizing j with
  | nil => exact h
  | cons e rest ih => exact ih (h.keep e)

/-- A solve that begins is noticed when there is no conclusion on record. -/
theorem Settled.phase_keep_solve (h : j.Settled) :
    (j.keep .solve).2.phase = .solving ↔ j.proof.refutation = none := by
  show (if j.proof.refutation.isNone then { j with phase := .solving } else j).phase = _ ↔ _
  cases hrefutation : j.proof.refutation with
  | none => exact iff_of_true rfl rfl
  | some r =>
    have hphase : j.phase = .unsatisfiable := h.mpr (by rw [hrefutation]; rfl)
    refine iff_of_false ?_ (Option.some_ne_none r)
    show j.phase ≠ .solving
    rw [hphase]
    decide

/-! ## Events in turn -/

/-- **Until the next solve or conclusion is accepted the phase stays what it is.**  A solve that
is already under way may be announced once more. -/
theorem phase_keepAll_of_quiet (hphase : j.phase ≠ .configuration) (events : List Event)
    (hquiet : ∀ e ∈ accepted j events, e.ending? = none ∧ (e = .solve → j.phase = .solving)) :
    (keepAll j events).phase = j.phase := by
  induction events generalizing j with
  | nil => rfl
  | cons e rest ih =>
    have hsame : (j.keep e).2.phase = j.phase := by
      cases hkeep : (j.keep e).1 with
      | error cause => exact phase_keep_of_error hkeep
      | ok u =>
        rw [accepted_cons_of_ok hkeep] at hquiet
        obtain ⟨hending, hsolve⟩ := hquiet e List.mem_cons_self
        rw [phase_keep_of_ok hkeep]
        exact phase_accept_of_quiet hphase hending hsolve
    have hrest : ∀ e' ∈ accepted (j.keep e).2 rest,
        e'.ending? = none ∧ (e' = .solve → j.phase = .solving) := by
      intro e' he'
      refine hquiet e' ?_
      cases hkeep : (j.keep e).1 with
      | error cause =>
        rw [accepted_cons_of_error hkeep]
        exact he'
      | ok u =>
        rw [accepted_cons_of_ok hkeep]
        exact List.mem_cons_of_mem e he'
    rw [← hsame] at hphase hrest
    exact (ih hphase hrest).trans hsame

/-- A solve is under way until a conclusion is accepted. -/
theorem phase_of_solving (hsolving : j.phase = .solving) {during : List Event}
    (hduring : ∀ e ∈ accepted j during, e.ending? = none) :
    (keepAll j during).phase = .solving := by
  have hphase : j.phase ≠ .configuration := by
    rw [hsolving]
    decide
  rw [phase_keepAll_of_quiet hphase during fun e he => ⟨hduring e he, fun _ => hsolving⟩, hsolving]

/-- What a solve concludes stands until the next solve or conclusion is accepted. -/
theorem phase_of_ending {phase : Phase} (hsolving : j.phase = .solving)
    (hending : e.ending? = some phase) (hok : (j.keep e).1 = .ok ()) {rest : List Event}
    (hrest : ∀ e' ∈ accepted (j.keep e).2 rest, e'.ending? = none ∧ e' ≠ .solve) :
    (keepAll (j.keep e).2 rest).phase = phase := by
  have hended : (j.keep e).2.phase = phase := by
    rw [phase_keep_of_ok hok]
    exact phase_accept_of_ending hending hsolving
  have hphase : phase ≠ .configuration := by
    rintro rfl
    cases e <;> simp [Event.ending?] at hending
  rw [← hended] at hphase
  rw [phase_keepAll_of_quiet hphase rest fun e' he' =>
    ⟨(hrest e' he').1, fun hsolve => absurd hsolve (hrest e' he').2⟩, hended]

end Journal

namespace Scribe

open Observer Keeper

variable {ε τ : Type} [Observer ε τ]

/-- **What is reported is what became of the most recent solve.**  Take a scribe at its start or
after a reset, with any consumer, and let a solve begin after any events.  The scribe notices
the solve just when no conclusion is on record at that point.  If so, then as long as no
conclusion is accepted the solve is under way and nothing is reported of the formula; and once
one is accepted, what it says is reported until the next solve or conclusion that is accepted.
Whatever earlier solves concluded makes no difference, and refused events make none either. -/
theorem report_of_solve (surroundings : ε) {s : Scribe τ} (hs : s.keeper = {})
    (before during : List Event) :
    let begun := noteAll surroundings s (before ++ [.solve])
    (begun.1.keeper.phase = .solving ↔
        (noteAll surroundings s before).1.keeper.proof.refutation = none) ∧
      (begun.1.keeper.phase = .solving →
        (∀ e ∈ standing begun.2 begun.1 during, e.ending? = none) →
        let later := noteAll begun.2 begun.1 during
        (later.1.keeper.phase = .solving ∧ later.1.keeper.report = .unknown) ∧
          ∀ e phase rest, e.ending? = some phase →
            stands (note later.2 later.1 e).outcome = true →
            let ended := note later.2 later.1 e
            (∀ e' ∈ standing ended.surroundings ended.observer rest,
              e'.ending? = none ∧ e' ≠ .solve) →
            let last := noteAll ended.surroundings ended.observer rest
            last.1.keeper.phase = phase ∧ last.1.keeper.report = phase.report) := by
  intro begun
  have hbefore : (noteAll surroundings s before).1.keeper = keepAll {} before := by
    rw [Relay.keeper_noteAll, hs]
  have hbegun : begun.1.keeper = ((keepAll {} before : Journal).keep .solve).2 := by
    rw [Relay.keeper_noteAll, hs, keepAll_append]
    rfl
  constructor
  · rw [hbegun, hbefore]
    exact (Journal.settled_initial.keepAll before).phase_keep_solve
  · intro hsolving hduring later
    rw [Relay.standing_eq_accepted] at hduring
    have hlater : later.1.keeper.phase = .solving := by
      rw [Relay.keeper_noteAll]
      exact Journal.phase_of_solving hsolving hduring
    refine ⟨⟨hlater, congrArg Phase.report hlater⟩, ?_⟩
    intro e phase rest hending hstands ended hrest last
    have hended : ended.observer.keeper = (later.1.keeper.keep e).2 := Relay.keeper_note
    rw [Relay.standing_eq_accepted, hended] at hrest
    have hlast : last.1.keeper.phase = phase := by
      rw [Relay.keeper_noteAll, hended]
      exact Journal.phase_of_ending hlater hending (Relay.kept_of_stands hstands) hrest
    exact ⟨hlast, congrArg Phase.report hlast⟩

/-- An incremental run, in which a conclusion relative to assumptions is followed by a model. -/
def incrementalRun : List Event :=
  [.premise 1 false [1, 2] false, .solve, .unsat .assumptions [1], .sat [1, -2]]

/-- What goes on during a solve: a clause, a refused conclusion, and the solve said again. -/
def interimEvents : List Event :=
  [.premise 2 false [-1] false, .unsat .conflict [7], .solve, .assume 2]

theorem report_of_solve_incrementalRun :
    (Scribe.new Silent).keeper = {} ∧
      let begun := noteAll () (Scribe.new Silent) (incrementalRun ++ [.solve])
      begun.1.keeper.phase = .solving ∧
        (∀ e ∈ standing begun.2 begun.1 interimEvents, e.ending? = none) ∧
        let later := noteAll begun.2 begun.1 interimEvents
        (later.1.keeper.phase = .solving ∧ later.1.keeper.report = .unknown) ∧
          stands (note later.2 later.1 (.unsat .constraint [1])).outcome = true ∧
          let ended := note later.2 later.1 (.unsat .constraint [1])
          (∀ e ∈ standing ended.surroundings ended.observer
              [.delete 9 false [], .delete 1 false []],
            e.ending? = none ∧ e ≠ .solve) ∧
          (noteAll ended.surroundings ended.observer
            [.delete 9 false [], .delete 1 false []]).1.keeper.report = .unsatisfiable := by
  obtain ⟨hnoticed, hreported⟩ :=
    report_of_solve () (s := Scribe.new Silent) rfl incrementalRun interimEvents
  have hsolving := hnoticed.mpr (by decide)
  obtain ⟨hlater, hended⟩ := hreported hsolving (by decide)
  exact ⟨rfl, hsolving, by decide, hlater, by decide, by decide,
    (hended (.unsat .constraint [1]) _ [.delete 9 false [], .delete 1 false []] rfl (by decide)
      (by decide)).2⟩

/-- A conclusion that was relative to assumptions is still reported during the next solve, and
after that solve was given up, although the formula has not been refuted. -/
theorem report_of_stale_conclusion :
    let solved := (noteAll () (Scribe.new Silent) [.solve, .unsat .assumptions [], .solve]).1
    let givenUp := (noteAll () solved [.unknown []]).1
    solved.keeper.proof.concluded = false ∧
      solved.keeper.phase = .unsatisfiable ∧ solved.keeper.report = .unsatisfiable ∧
      givenUp.keeper.phase = .unsatisfiable ∧ givenUp.keeper.report = .unsatisfiable := by
  decide

end Scribe
end Interpolation
