import Interpolation.Proofs.RelayAnswers
import Interpolation.Session

/-!
# Runs of a session

A session is called to take note of events, to revise its settings, to say how things are
labelled, to construct an interpolant and to start afresh (`Call`).  Between calls a consumer
may be connected or released, and the surroundings may be changed by others (`Step`).  A run
takes a session through any number of steps, and gives the replies to the calls.

* `Dossier.keep_of_error`, `Dossier.keep_of_ok` --- an event refused, and an event accepted;
* `Dossier.journal_keep` --- labels have no say in what becomes of the journal;
* `Session.note_of_error`, `Session.journal_note` --- the same, seen from the session;
* `Session.perform` --- what a call comes to;
* `Session.run`, `Session.exchanges` --- what a run comes to;
* `Session.run_ind` --- what calls preserve runs preserve.
-/

namespace Interpolation

namespace Dossier

/-- What becomes of the labels when an event is accepted: a fresh clause takes the label said
in advance. -/
def accept (d : Dossier) : Event → Dossier
  | .premise id _ _ false => d.spendPending id
  | _ => d

variable {d : Dossier} {e : Event}

theorem keep_of_error {cause : ProofError} (h : (d.journal.keep e).1 = .error cause) :
    d.keep e = (.error cause, { d with journal := (d.journal.keep e).2 }) := by
  have hkeep : d.journal.keep e = (.error cause, (d.journal.keep e).2) := Prod.ext h rfl
  rw [keep, hkeep]

theorem keep_of_ok (h : (d.journal.keep e).1 = .ok ()) :
    d.keep e = (.ok (), { d with journal := (d.journal.keep e).2 }.accept e) := by
  have hkeep : d.journal.keep e = (.ok (), (d.journal.keep e).2) := Prod.ext h rfl
  rw [keep, hkeep]
  cases e with
  | premise id redundant clause restored => cases restored <;> rfl
  | _ => rfl

/-- Labels apart, a dossier is as it was. -/
@[simp] theorem journal_accept (d : Dossier) (e : Event) : (d.accept e).journal = d.journal := by
  unfold accept
  split
  · unfold spendPending
    split <;> rfl
  · rfl

/-- A dossier refuses what its journal refuses. -/
theorem fst_keep (d : Dossier) (e : Event) : (d.keep e).1 = (d.journal.keep e).1 := by
  cases hkeep : (d.journal.keep e).1 with
  | error cause => rw [keep_of_error hkeep]
  | ok u => rw [keep_of_ok hkeep]

/-- The journal in a dossier is kept as it would be alone. -/
theorem journal_keep (d : Dossier) (e : Event) : (d.keep e).2.journal = (d.journal.keep e).2 := by
  cases hkeep : (d.journal.keep e).1 with
  | error cause => rw [keep_of_error hkeep]
  | ok u => rw [keep_of_ok hkeep, journal_accept]

end Dossier

namespace Session

open Observer

variable {ε τ : Type}

/-- The session with another journal. -/
def withJournal (s : Session τ) (journal : Journal) : Session τ :=
  { s with keeper := { s.keeper with journal } }

variable [Observer ε τ] {surroundings : ε} {s : Session τ} {e : Event}

/-- What the journal refuses the session refuses, and nothing but the journal can change. -/
theorem note_of_error {cause : ProofError} (h : (s.keeper.journal.keep e).1 = .error cause) :
    note surroundings s e =
      ⟨.error (.proof cause), s.withJournal (s.keeper.journal.keep e).2, surroundings⟩ := by
  have hdossier := Dossier.keep_of_error h
  have hkeep : (Keeper.keep s.keeper e).1 = .error cause := congrArg Prod.fst hdossier
  have hnote : note surroundings s e =
      ⟨.error (.proof cause), { s with keeper := (s.keeper.keep e).2 }, surroundings⟩ :=
    Relay.note_of_error hkeep
  rw [hnote, hdossier]
  rfl

theorem keeper_note :
    (note surroundings s e).observer.keeper = (s.keeper.keep e).2 := Relay.keeper_note

/-- The journal of a session is kept as it would be alone. -/
theorem journal_note :
    (note surroundings s e).observer.keeper.journal = (s.keeper.journal.keep e).2 := by
  rw [keeper_note, Dossier.journal_keep]

theorem proof_note :
    (note surroundings s e).observer.proof = (s.keeper.journal.keep e).2.proof :=
  congrArg Journal.proof journal_note

/-- The journal has accepted what stands. -/
theorem kept_of_stands (h : stands (note surroundings s e).outcome = true) :
    (s.keeper.journal.keep e).1 = .ok () := by
  rw [← Dossier.fst_keep]
  exact Relay.kept_of_stands h

end Session

/-! ## Calls and steps -/

/-- What a session can be asked to do, consumers apart. -/
inductive Call
  /-- To take note of an event. -/
  | note (e : Event)
  /-- To use another system. -/
  | setMode (mode : Mode)
  /-- To have derivations checked or not. -/
  | setCheckDerivations (value : Bool)
  /-- To have chains read strictly or not. -/
  | setStrictChains (value : Bool)
  /-- To label a variable. -/
  | setScope (atom : Nat) (scope : Scope)
  /-- To label a clause. -/
  | setPart (id : Nat) (part : Part)
  /-- To label the next clause in advance. -/
  | setNextPart (part : Part)
  /-- To construct an interpolant, with fresh variables from the one given. -/
  | interpolate (next : Nat)
  /-- To start afresh. -/
  | reset

/-- Whether a call bears on the settings of a session at most. -/
def Call.configures : Call → Bool
  | .setMode _ => true
  | .setCheckDerivations _ => true
  | .setStrictChains _ => true
  | .interpolate _ => true
  | _ => false

/-- What is returned for a call. -/
inductive Reply
  /-- The answer to an event. -/
  | noted (answer : Except Error Unit)
  /-- Whether a setting was revised, or why not. -/
  | revised (answer : Except SettingError Unit)
  /-- Whether the scope of a variable was news. -/
  | scoped (news : Bool)
  /-- Whether a clause was labelled, or why not. -/
  | labelled (answer : Except LabelError Unit)
  /-- An interpolant, or why there is none. -/
  | interpolated (result : Except InterpolationError Interpolant)
  /-- Nothing. -/
  | done

/-- A step in the run of a session, with consumers of some type in some surroundings. -/
inductive Step (ε τ : Type)
  /-- The session is called. -/
  | call (c : Call)
  /-- A consumer is connected, in place of the one before. -/
  | connect (consumer : τ)
  /-- The consumer is released. -/
  | release
  /-- The surroundings are changed by others. -/
  | outside (f : ε → ε)

/-- Whether a step is a call. -/
def Step.isCall {ε τ : Type} : Step ε τ → Bool
  | call _ => true
  | _ => false

/-- The call that is made in a step, if one is. -/
def Step.call? {ε τ : Type} : Step ε τ → Option Call
  | call c => some c
  | _ => none

namespace Session

open Observer

variable {ε τ : Type}

/-- The session after a change that may have been refused, and whether it was. -/
def revise {β : Type} (s : Session τ) : Except β (Session τ) → Except β Unit × Session τ
  | .ok revised => (.ok (), revised)
  | .error cause => (.error cause, s)

/-- A change that may have been refused leads to the session as it was or to one changed. -/
theorem revise_ind {β γ : Type} {P : Session τ → Prop} {s : Session τ} (hs : P s)
    (result : Except β γ) (f : γ → Session τ) (hf : ∀ c, result = .ok c → P (f c)) :
    P (s.revise (result.map f)).2 := by
  cases result with
  | error cause => exact hs
  | ok c => exact hf c rfl

variable [Observer ε τ]

/-- Calls a session, in surroundings that only an event can bear on. -/
def perform (surroundings : ε) (s : Session τ) : Call → Reply × Session τ × ε
  | .note e =>
    let reaction : Reaction ε (Session τ) := note surroundings s e
    (.noted reaction.outcome, reaction.observer, reaction.surroundings)
  | .setMode mode =>
    let (answer, s) := s.revise (s.setMode mode)
    (.revised answer, s, surroundings)
  | .setCheckDerivations value =>
    let (answer, s) := s.revise (s.setCheckDerivations value)
    (.revised answer, s, surroundings)
  | .setStrictChains value =>
    let (answer, s) := s.revise (s.setStrictChains value)
    (.revised answer, s, surroundings)
  | .setScope atom scope =>
    let (news, s) := s.setScope atom scope
    (.scoped news, s, surroundings)
  | .setPart id part =>
    let (answer, s) := s.revise (s.setPart id part)
    (.labelled answer, s, surroundings)
  | .setNextPart part => (.done, s.setNextPart part, surroundings)
  | .interpolate next => (.interpolated (s.interpolate next), s, surroundings)
  | .reset => (.done, s.reset, surroundings)

/-- A call that bears on the settings leaves all else as it was. -/
theorem exists_withConfig (surroundings : ε) {s : Session τ} {c : Call} (hc : c.configures = true) :
    ∃ config, (s.perform surroundings c).2.1 = s.withConfig config := by
  let Configured : Session τ → Prop := fun t => ∃ config, t = s.withConfig config
  have hsame : Configured s := ⟨s.config, rfl⟩
  cases c with
  | setMode mode =>
    exact revise_ind hsame (s.config.setMode mode s.phase) _ fun config _ => ⟨config, rfl⟩
  | setCheckDerivations value =>
    exact revise_ind hsame (s.config.setCheckDerivations value s.phase) _ fun config _ =>
      ⟨config, rfl⟩
  | setStrictChains value =>
    exact revise_ind hsame (s.config.setStrictChains value s.phase) _ fun config _ => ⟨config, rfl⟩
  | interpolate next => exact hsame
  | note | setScope | setPart | setNextPart | reset =>
    exact absurd hc (by simp [Call.configures])

/-- Takes a session through steps in turn, and returns the replies to the calls among them,
with the session and its surroundings at the end. -/
def run (surroundings : ε) (s : Session τ) : List (Step ε τ) → List Reply × Session τ × ε
  | [] => ([], s, surroundings)
  | .call c :: rest =>
    let (reply, s, surroundings) := s.perform surroundings c
    let (replies, later) := run surroundings s rest
    (reply :: replies, later)
  | .connect consumer :: rest => run surroundings (s.connect consumer).2 rest
  | .release :: rest => run surroundings s.release.2 rest
  | .outside f :: rest => run (f surroundings) s rest

/-- The calls in a run, each with the reply to it. -/
def exchanges (surroundings : ε) (s : Session τ) (steps : List (Step ε τ)) : List (Call × Reply) :=
  (steps.filterMap Step.call?).zip (s.run surroundings steps).1

theorem exchanges_call (surroundings : ε) (s : Session τ) (c : Call) (rest : List (Step ε τ)) :
    s.exchanges surroundings (.call c :: rest) =
      (c, (s.perform surroundings c).1) ::
        (s.perform surroundings c).2.1.exchanges (s.perform surroundings c).2.2 rest := rfl

variable {surroundings : ε} {s : Session τ} {steps : List (Step ε τ)}

/-- Only the calls among the steps are replied to. -/
theorem call_mem_of_mem_exchanges {c : Call} {reply : Reply}
    (h : (c, reply) ∈ s.exchanges surroundings steps) : .call c ∈ steps := by
  obtain ⟨step, hstep, hcall⟩ := List.mem_filterMap.mp (List.of_mem_zip h).1
  cases step with
  | call c' =>
    obtain rfl : c' = c := Option.some.inj hcall
    exact hstep
  | connect | release | outside => exact absurd hcall.symm (Option.some_ne_none c)

/-- **What every call preserves of a dossier a run preserves,** for nothing else that happens in a
run bears on the dossier. -/
theorem run_ind {P : Dossier → Prop} (hs : P s.keeper)
    (hcall : ∀ (outside : ε) (t : Session τ) (c : Call),
      (c, (t.perform outside c).1) ∈ s.exchanges surroundings steps →
        P t.keeper → P (t.perform outside c).2.1.keeper) :
    P (s.run surroundings steps).2.1.keeper := by
  induction steps generalizing s surroundings with
  | nil => exact hs
  | cons step rest ih =>
    cases step with
    | call c =>
      rw [exchanges_call] at hcall
      refine ih (hcall surroundings s c List.mem_cons_self hs) fun outside t c' hc' => ?_
      exact hcall outside t c' (List.mem_cons_of_mem _ hc')
    | connect consumer => exact ih (s := (s.connect consumer).2) hs hcall
    | release => exact ih (s := s.release.2) hs hcall
    | outside f => exact ih hs hcall

end Session
end Interpolation
