import Interpolation.Proofs.RecordRenaming
import Interpolation.Proofs.SessionRuns
import Interpolation.Proofs.SolveReports

/-!
# Refutations are final

Once a formula has been refuted there is nothing more to say of it, and a session takes care
that nothing more is said.  Clauses and conclusions are refused from then on.  Some events are
still accepted: clauses may be deleted, the beginning of the proof may be noted if it was not
before, and solves may begin and be given up.  None of them touches what an interpolant is made
from, since that is in the records, and a record is the same whether its clause is active or not.

So a session in which the formula was refuted can be asked for an interpolant at any later time,
whatever the solver does in between and whoever is listening, and gives the same answer
(`Session.final_of_refuted`).  It takes a new labelling, other settings or a fresh start to
get another.

* `interpolate_eq_of_extends` --- flags have no say in an interpolant;
* `Dossier.Stays` --- what does not change, and `Dossier.Refuted.stays_keep`, that it does not;
* `Session.note_barred` --- what is refused;
* `Session.final_of_refuted` --- all this for runs of a session.
-/

namespace Interpolation

/-! ## What an interpolant is made from -/

section

variable {p q : Proof} {labels : Labelling} {config : Config}

/-- Where records stay and none is added, there is none that was not there before. -/
theorem Proof.Extends.rel_record? (h : p.Extends q) (hsize : q.size = p.size) (key : Nat) :
    Option.Rel Record.Agrees (p.record? key) (q.record? key) := by
  refine Proof.rel_record?_of_size hsize (fun {key r s} hr hs => ?_) key
  obtain ⟨later, hlater, hagrees⟩ := h key r hr
  obtain rfl : s = later := Option.some.inj (hs.symm.trans hlater)
  exact hagrees

/-- Records that differ in their flags at most are namesakes under their own keys. -/
theorem Proof.Extends.renamed (h : p.Extends q) (hsize : q.size = p.size) (labels : Labelling) :
    Renamed (fun _ => True) id p q labels labels where
  inj _ _ heq := heq
  closed _ _ _ := trivial
  record {key} _ := by
    have hrel := h.rel_record? hsize key
    rw [id]
    generalize p.record? key = found, q.record? key = later at hrel
    cases hrel with
    | none => exact .none
    | some hagrees =>
      have hantecedents := hagrees.antecedents.trans (List.map_id _).symm
      exact .some ⟨hagrees.id, hagrees.clause, hagrees.source, hantecedents⟩
  part _ _ _ := rfl
  scope _ _ _ := rfl

/-- **Flags have no say in an interpolant.**  If no record is added, and none changes but for its
flag, then the same refutation leads to the same interpolant, or to the same error. -/
theorem interpolate_eq_of_extends (h : p.Extends q) (hsize : q.size = p.size)
    (hrefutation : q.refutation = p.refutation) (next : Nat) :
    interpolate q labels config next = interpolate p labels config next := by
  have hwitnessOf : witnessOf q = witnessOf p := by rw [witnessOf, witnessOf, hrefutation]
  cases hwitness : witnessOf p with
  | error e =>
    unfold interpolate
    rw [hwitnessOf, hwitness]
    cases config.mode.value <;> rfl
  | ok witness =>
    have hrel := h.rel_record? hsize
    have hlabelled : firstUnlabelled? q labels = firstUnlabelled? p labels :=
      firstUnlabelled?_congr hrel hsize (fun hagrees => ⟨hagrees.source, hagrees.id⟩) labels
    have hcone : cone q.antecedentsAt witness = (cone p.antecedentsAt witness).map id := by
      rw [Proof.antecedentsAt_congr hrel fun hagrees => hagrees.antecedents, List.map_id]
    exact interpolate_congr hwitness (hwitnessOf.trans hwitness) hlabelled (h.renamed hsize labels)
      rfl trivial (fun _ _ => trivial) hcone next

end

/-! ## What is refused -/

/-- Whether an operation brings in a clause, or concludes something or withdraws that. -/
def Operation.barred : Operation → Bool
  | premise .. => true
  | derived .. => true
  | conclude .. => true
  | withdraw => true
  | _ => false

/-- Whether an event says something that a refutation leaves no room for: that there is another
clause, or another conclusion. -/
def Event.barred (e : Event) : Bool := e.operation?.any Operation.barred

theorem Proof.isSome_refutation {p : Proof} (h : p.concluded = true) :
    p.refutation.isSome = true := by
  unfold concluded at h
  split at h
  · rename_i r hr
    rw [hr]
    rfl
  · exact absurd h Bool.false_ne_true

/-- Once the formula is refuted no clause is brought in and nothing is concluded. -/
theorem Operation.attempt_barred {p : Proof} {operation : Operation}
    (hconcluded : p.concluded = true) (hbarred : operation.barred = true) :
    operation.attempt p = (.error .sessionConcluded, p) := by
  have hopen : p.checkOpen = .error .sessionConcluded := if_pos hconcluded
  have hclause (id : Nat) (clause : Clause) :
      p.checkClause id clause = .error .sessionConcluded := by
    rw [Proof.checkClause, hopen]
    rfl
  cases operation with
  | premise id redundant clause restored =>
    show answering some (p.addPremise id redundant clause restored) = _
    unfold Proof.addPremise
    rw [hclause]
    rfl
  | derived id redundant clause antecedents =>
    show answering some (p.addDerived id redundant clause antecedents) = _
    unfold Proof.addDerived
    rw [hclause]
    rfl
  | conclude conclusion chain =>
    rw [attempt, Proof.conclude, hopen]
    rfl
  | withdraw =>
    rw [attempt, Proof.withdraw, hopen]
    rfl
  | _ => exact absurd hbarred Bool.false_ne_true

namespace Journal

variable {j : Journal} {e : Event}

theorem keep_barred (hconcluded : j.proof.concluded = true) (hbarred : e.barred = true) :
    j.keep e = (.error .sessionConcluded, j) := by
  obtain ⟨operation, hoperation, hbarred⟩ := (Option.any_eq_true _ _).mp hbarred
  rw [keep_eq, hoperation]
  show j.settle (operation.attempt j.proof) _ = _
  rw [Operation.attempt_barred hconcluded hbarred]
  rfl

/-- What is still accepted leaves the phase alone. -/
theorem phase_accept_of_unsatisfiable (hrefutation : j.proof.refutation.isSome = true)
    (hphase : j.phase = .unsatisfiable) (hbarred : e.barred = false) :
    (j.accept e).phase = .unsatisfiable := by
  cases e with
  | «begin» firstId =>
    show j.phase.withInput = .unsatisfiable
    rw [hphase]
    rfl
  | unknown trail =>
    show j.phase.givenUp = .unsatisfiable
    rw [hphase]
    rfl
  | solve =>
    have hnone : j.proof.refutation.isNone = false := by simpa using hrefutation
    show (if j.proof.refutation.isNone then { j with phase := .solving } else j).phase = _
    rw [hnone]
    exact hphase
  | premise | derived | unsat | sat => exact absurd hbarred.symm Bool.false_ne_true
  | _ => exact hphase

/-- No event bears on the conclusion, or makes a record. -/
theorem proof_keep_of_concluded (hconcluded : j.proof.concluded = true) (e : Event) :
    (j.keep e).2.proof.size = j.proof.size ∧
      (j.keep e).2.proof.refutation = j.proof.refutation := by
  rw [proof_keep]
  cases hoperation : e.operation? with
  | none => exact ⟨rfl, rfl⟩
  | some operation =>
    have hreset := Event.operation?_ne_reset hoperation
    have houtcome := Operation.outcome_attempt j.proof operation
    show (operation.apply j.proof).size = _ ∧ (operation.apply j.proof).refutation = _
    rw [← Operation.snd_attempt]
    exact ⟨houtcome.size_of_concluded hconcluded hreset,
      houtcome.refutation_of_concluded hconcluded hreset⟩

/-- So there being no model goes on being reported. -/
theorem phase_keep_of_concluded (hconcluded : j.proof.concluded = true)
    (hphase : j.phase = .unsatisfiable) (e : Event) : (j.keep e).2.phase = .unsatisfiable := by
  cases hbarred : e.barred with
  | true =>
    rw [keep_barred hconcluded hbarred]
    exact hphase
  | false =>
    cases hkeep : (j.keep e).1 with
    | error cause => exact (phase_keep_of_error hkeep).trans hphase
    | ok u =>
      have hrefuted : (j.keep e).2.proof.refutation.isSome = true := by
        rw [(proof_keep_of_concluded hconcluded e).2]
        exact Proof.isSome_refutation hconcluded
      rw [phase_keep_of_ok hkeep]
      refine phase_accept_of_unsatisfiable ?_ ?_ hbarred
      · exact hrefuted
      · exact hphase

end Journal

/-! ## What does not change -/

namespace Dossier

/-- Whether the formula has been refuted, and that is what is reported. -/
structure Refuted (d : Dossier) : Prop where
  /-- The refutation is on record. -/
  concluded : d.journal.proof.concluded = true
  /-- It is reported that there is no model. -/
  phase : d.journal.phase = .unsatisfiable

/-- Whether a dossier is what it was in all that matters to an interpolant: the records, which
clauses are active apart, the refutation and the phase, the labels, with the one said in
advance, and the settings. -/
structure Stays (d later : Dossier) : Prop where
  /-- No record has changed but for its flag. -/
  records : d.journal.proof.Extends later.journal.proof
  /-- No record was added. -/
  size : later.journal.proof.size = d.journal.proof.size
  /-- The refutation is the same. -/
  refutation : later.journal.proof.refutation = d.journal.proof.refutation
  /-- The phase is the same. -/
  phase : later.journal.phase = d.journal.phase
  /-- The labels are the same. -/
  labels : later.labels = d.labels
  /-- The settings are the same. -/
  config : later.config = d.config

namespace Stays

variable {d later : Dossier}

theorem refl (d : Dossier) : d.Stays d := ⟨.refl _, rfl, rfl, rfl, rfl, rfl⟩

theorem trans {last : Dossier} (h : d.Stays later) (h' : later.Stays last) : d.Stays last where
  records := h.records.trans h'.records
  size := h'.size.trans h.size
  refutation := h'.refutation.trans h.refutation
  phase := h'.phase.trans h.phase
  labels := h'.labels.trans h.labels
  config := h'.config.trans h.config

/-- A formula stays refuted. -/
theorem refuted (h : d.Stays later) (hd : d.Refuted) : later.Refuted where
  concluded := by
    unfold Proof.concluded
    rw [h.refutation]
    exact hd.concluded
  phase := h.phase.trans hd.phase

end Stays

variable {d : Dossier}

/-- Only a clause of the formula would take the label said in advance, and none is accepted. -/
theorem Refuted.labels_keep (h : d.Refuted) (e : Event) :
    (d.keep e).2.labels = d.labels ∧ (d.keep e).2.config = d.config := by
  cases hkeep : (d.journal.keep e).1 with
  | error cause =>
    rw [keep_of_error hkeep]
    exact ⟨rfl, rfl⟩
  | ok u =>
    have hbarred : e.barred = false := by
      by_contra hbarred
      rw [Bool.not_eq_false] at hbarred
      rw [Journal.keep_barred h.concluded hbarred] at hkeep
      exact absurd hkeep (by simp)
    rw [keep_of_ok hkeep]
    cases e with
    | premise => exact absurd hbarred.symm Bool.false_ne_true
    | _ => exact ⟨rfl, rfl⟩

/-- **After a refutation no event changes what matters to an interpolant,** whether it is
accepted or refused. -/
theorem Refuted.stays_keep (h : d.Refuted) (e : Event) : d.Stays (d.keep e).2 := by
  obtain ⟨hsize, hrefutation⟩ := Journal.proof_keep_of_concluded h.concluded e
  have hphase := (Journal.phase_keep_of_concluded h.concluded h.phase e).trans h.phase.symm
  have hrecords := d.journal.extends_keep e
  rw [← journal_keep] at hsize hrefutation hphase hrecords
  obtain ⟨hlabels, hconfig⟩ := h.labels_keep e
  exact ⟨hrecords, hsize, hrefutation, hphase, hlabels, hconfig⟩

end Dossier

/-! ## Sessions -/

/-- Whether a step revises the labels or the settings, or starts afresh. -/
def Step.revises {ε τ : Type} : Step ε τ → Bool
  | .call (.note _) => false
  | .call (.interpolate _) => false
  | .call _ => true
  | _ => false

namespace Session

open Observer

variable {ε τ : Type} [Observer ε τ]

theorem note_barred {s : Session τ} (h : s.keeper.Refuted) {e : Event} (hbarred : e.barred = true)
    (surroundings : ε) :
    note surroundings s e = ⟨.error (.proof .sessionConcluded), s, surroundings⟩ := by
  have hjournal := Journal.keep_barred h.concluded hbarred
  rw [note_of_error (congrArg Prod.fst hjournal), hjournal]
  rfl

/-- **A session in which the formula was refuted stays what it was in all that matters,** as
long as nobody revises it. -/
theorem stays_run (surroundings : ε) {s : Session τ} (h : s.keeper.Refuted)
    {steps : List (Step ε τ)} (hsteps : ∀ step ∈ steps, step.revises = false) :
    s.keeper.Stays (run surroundings s steps).2.1.keeper := by
  refine run_ind (P := s.keeper.Stays) (.refl _) fun outside t c hc ht => ?_
  have hspares := hsteps _ (call_mem_of_mem_exchanges hc)
  cases c with
  | interpolate next => exact ht
  | note e =>
    show s.keeper.Stays (note outside t e).observer.keeper
    rw [keeper_note]
    exact ht.trans ((ht.refuted h).stays_keep e)
  | setMode | setCheckDerivations | setStrictChains | setScope | setPart | setNextPart
  | reset => exact absurd hspares (by simp [Step.revises])

/-- What matters to an interpolant is all that matters. -/
theorem interpolate_of_stays {s later : Session τ} (h : s.keeper.Stays later.keeper) (next : Nat) :
    later.interpolate next = s.interpolate next := by
  unfold interpolate labels config
  rw [h.labels, h.config]
  exact interpolate_eq_of_extends h.records h.size h.refutation next

/-- A refutation that is accepted is on record. -/
theorem refuted_note {surroundings : ε} {s : Session τ} {chain : List Nat}
    (h : stands (note surroundings s (.unsat .conflict chain)).outcome = true) :
    (note surroundings s (.unsat .conflict chain)).observer.keeper.Refuted ∧
      ∃ witness, (note surroundings s (.unsat .conflict chain)).observer.proof.refutation =
        some ⟨.conflict, chain, witness⟩ := by
  have hok := kept_of_stands h
  obtain ⟨witness, hwitness⟩ := Journal.refutation_keep_unsat hok
  refine ⟨⟨?_, ?_⟩, witness, ?_⟩
  · rw [journal_note, Proof.concluded, hwitness]
    rfl
  · rw [journal_note, Journal.phase_keep_of_ok hok]
    rfl
  · rw [proof_note, hwitness]

/-- **A refutation is final.**  Let a session accept the conclusion that the formula is refuted,
and take it through any steps whatever: events of all kinds, interpolants constructed, consumers
connected and released, changes of the surroundings, but no call that revises the labels or the
settings or starts afresh.  At any point no record has been added, and none has changed but for
its flag; the refutation, the labels, the label said in advance, the settings and the phase are
what they were.  An event that would bring in a clause or conclude something is refused, for the
reason that the formula is refuted, and leaves everything as it was.  And from any counter on the
interpolant is the one that there was right after the conclusion, or the error is the same. -/
theorem final_of_refuted (surroundings : ε) (s : Session τ) (chain : List Nat)
    (h : stands (note surroundings s (.unsat .conflict chain)).outcome = true)
    (steps : List (Step ε τ)) (hsteps : ∀ step ∈ steps, step.revises = false) :
    let refuted := note surroundings s (.unsat .conflict chain)
    let later := (run refuted.surroundings refuted.observer steps).2.1
    let outside := (run refuted.surroundings refuted.observer steps).2.2
    refuted.observer.keeper.Stays later.keeper ∧
      (∃ witness, later.proof.refutation = some ⟨.conflict, chain, witness⟩) ∧
      later.phase = .unsatisfiable ∧
      (∀ e, e.barred = true →
        note outside later e = ⟨.error (.proof .sessionConcluded), later, outside⟩) ∧
      ∀ next, later.interpolate next = refuted.observer.interpolate next := by
  intro refuted later outside
  obtain ⟨hrefuted, witness, hwitness⟩ := refuted_note h
  have hstays : refuted.observer.keeper.Stays later.keeper :=
    stays_run refuted.surroundings hrefuted hsteps
  have hlater := hstays.refuted hrefuted
  exact ⟨hstays, ⟨witness, hstays.refutation.trans hwitness⟩, hlater.phase,
    fun e hbarred => note_barred hlater hbarred outside,
    fun next => interpolate_of_stays hstays next⟩

/-- A session to which `splitRefutation` was announced but for its conclusion, labelled as in
`splitLabelling`, with a label said in advance that no clause has taken. -/
def splitSession : Session Recorder :=
  withLabels (noteAll () (Session.new Recorder {}) [.premise 1 false [10, 2] false,
      .premise 2 false [-10, 3] false, .premise 3 false [-2] false, .premise 4 false [-3] false,
      .premise 5 false [2, 4] false, .derived 6 false [2, 3] [5, 1, 2]]).1
    (splitLabelling.setNextPart .a)

/-- What may go on afterwards: clauses are deleted that the refutation rests on, one is put back,
a solve begins and is given up, and a consumer comes and goes. -/
def aftermath : List (Step Unit Recorder) :=
  [.call (.note (.delete 6 false [2, 3])), .connect {},
    .call (.note (.premise 6 false [2, 3] true)), .call (.note (.premise 7 false [5] false)),
    .call (.note .solve), .call (.note (.unknown [])), .call (.interpolate 20), .release,
    .call (.note (.begin 9)), .call (.note (.delete 1 false [10, 2]))]

theorem final_of_refuted_splitSession :
    stands (note () splitSession (.unsat .conflict [3, 4, 6])).outcome = true ∧
      (∀ step ∈ aftermath, step.revises = false) ∧
      let refuted := note () splitSession (.unsat .conflict [3, 4, 6])
      let later := (run refuted.surroundings refuted.observer aftermath).2.1
      refuted.observer.keeper.Stays later.keeper ∧ later.labels.pending = some .a ∧
        note () later (.sat [2]) = ⟨.error (.proof .sessionConcluded), later, ()⟩ ∧
        later.interpolate 20 = .ok (splitInterpolant 20) := by
  have hstands : stands (note () splitSession (.unsat .conflict [3, 4, 6])).outcome = true := by
    decide
  have hsteps : ∀ step ∈ aftermath, step.revises = false := by decide
  obtain ⟨hstays, -, -, hbarred, hinterpolate⟩ :=
    final_of_refuted () splitSession [3, 4, 6] hstands aftermath hsteps
  refine ⟨hstands, hsteps, hstays, ?_, hbarred (.sat [2]) rfl, ?_⟩
  · exact (congrArg Labelling.pending hstays.labels).trans rfl
  · exact (hinterpolate 20).trans rfl

end Session

end Interpolation
