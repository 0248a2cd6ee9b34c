import Mathlib.Data.List.Induction
import Interpolation.Observer.Nested
import Interpolation.Observer.Roster
import Interpolation.Proofs.Operations

/-!
# Events told to every observer attached

A solver attaches observers and detaches them at any time, and announces events in between.  An
observer may be attached several times over, it may answer with errors, and it may be held by
somebody when an event is announced.  A `Hall` has all that an announcement can bear on, the
roster with the observers on the shelf and their surroundings, and a run takes it through moves
in any order.

What is attached after a run is read off the moves (`Standing`): whatever was attached and has
not been detached since.  Keys are given in counting order, so that no key is ever given twice
and entries ascend by keys in the order of attachment (`Roster.Ordered`).

An announcement goes down the entries.  Each observer that is not held is told once for each of
its entries, whatever others have answered, and the announcement fails as the first entry did
that failed (`Roster.Spread`).  An observer without entries cannot change, and so a recorder
with one entry keeps exactly what is announced while it has it and is not held.

* `Roster.Ordered.detach_append` --- detaching takes out one entry, and leaves the others in
  their order;
* `Roster.spread_announce` --- who is told of an announcement, and what it answers;
* `Roster.find?_tellAll_tape` --- a recorder keeps an event as often as it is told;
* `Hall.mem_attachments_run` --- what stands is what is attached;
* `Hall.find?_run_tape` --- what a recorder keeps while it is attached once;
* `Hall.run_fansOut` --- all of this, for every run from an empty roster.
-/

namespace Interpolation

open Observer

namespace Roster

/-! ## The order of the entries -/

/-- Keys ascend in the order of attachment, and the next key is larger than all of them. -/
structure Ordered (r : Roster) : Prop where
  /-- The keys ascend. -/
  ascending : r.attachments.Pairwise fun a b => a.key < b.key
  /-- The next key is larger. -/
  below : ∀ a ∈ r.attachments, a.key < r.nextKey

theorem ordered_empty : Ordered {} := ⟨.nil, List.forall_mem_nil _⟩

variable {r : Roster}

theorem Ordered.attach (h : r.Ordered) (handle : Nat) : (r.attach handle).2.Ordered := by
  refine ⟨List.pairwise_append.mpr ⟨h.ascending, List.pairwise_singleton _ _, ?_⟩, ?_⟩
  · intro a ha b hb
    obtain rfl := List.mem_singleton.mp hb
    exact h.below a ha
  · intro a ha
    rcases List.mem_append.mp ha with ha | ha
    · exact Nat.lt_succ_of_lt (h.below a ha)
    · obtain rfl := List.mem_singleton.mp ha
      exact Nat.lt_succ_self _

theorem Ordered.detach (h : r.Ordered) (key : Nat) : (r.detach key).2.Ordered :=
  ⟨h.ascending.sublist List.eraseP_sublist, fun a ha => h.below a (List.mem_of_mem_eraseP ha)⟩

/-- **Detaching takes out the entry with the key,** and leaves the others in their order. -/
theorem Ordered.detach_append (h : r.Ordered) {before after : List Attachment} {a : Attachment}
    (hsplit : r.attachments = before ++ a :: after) :
    r.detach a.key = (true, { r with attachments := before ++ after }) := by
  have hbefore : ∀ b ∈ before, ¬ (b.key == a.key) = true := by
    intro b hb heq
    have hlt : b.key < a.key :=
      (List.pairwise_append.mp (hsplit ▸ h.ascending)).2.2 b hb a List.mem_cons_self
    exact absurd (beq_iff_eq.mp heq) (Nat.ne_of_lt hlt)
  have herase : r.attachments.eraseP (fun b => b.key == a.key) = before ++ after := by
    rw [hsplit, List.eraseP_append_right _ hbefore]
    exact congrArg (before ++ ·) (List.eraseP_cons_of_pos (beq_self_eq_true a.key))
  have hattached : r.isAttached a.key = true :=
    List.any_eq_true.mpr ⟨a, hsplit ▸ List.mem_append_cons_self, beq_self_eq_true _⟩
  rw [Roster.detach, hattached, herase]

/-- A key that no entry has detaches nothing. -/
theorem detach_of_forall_ne {key : Nat} (h : ∀ a ∈ r.attachments, a.key ≠ key) :
    r.detach key = (false, r) := by
  have hne : ∀ a ∈ r.attachments, ¬ (a.key == key) = true := fun a ha heq =>
    h a ha (beq_iff_eq.mp heq)
  have hattached : r.isAttached key = false := List.any_eq_false.mpr hne
  rw [Roster.detach, hattached, List.eraseP_of_forall_not hne]

/-- What remains when a key has been detached. -/
theorem Ordered.attachments_detach (h : r.Ordered) (key : Nat) :
    (r.detach key).2.attachments = r.attachments.filter fun a => a.key != key := by
  by_cases hkey : ∃ a ∈ r.attachments, a.key = key
  · obtain ⟨a, ha, rfl⟩ := hkey
    obtain ⟨before, after, hsplit⟩ := List.append_of_mem ha
    obtain ⟨-, hafter, hbefore⟩ := List.pairwise_append.mp (hsplit ▸ h.ascending)
    rw [h.detach_append hsplit, hsplit, List.filter_append, List.filter_cons_of_neg (by simp),
      List.filter_eq_self.mpr, List.filter_eq_self.mpr]
    · exact fun b hb => bne_iff_ne.mpr (Nat.ne_of_gt (List.rel_of_pairwise_cons hafter hb))
    · exact fun b hb => bne_iff_ne.mpr (Nat.ne_of_lt (hbefore b hb a List.mem_cons_self))
  · have hne : ∀ a ∈ r.attachments, a.key ≠ key := fun a ha heq => hkey ⟨a, ha, heq⟩
    rw [detach_of_forall_ne hne, List.filter_eq_self.mpr fun a ha => bne_iff_ne.mpr (hne a ha)]

/-- The entries of one observer. -/
def entriesOf (r : Roster) (handle : Nat) : List Attachment :=
  r.attachments.filter fun a => a.handle == handle

theorem entriesOf_attach_of_ne {handle other : Nat} (hne : other ≠ handle) :
    (r.attach other).2.entriesOf handle = r.entriesOf handle := by
  simp [entriesOf, Roster.attach, List.filter_append, hne]

theorem entriesOf_attach_self (r : Roster) (handle : Nat) :
    (r.attach handle).2.entriesOf handle = r.entriesOf handle ++ [⟨r.nextKey, handle⟩] := by
  simp [entriesOf, Roster.attach, List.filter_append]

theorem Ordered.entriesOf_detach (h : r.Ordered) (key handle : Nat) :
    (r.detach key).2.entriesOf handle = (r.entriesOf handle).filter fun a => a.key != key := by
  rw [entriesOf, h.attachments_detach, entriesOf, List.filter_filter, List.filter_filter]
  simp only [Bool.and_comm]

theorem entriesOf_eq_nil_iff {handle : Nat} :
    r.entriesOf handle = [] ↔ ∀ a ∈ r.attachments, a.handle ≠ handle := by
  simp [entriesOf, List.filter_eq_nil_iff]

/-! ## One announcement -/

/-- The numbers in a list that are not held. -/
def unheld (held handles : List Nat) : List Nat := handles.filter fun handle => handle ∉ held

section

variable {ε τ : Type} [Observer ε τ]

/-- What becomes of the surroundings and the shelf when an observer is told of an event,
whatever it answers. -/
def tell (e : Event) (state : ε × NatMap τ) (handle : Nat) : ε × NatMap τ :=
  match state.2.find? handle with
  | none => state
  | some observer =>
    let reaction := note state.1 observer e
    (reaction.surroundings, state.2.insert handle reaction.observer)

/-- What becomes of them when observers are told of an event one after the other. -/
def tellAll (e : Event) (state : ε × NatMap τ) (handles : List Nat) : ε × NatMap τ :=
  handles.foldl (tell e) state

/-- How an observer fails when its turn comes. -/
inductive Fails (held : List Nat) (e : Event) (state : ε × NatMap τ) (handle : Nat) : Error → Prop
  /-- Somebody holds it. -/
  | held (hheld : handle ∈ held) : Fails held e state handle .observerInUse
  /-- It is told, and answers with an error. -/
  | refused {observer : τ} {cause : Error} (hfree : handle ∉ held)
      (hfind : state.2.find? handle = some observer)
      (hnote : (note state.1 observer e).outcome = .error cause) : Fails held e state handle cause

/-- How an observer fails that comes after those listed. -/
def FailsAfter (held : List Nat) (e : Event) (state : ε × NatMap τ) (before : List Nat)
    (handle : Nat) (cause : Error) : Prop :=
  Fails held e (tellAll e state (unheld held before)) handle cause

/-- None of the observers listed fails when they come one after the other. -/
def Unfailing (held : List Nat) (e : Event) (state : ε × NatMap τ) (handles : List Nat) : Prop :=
  ∀ before handle after, handles = before ++ handle :: after →
    ∀ cause, ¬ FailsAfter held e state before handle cause

/-- **What an announcement to the observers listed comes to.** -/
structure Spread (held : List Nat) (e : Event) (state : ε × NatMap τ) (handles : List Nat)
    (result : Except Error Unit × ε × NatMap τ) : Prop where
  /-- Each is told as often as it is listed, in order, unless it is held. -/
  told : result.2 = tellAll e state (unheld held handles)
  /-- It succeeds when none of them fails. -/
  succeeds : result.1 = .ok () ↔ Unfailing held e state handles
  /-- It fails as the first does that fails. -/
  fails : ∀ cause, result.1 = .error cause ↔ ∃ before handle after,
    handles = before ++ handle :: after ∧ Unfailing held e state before ∧
      FailsAfter held e state before handle cause

variable {held : List Nat} {e : Event} {state : ε × NatMap τ} {handle : Nat}

/-! Telling observers leaves the others alone, and takes nobody off the shelf. -/

theorem find?_tell_of_ne {other : Nat} (hne : handle ≠ other) :
    (tell e state other).2.find? handle = state.2.find? handle := by
  unfold tell
  split
  · rfl
  · exact (NatMap.find?_insert ..).trans (if_neg hne)

theorem isSome_find?_tell (e : Event) (state : ε × NatMap τ) (other handle : Nat) :
    ((tell e state other).2.find? handle).isSome = (state.2.find? handle).isSome := by
  by_cases hne : handle = other
  · subst hne
    unfold tell
    split
    · rfl
    next observer hfind => rw [hfind, NatMap.find?_insert_self]; rfl
  · rw [find?_tell_of_ne hne]

/-- An observer that is not told stays as it was. -/
theorem find?_tellAll_of_notMem {handles : List Nat} (h : handle ∉ handles) :
    (tellAll e state handles).2.find? handle = state.2.find? handle := by
  induction handles generalizing state with
  | nil => rfl
  | cons other rest ih =>
    obtain ⟨hne, hrest⟩ := List.ne_and_not_mem_of_not_mem_cons h
    exact (ih hrest).trans (find?_tell_of_ne hne)

theorem isSome_find?_tellAll (e : Event) (state : ε × NatMap τ) (handles : List Nat)
    (handle : Nat) :
    ((tellAll e state handles).2.find? handle).isSome = (state.2.find? handle).isSome := by
  induction handles generalizing state with
  | nil => rfl
  | cons other rest ih => exact (ih _).trans (isSome_find?_tell e state other handle)

/-! Delivering an event is telling the observer, with an answer besides. -/

theorem snd_deliver_of_mem (hheld : handle ∈ held) :
    (deliver held e state.1 state.2 handle).2 = state := by
  rw [deliver, if_pos hheld]

theorem snd_deliver_of_notMem (hfree : handle ∉ held) :
    (deliver held e state.1 state.2 handle).2 = tell e state handle := by
  rw [deliver, if_neg hfree, tell]
  cases state.2.find? handle <;> rfl

theorem fst_deliver_eq_error_iff (hstand : (state.2.find? handle).isSome = true) {cause : Error} :
    (deliver held e state.1 state.2 handle).1 = .error cause ↔
      Fails held e state handle cause := by
  obtain ⟨observer, hfind⟩ := Option.isSome_iff_exists.mp hstand
  by_cases hheld : handle ∈ held
  · rw [deliver, if_pos hheld]
    constructor
    · rintro ⟨⟩
      exact .held hheld
    · rintro (- | ⟨hfree, -, -⟩)
      · rfl
      · exact absurd hheld hfree
  · rw [deliver, if_neg hheld, hfind]
    constructor
    · exact fun hnote => .refused hheld hfind hnote
    · rintro (hheld' | ⟨-, hfind', hnote⟩)
      · exact absurd hheld' hheld
      · obtain rfl := Option.some.inj (hfind.symm.trans hfind')
        exact hnote

theorem fst_deliver_eq_ok_iff (hstand : (state.2.find? handle).isSome = true) :
    (deliver held e state.1 state.2 handle).1 = .ok () ↔
      ∀ cause, ¬ Fails held e state handle cause := by
  simp only [← fst_deliver_eq_error_iff hstand]
  cases (deliver held e state.1 state.2 handle).1 <;> simp

theorem unheld_cons (held : List Nat) (handle : Nat) (rest : List Nat) :
    unheld held (handle :: rest) = unheld held [handle] ++ unheld held rest := by
  rw [← List.singleton_append, unheld, List.filter_append, unheld, unheld]

/-- What an observer leaves behind when it has had its turn, told or not. -/
def turn (held : List Nat) (e : Event) (state : ε × NatMap τ) (handle : Nat) : ε × NatMap τ :=
  tellAll e state (unheld held [handle])

theorem snd_deliver (held : List Nat) (e : Event) (state : ε × NatMap τ) (handle : Nat) :
    (deliver held e state.1 state.2 handle).2 = turn held e state handle := by
  by_cases hheld : handle ∈ held
  · rw [snd_deliver_of_mem hheld, turn, unheld, List.filter_cons_of_neg (by simpa using hheld)]
    rfl
  · rw [snd_deliver_of_notMem hheld, turn, unheld, List.filter_cons_of_pos (by simpa using hheld)]
    rfl

theorem tellAll_unheld_cons (held : List Nat) (e : Event) (state : ε × NatMap τ) (handle : Nat)
    (rest : List Nat) :
    tellAll e state (unheld held (handle :: rest)) =
      tellAll e (turn held e state handle) (unheld held rest) := by
  rw [unheld_cons, tellAll, List.foldl_append]
  rfl

theorem failsAfter_cons {first : Nat} {before : List Nat} {cause : Error} :
    FailsAfter held e state (first :: before) handle cause ↔
      FailsAfter held e (turn held e state first) before handle cause := by
  rw [FailsAfter, tellAll_unheld_cons, FailsAfter]

theorem unfailing_nil : Unfailing held e state [] := by
  intro before handle after hsplit
  exact absurd hsplit (by simp)

theorem unfailing_cons_iff {rest : List Nat} :
    Unfailing held e state (handle :: rest) ↔
      (∀ cause, ¬ Fails held e state handle cause) ∧
        Unfailing held e (turn held e state handle) rest := by
  constructor
  · refine fun h => ⟨h [] handle rest rfl, fun before other after hsplit cause hfails => ?_⟩
    exact h (handle :: before) other after (congrArg (handle :: ·) hsplit) cause
      (failsAfter_cons.mpr hfails)
  · rintro ⟨hhandle, hrest⟩ before other after hsplit cause hfails
    cases before with
    | nil =>
      obtain ⟨rfl, rfl⟩ := List.cons.inj hsplit
      exact hhandle cause hfails
    | cons first before =>
      obtain ⟨rfl, rfl⟩ := List.cons.inj hsplit
      exact hrest before other after rfl cause (failsAfter_cons.mp hfails)

theorem deliverAll_cons (held : List Nat) (e : Event) (state : ε × NatMap τ) (handle : Nat)
    (rest : List Nat) :
    deliverAll held e state.1 state.2 (handle :: rest) =
      (firstError (deliver held e state.1 state.2 handle).1
          (deliverAll held e (turn held e state handle).1 (turn held e state handle).2 rest).1,
        (deliverAll held e (turn held e state handle).1 (turn held e state handle).2 rest).2) := by
  rw [← snd_deliver]
  rfl

/-- Each observer listed is told in order unless it is held, whatever others have answered. -/
theorem snd_deliverAll (held : List Nat) (e : Event) (state : ε × NatMap τ) (handles : List Nat) :
    (deliverAll held e state.1 state.2 handles).2 = tellAll e state (unheld held handles) := by
  induction handles generalizing state with
  | nil => rfl
  | cons first rest ih => rw [deliverAll_cons, tellAll_unheld_cons, ih]

theorem firstError_eq_ok_iff {earlier later : Except Error Unit} :
    firstError earlier later = .ok () ↔ earlier = .ok () ∧ later = .ok () := by
  cases earlier <;> simp [firstError]

theorem firstError_eq_error_iff {earlier later : Except Error Unit} {cause : Error} :
    firstError earlier later = .error cause ↔
      earlier = .error cause ∨ earlier = .ok () ∧ later = .error cause := by
  cases earlier <;> simp [firstError]

/-- **Who is told when an event goes down a list of observers,** and what that answers. -/
theorem spread_deliverAll {handles : List Nat}
    (hstand : ∀ handle ∈ handles, (state.2.find? handle).isSome = true) :
    Spread held e state handles (deliverAll held e state.1 state.2 handles) := by
  induction handles generalizing state with
  | nil =>
    refine ⟨rfl, iff_of_true rfl unfailing_nil, fun cause => iff_of_false nofun ?_⟩
    rintro ⟨before, handle, after, hsplit, -⟩
    exact absurd hsplit (by simp)
  | cons first rest ih =>
    obtain ⟨hfirst, hrest⟩ := List.forall_mem_cons.mp hstand
    have hlater : Spread held e (turn held e state first) rest
        (deliverAll held e (turn held e state first).1 (turn held e state first).2 rest) := by
      refine ih fun handle hhandle => ?_
      rw [turn, isSome_find?_tellAll]
      exact hrest handle hhandle
    rw [deliverAll_cons]
    refine ⟨by rw [← deliverAll_cons, snd_deliverAll], ?_, fun cause => ?_⟩
    · rw [firstError_eq_ok_iff, fst_deliver_eq_ok_iff hfirst, hlater.succeeds, unfailing_cons_iff]
    · rw [firstError_eq_error_iff, fst_deliver_eq_error_iff hfirst, fst_deliver_eq_ok_iff hfirst,
        hlater.fails]
      constructor
      · rintro (hfails | ⟨hpass, before, handle, after, rfl, hbefore, hfails⟩)
        · exact ⟨[], first, rest, rfl, unfailing_nil, hfails⟩
        · exact ⟨first :: before, handle, after, rfl, unfailing_cons_iff.mpr ⟨hpass, hbefore⟩,
            failsAfter_cons.mpr hfails⟩
      · rintro ⟨before, handle, after, hsplit, hbefore, hfails⟩
        cases before with
        | nil =>
          obtain ⟨rfl, rfl⟩ := List.cons.inj hsplit
          exact Or.inl hfails
        | cons first' before =>
          obtain ⟨rfl, rfl⟩ := List.cons.inj hsplit
          obtain ⟨hpass, hbefore⟩ := unfailing_cons_iff.mp hbefore
          exact Or.inr ⟨hpass, before, handle, after, rfl, hbefore, failsAfter_cons.mp hfails⟩

/-- **Who is told of an announcement,** and what that answers. -/
theorem spread_announce {r : Roster} {surroundings : ε} {shelf : NatMap τ}
    (hstand : ∀ a ∈ r.attachments, (shelf.find? a.handle).isSome = true) :
    Spread held e (surroundings, shelf) (r.attachments.map (·.handle))
      (r.announce held e surroundings shelf) := by
  have hstand' : ∀ handle ∈ r.attachments.map (·.handle), (shelf.find? handle).isSome = true :=
    List.forall_mem_map.mpr hstand
  exact spread_deliverAll hstand'

/-! ## Recorders on the shelf -/

/-- Recorders count among the observers on a shelf, by a way to see a recorder as one. -/
def Taped (ε : Type) {τ : Type} [Observer ε τ] (tape : Recorder → τ) : Prop :=
  ∀ (surroundings : ε) (r : Recorder) (e : Event),
    note surroundings (tape r) e = (note surroundings r e : Reaction ε Recorder).map tape

variable {tape : Recorder → τ} {r : Recorder}

theorem find?_tell_tape (htape : Taped ε tape) (hfind : state.2.find? handle = some (tape r)) :
    (tell e state handle).2.find? handle = some (tape (r.push e)) := by
  rw [tell, hfind]
  dsimp only
  rw [NatMap.find?_insert_self, htape]
  rfl

/-- **A recorder keeps an event as often as it is told of it.** -/
theorem find?_tellAll_tape (htape : Taped ε tape) (handles : List Nat)
    (hfind : state.2.find? handle = some (tape r)) :
    ∃ r' : Recorder, (tellAll e state handles).2.find? handle = some (tape r') ∧
      r'.events.toList = r.events.toList ++ List.replicate (handles.count handle) e := by
  induction handles generalizing state r with
  | nil => exact ⟨r, hfind, (List.append_nil _).symm⟩
  | cons other rest ih =>
    by_cases hother : other = handle
    · subst hother
      obtain ⟨r', hfind', hevents⟩ := ih (find?_tell_tape htape hfind)
      refine ⟨r', hfind', ?_⟩
      rw [hevents, Recorder.toList_push, List.count_cons_self, List.replicate_succ,
        List.append_assoc, List.singleton_append]
    · obtain ⟨r', hfind', hevents⟩ := ih ((find?_tell_of_ne (Ne.symm hother)).trans hfind)
      refine ⟨r', hfind', ?_⟩
      rw [hevents, List.count_cons_of_ne hother]

end

/-- How often an announcement tells an observer. -/
theorem count_unheld (r : Roster) (held : List Nat) (handle : Nat) :
    (unheld held (r.attachments.map (·.handle))).count handle =
      if handle ∈ held then 0 else (r.entriesOf handle).length := by
  split
  next hheld => exact List.count_eq_zero.mpr fun h => by simp [unheld, hheld] at h
  next hfree =>
    rw [unheld, List.count_filter (by simpa using hfree), List.count, List.countP_map,
      List.countP_eq_length_filter]
    rfl

end Roster

/-! ## Runs -/

/-- All that an announcement can bear on. -/
structure Hall (ε τ : Type) where
  /-- Who is attached. -/
  roster : Roster := {}
  /-- The observers. -/
  shelf : NatMap τ
  /-- Their surroundings. -/
  surroundings : ε

namespace Hall

open Roster

/-- What can happen in a hall. -/
inductive Move (ε : Type)
  /-- The observer with a number is attached. -/
  | attach (handle : Nat)
  /-- A key is detached. -/
  | detach (key : Nat)
  /-- An event is announced, while the observers with the numbers listed are held. -/
  | announce (held : List Nat) (e : Event)
  /-- The surroundings are changed by others. -/
  | outside (f : ε → ε)

/-- What is returned for a move. -/
inductive Answer
  /-- The key of an attachment. -/
  | given (key : Nat)
  /-- Whether something was detached. -/
  | detached (found : Bool)
  /-- How an announcement went. -/
  | announced (outcome : Except Error Unit)
  /-- Nothing. -/
  | done

/-- The key that is given, if one is. -/
def Answer.key? : Answer → Option Nat
  | given key => some key
  | _ => none

variable {ε τ : Type} [Observer ε τ]

/-- Makes one move. -/
def perform (hall : Hall ε τ) : Move ε → Answer × Hall ε τ
  | .attach handle =>
    let (key, roster) := hall.roster.attach handle
    (.given key, { hall with roster })
  | .detach key =>
    let (found, roster) := hall.roster.detach key
    (.detached found, { hall with roster })
  | .announce held e =>
    let (outcome, surroundings, shelf) :=
      hall.roster.announce held e hall.surroundings hall.shelf
    (.announced outcome, { hall with surroundings, shelf })
  | .outside f => (.done, { hall with surroundings := f hall.surroundings })

/-- Makes moves in turn, and returns the answers with the hall at the end. -/
def run (hall : Hall ε τ) : List (Move ε) → List Answer × Hall ε τ
  | [] => ([], hall)
  | m :: rest =>
    let (answer, hall) := hall.perform m
    let (answers, hall) := hall.run rest
    (answer :: answers, hall)

theorem run_cons (hall : Hall ε τ) (m : Move ε) (rest : List (Move ε)) :
    hall.run (m :: rest) =
      ((hall.perform m).1 :: ((hall.perform m).2.run rest).1, ((hall.perform m).2.run rest).2) :=
  rfl

theorem run_append (hall : Hall ε τ) (earlier later : List (Move ε)) :
    hall.run (earlier ++ later) =
      ((hall.run earlier).1 ++ ((hall.run earlier).2.run later).1,
        ((hall.run earlier).2.run later).2) := by
  induction earlier generalizing hall with
  | nil => rfl
  | cons m rest ih => rw [List.cons_append, run_cons, ih, run_cons]; rfl

theorem run_concat (hall : Hall ε τ) (moves : List (Move ε)) (m : Move ε) :
    hall.run (moves ++ [m]) =
      ((hall.run moves).1 ++ [((hall.run moves).2.perform m).1],
        ((hall.run moves).2.perform m).2) := run_append hall moves [m]

/-! ## What is attached -/

/-- Whether a move attaches an observer. -/
def Move.attaches : Move ε → Bool
  | attach _ => true
  | _ => false

/-- How many observers have been attached. -/
def attached (moves : List (Move ε)) : Nat := moves.countP Move.attaches

/-- An attachment was made in the course of moves, the one with its number among them, and has
not been undone since. -/
def Standing (moves : List (Move ε)) (a : Attachment) : Prop :=
  ∃ earlier since, moves = earlier ++ .attach a.handle :: since ∧ attached earlier = a.key ∧
    .detach a.key ∉ since

theorem not_standing_nil (a : Attachment) : ¬ Standing ([] : List (Move ε)) a := by
  rintro ⟨earlier, since, hsplit, -⟩
  exact absurd hsplit (by simp)

/-- What stands after one more move stood before or has just been made. -/
theorem standing_concat_iff {moves : List (Move ε)} {m : Move ε} {a : Attachment} :
    Standing (moves ++ [m]) a ↔
      Standing moves a ∧ m ≠ .detach a.key ∨ m = .attach a.handle ∧ attached moves = a.key := by
  constructor
  · rintro ⟨earlier, since, hsplit, hkey, hsince⟩
    rcases concat_eq_append_cons_iff.mp hsplit with ⟨rfl, rfl, -⟩ | ⟨since, rfl, rfl⟩
    · exact Or.inr ⟨rfl, hkey⟩
    · rw [List.mem_append, not_or, List.mem_singleton] at hsince
      exact Or.inl ⟨⟨earlier, since, rfl, hkey, hsince.1⟩, Ne.symm hsince.2⟩
  · rintro (⟨⟨earlier, since, rfl, hkey, hsince⟩, hm⟩ | ⟨rfl, hkey⟩)
    · refine ⟨earlier, since ++ [m], by rw [List.append_assoc, List.cons_append], hkey, ?_⟩
      rw [List.mem_append, not_or, List.mem_singleton]
      exact ⟨hsince, Ne.symm hm⟩
    · exact ⟨moves, [], rfl, hkey, List.not_mem_nil⟩

theorem attached_concat (moves : List (Move ε)) (m : Move ε) :
    attached (moves ++ [m]) = attached moves + if m.attaches = true then 1 else 0 := by
  rw [attached, List.countP_append, List.countP_singleton, attached]

theorem ordered_perform {hall : Hall ε τ} (h : hall.roster.Ordered) (m : Move ε) :
    (hall.perform m).2.roster.Ordered := by
  cases m with
  | attach handle => exact h.attach handle
  | detach key => exact h.detach key
  | announce | outside => exact h

theorem ordered_run {hall : Hall ε τ} (h : hall.roster.Ordered) (moves : List (Move ε)) :
    (hall.run moves).2.roster.Ordered := by
  induction moves generalizing hall with
  | nil => exact h
  | cons m rest ih => exact ih (ordered_perform h m)

/-- What is attached after one move was attached before or has just been. -/
theorem mem_attachments_perform {hall : Hall ε τ} (h : hall.roster.Ordered) {m : Move ε}
    {a : Attachment} :
    a ∈ (hall.perform m).2.roster.attachments ↔
      a ∈ hall.roster.attachments ∧ m ≠ .detach a.key ∨
        m = .attach a.handle ∧ hall.roster.nextKey = a.key := by
  cases m with
  | attach handle =>
    obtain ⟨key, handle'⟩ := a
    simp [perform, attach, and_comm, eq_comm]
  | detach key =>
    have hremaining := h.attachments_detach key
    simp [perform, hremaining, eq_comm (a := key)]
  | announce | outside => simp [perform]

/-- The hall in which nothing has been attached yet. -/
def opened (shelf : NatMap τ) (surroundings : ε) : Hall ε τ := { shelf, surroundings }

section

variable (shelf : NatMap τ) (surroundings : ε) (moves : List (Move ε))

theorem ordered_run_opened : ((opened shelf surroundings).run moves).2.roster.Ordered :=
  ordered_run ordered_empty moves

/-- The next key is how many observers have been attached. -/
theorem nextKey_run :
    ((opened shelf surroundings).run moves).2.roster.nextKey = attached moves := by
  induction moves using List.reverseRecOn with
  | nil => rfl
  | append_singleton moves m ih =>
    rw [run_concat, attached_concat]
    cases m with
    | attach handle => exact congrArg (· + 1) ih
    | detach | announce | outside => exact ih

/-- **Keys are given in counting order.** -/
theorem keys_run :
    ((opened shelf surroundings).run moves).1.filterMap Answer.key? =
      List.range (attached moves) := by
  induction moves using List.reverseRecOn with
  | nil => rfl
  | append_singleton moves m ih =>
    have hnext := nextKey_run shelf surroundings moves
    rw [run_concat, List.filterMap_append, ih, attached_concat]
    cases m with
    | attach handle => exact (congrArg (_ ++ [·]) hnext).trans List.range_succ.symm
    | detach | announce | outside => exact List.append_nil _

/-- **What stands is what is attached.** -/
theorem mem_attachments_run {a : Attachment} :
    a ∈ ((opened shelf surroundings).run moves).2.roster.attachments ↔ Standing moves a := by
  -- from the end, since the key of an attachment counts all that were made before it
  induction moves using List.reverseRecOn with
  | nil => exact iff_of_false List.not_mem_nil (not_standing_nil a)
  | append_singleton moves m ih =>
    rw [run_concat, mem_attachments_perform (ordered_run_opened shelf surroundings moves),
      nextKey_run, ih, standing_concat_iff]

end

/-! ## Who stays on the shelf, and what is kept there -/

theorem announce_eq (hall : Hall ε τ) (held : List Nat) (e : Event) :
    ((hall.perform (.announce held e)).2.surroundings, (hall.perform (.announce held e)).2.shelf) =
      tellAll e (hall.surroundings, hall.shelf)
        (unheld held (hall.roster.attachments.map (·.handle))) :=
  snd_deliverAll held e (hall.surroundings, hall.shelf) _

theorem shelf_announce (hall : Hall ε τ) (held : List Nat) (e : Event) :
    (hall.perform (.announce held e)).2.shelf =
      (tellAll e (hall.surroundings, hall.shelf)
        (unheld held (hall.roster.attachments.map (·.handle)))).2 :=
  congrArg Prod.snd (announce_eq hall held e)

/-- A recorder keeps an announcement as often as it is attached, unless it is held. -/
theorem find?_announce_tape {tape : Recorder → τ} (htape : Taped ε tape) {hall : Hall ε τ}
    (held : List Nat) (e : Event) {handle : Nat} {r : Recorder}
    (hfind : hall.shelf.find? handle = some (tape r)) :
    ∃ r' : Recorder,
      (hall.perform (.announce held e)).2.shelf.find? handle = some (tape r') ∧
        r'.events.toList = r.events.toList ++ List.replicate
          (if handle ∈ held then 0 else (hall.roster.entriesOf handle).length) e := by
  rw [shelf_announce, ← count_unheld]
  exact find?_tellAll_tape htape _ hfind

theorem isSome_find?_run (hall : Hall ε τ) (moves : List (Move ε)) (handle : Nat) :
    ((hall.run moves).2.shelf.find? handle).isSome = (hall.shelf.find? handle).isSome := by
  induction moves generalizing hall with
  | nil => rfl
  | cons m rest ih =>
    rw [run_cons, ih]
    cases m with
    | announce held e => rw [shelf_announce, isSome_find?_tellAll]
    | attach | detach | outside => rfl

theorem entriesOf_perform_eq_nil {hall : Hall ε τ} (h : hall.roster.Ordered) {handle : Nat}
    (hnone : hall.roster.entriesOf handle = []) {m : Move ε} (hm : m ≠ .attach handle) :
    (hall.perform m).2.roster.entriesOf handle = [] := by
  cases m with
  | attach other => exact (entriesOf_attach_of_ne fun heq => hm (congrArg _ heq)).trans hnone
  | detach key => exact (h.entriesOf_detach key handle).trans (by rw [hnone, List.filter_nil])
  | announce | outside => exact hnone

/-- **An observer without entries stays as it was.** -/
theorem find?_run_of_entriesOf_eq_nil {hall : Hall ε τ} (h : hall.roster.Ordered) {handle : Nat}
    (hnone : hall.roster.entriesOf handle = []) {moves : List (Move ε)}
    (hattach : .attach handle ∉ moves) :
    (hall.run moves).2.shelf.find? handle = hall.shelf.find? handle := by
  induction moves generalizing hall with
  | nil => rfl
  | cons m rest ih =>
    obtain ⟨hm, hrest⟩ := List.ne_and_not_mem_of_not_mem_cons hattach
    rw [run_cons, ih (ordered_perform h m) (entriesOf_perform_eq_nil h hnone hm.symm) hrest]
    cases m with
    | announce held e =>
      rw [shelf_announce]
      refine find?_tellAll_of_notMem fun hmem => ?_
      obtain ⟨a, ha, rfl⟩ := List.mem_map.mp (List.mem_filter.mp hmem).1
      exact entriesOf_eq_nil_iff.mp hnone a ha rfl
    | attach | detach | outside => rfl

/-- Whether a move detaches a key. -/
def Move.detaches (key : Nat) : Move ε → Bool
  | detach other => other == key
  | _ => false

/-- The event that a move announces while an observer is not held, if it does. -/
def Move.announces? (handle : Nat) : Move ε → Option Event
  | announce held e => if handle ∈ held then none else some e
  | _ => none

/-- What is announced, while an observer is not held, until a key is detached. -/
def heard (key handle : Nat) (moves : List (Move ε)) : List Event :=
  (moves.takeWhile fun m => !m.detaches key).filterMap (Move.announces? handle)

theorem heard_cons_of_detaches {key handle : Nat} {m : Move ε} {rest : List (Move ε)}
    (hm : m.detaches key = true) : heard key handle (m :: rest) = [] := by
  rw [heard, List.takeWhile_cons_of_neg (by simpa using hm), List.filterMap_nil]

theorem heard_cons {key handle : Nat} {m : Move ε} {rest : List (Move ε)}
    (hm : m.detaches key = false) :
    heard key handle (m :: rest) = (m.announces? handle).toList ++ heard key handle rest := by
  rw [heard, List.takeWhile_cons_of_pos (by simpa using hm), List.filterMap_cons, heard]
  cases m.announces? handle <;> rfl

/-- **A recorder attached once keeps what it hears,** until that attachment is undone. -/
theorem find?_run_tape {tape : Recorder → τ} (htape : Taped ε tape) {hall : Hall ε τ}
    (h : hall.roster.Ordered) {key handle : Nat}
    (hone : hall.roster.entriesOf handle = [⟨key, handle⟩]) {moves : List (Move ε)}
    (hattach : .attach handle ∉ moves) {r : Recorder}
    (hfind : hall.shelf.find? handle = some (tape r)) :
    ∃ r' : Recorder, (hall.run moves).2.shelf.find? handle = some (tape r') ∧
      r'.events.toList = r.events.toList ++ heard key handle moves := by
  induction moves generalizing hall r with
  | nil => exact ⟨r, hfind, (List.append_nil _).symm⟩
  | cons m rest ih =>
    obtain ⟨hm, hrest⟩ := List.ne_and_not_mem_of_not_mem_cons hattach
    have hordered := ordered_perform h m
    cases m with
    | attach other =>
      have hne : other ≠ handle := fun heq => hm (congrArg _ heq.symm)
      exact ih hordered ((entriesOf_attach_of_ne hne).trans hone) hrest hfind
    | outside f => exact ih hordered hone hrest hfind
    | detach other =>
      have hentries := (h.entriesOf_detach other handle).trans (congrArg _ hone)
      by_cases hother : other = key
      · subst hother
        -- from here on the recorder has no entry, and nothing more is heard
        have hnone : (hall.perform (.detach other)).2.roster.entriesOf handle = [] :=
          hentries.trans (List.filter_cons_of_neg (by simp))
        refine ⟨r, (find?_run_of_entriesOf_eq_nil hordered hnone hrest).trans hfind, ?_⟩
        rw [heard_cons_of_detaches (m := .detach other) (beq_self_eq_true other), List.append_nil]
      · have hone' : (hall.perform (.detach other)).2.roster.entriesOf handle = [⟨key, handle⟩] :=
          hentries.trans (List.filter_cons_of_pos (by simpa using Ne.symm hother))
        rw [heard_cons (m := .detach other) (beq_eq_false_iff_ne.mpr hother)]
        exact ih hordered hone' hrest hfind
    | announce held e =>
      obtain ⟨r₁, hfind₁, hevents₁⟩ := find?_announce_tape htape held e hfind
      obtain ⟨r', hfind', hevents⟩ := ih hordered hone hrest hfind₁
      refine ⟨r', hfind', ?_⟩
      rw [hevents, hevents₁, hone, heard_cons rfl, List.append_assoc]
      by_cases hheld : handle ∈ held <;> simp [Move.announces?, hheld]

/-- **How a hall works.**  Whatever moves were made since it was opened, keys have been given in
counting order, so that none was given twice and each is less than their number; what has been
attached and not detached since is attached, in the order of attachment; detaching takes out
exactly the entry with the key; an announcement tells the observer of each entry in order unless
it is held, whatever others answer, and fails as the first entry does that fails; an observer
never attached is as it was; and a recorder attached once has kept exactly what was announced
while it was attached and not held. -/
theorem run_fansOut (shelf : NatMap τ) (surroundings : ε) (moves : List (Move ε))
    (hstand : ∀ handle, .attach handle ∈ moves → (shelf.find? handle).isSome = true) :
    let hall := ((opened shelf surroundings).run moves).2
    let entries := hall.roster.attachments
    ((opened shelf surroundings).run moves).1.filterMap Answer.key? =
        List.range (attached moves) ∧
      entries.Pairwise (fun a b => a.key < b.key) ∧ (∀ a, a ∈ entries ↔ Standing moves a) ∧
      (∀ before a after, entries = before ++ a :: after → hall.perform (.detach a.key) =
        (.detached true,
          { hall with roster := { hall.roster with attachments := before ++ after } })) ∧
      (∀ key, (∀ a ∈ entries, a.key ≠ key) →
        hall.perform (.detach key) = (.detached false, hall)) ∧
      (∀ held e, ∃ outcome surroundings shelf,
        hall.perform (.announce held e) =
            (.announced outcome, { hall with surroundings, shelf }) ∧
          Spread held e (hall.surroundings, hall.shelf) (entries.map (·.handle))
            (outcome, surroundings, shelf)) ∧
      (∀ handle, .attach handle ∉ moves → hall.shelf.find? handle = shelf.find? handle) ∧
      ∀ tape : Recorder → τ, Taped ε tape → ∀ earlier handle since,
        moves = earlier ++ .attach handle :: since →
          (∀ key, ¬ Standing earlier ⟨key, handle⟩) → .attach handle ∉ since →
            ∀ r, ((opened shelf surroundings).run earlier).2.shelf.find? handle = some (tape r) →
              ∃ r' : Recorder, hall.shelf.find? handle = some (tape r') ∧
                r'.events.toList =
                  r.events.toList ++ heard (attached earlier) handle since := by
  have hordered := ordered_run_opened shelf surroundings moves
  have hentry : ∀ a, a ∈ ((opened shelf surroundings).run moves).2.roster.attachments ↔
      Standing moves a := fun a => mem_attachments_run shelf surroundings moves
  refine ⟨keys_run shelf surroundings moves, hordered.ascending, hentry, ?_, ?_, ?_, ?_, ?_⟩
  · intro before a after hsplit
    rw [perform, hordered.detach_append hsplit]
  · intro key hkey
    rw [perform, detach_of_forall_ne hkey]
  · intro held e
    refine ⟨_, _, _, rfl, spread_announce fun a ha => ?_⟩
    obtain ⟨earlier, since, rfl, -, -⟩ := (hentry a).mp ha
    rw [isSome_find?_run]
    exact hstand a.handle (List.mem_append_cons_self)
  · exact fun handle hattach =>
      find?_run_of_entriesOf_eq_nil ordered_empty rfl hattach
  · rintro tape htape earlier handle since rfl hsole hattach r hfind
    have hordered := ordered_run_opened shelf surroundings earlier
    have hnone : ((opened shelf surroundings).run earlier).2.roster.entriesOf handle = [] := by
      rw [entriesOf_eq_nil_iff]
      rintro ⟨key, handle'⟩ ha rfl
      exact hsole key ((mem_attachments_run shelf surroundings earlier).mp ha)
    have hnext : ((opened shelf surroundings).run earlier).2.roster.nextKey = attached earlier :=
      nextKey_run shelf surroundings earlier
    rw [run_append, run_cons]
    refine find?_run_tape htape (hordered.attach handle) ?_ hattach hfind
    rw [← hnext]
    exact (entriesOf_attach_self ..).trans (congrArg (· ++ _) hnone)

/-- A recorder, and a sender whose channel has been closed. -/
def pairShelf : NatMap Listener :=
  ((∅ : NatMap Listener).insert 0 (.recorder {})).insert 1 (.sender ⟨0⟩)

/-- The sender fails all along, the recorder is held once, and is detached before the end. -/
def pairMoves : List (Move Mailroom) :=
  [.attach 1, .attach 0, .announce [] .solve, .announce [0] (.sat [1]),
    .announce [1] (.unknown [2]), .detach 1, .attach 1, .announce [] .resetAssumptions]

/-- The recorder has kept what was announced while it was attached and not held. -/
theorem run_fansOut_pairMoves :
    let hall := ((opened pairShelf {}).run pairMoves).2
    (∀ handle, .attach handle ∈ pairMoves → (pairShelf.find? handle).isSome = true) ∧
      ((opened pairShelf {}).run pairMoves).1.filterMap Answer.key? = [0, 1, 2] ∧
      hall.perform (.detach 1) = (.detached false, hall) ∧
      ∃ r : Recorder, hall.shelf.find? 0 = some (.recorder r) ∧
        r.events.toList = [.solve, .unknown [2]] := by
  have hstand : ∀ handle, .attach handle ∈ pairMoves → (pairShelf.find? handle).isSome = true := by
    intro handle hattach
    simp only [pairMoves, List.mem_cons, Move.attach.injEq, reduceCtorEq, List.not_mem_nil,
      or_false, false_or] at hattach
    rcases hattach with rfl | rfl | rfl <;> rfl
  obtain ⟨hkeys, -, -, -, hdetach, -, -, htape⟩ :=
    run_fansOut pairShelf ({} : Mailroom) pairMoves hstand
  have hearlier : ∀ key, ¬ Standing ([.attach 1] : List (Move Mailroom)) ⟨key, 0⟩ := by
    intro key h
    have hmem := (mem_attachments_run pairShelf ({} : Mailroom) [.attach 1]).mpr h
    exact absurd (List.mem_singleton.mp hmem) (by simp)
  refine ⟨hstand, hkeys, hdetach 1 (by decide), ?_⟩
  exact htape .recorder (fun _ _ _ => rfl) [.attach 1] 0 _ rfl hearlier (by simp) {} rfl

end Hall

end Interpolation
