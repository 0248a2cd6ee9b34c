import Interpolation.Proofs.EncodingExactness
import Interpolation.Proofs.Replays

/-!
# Arithmetic on words

A solver packs literals and atoms into words of 32 bits, and words can overflow.  The least signed
word has no negation, an unsigned word past `atomMax` is another number when it is read as a signed
one, and a counter can be counted past the last word.  Arithmetic here is exact, and an overflow
would not show.

So the construction of an interpolant is gone through once more with a log (`Logged`), in which
every operation on words is entered before it is carried out: each literal that is negated, each
atom that is made a literal, and each time the counter goes on.  What is constructed is the same,
and every entry is in range, also when nothing is constructed in the end
(`logged_interpolate_inRange`).

One more operation of the construction is on words, and is not entered: the position of a node is
cut to 31 bits and shifted to make room for the flag of an edge.  It drops what does not fit and
is modelled as it is, in `Edge.ofNode`; the positions that fit are those of an addressable circuit.

What keeps the entries in range lies far from them.  Negated in a chain are the literals of its
antecedents, which are on record and were checked when they were recorded.  The inputs of the
circuit are compared with the counter before the first is named, the counter itself is compared
with `atomMax` before each gate, and all that is negated after that are names.

* `WordStep.InRange`, `WordStep.InRange.exact` --- when an operation on words is exact;
* `Computes` --- a logged computation that has the result of another and stays in range;
* `foldlM_resolveNext` --- a chain can be read one antecedent at a time;
* `logged_interpolate_inRange` --- no word overflows in the construction of an interpolant.
-/

namespace Interpolation

/-! ## Operations on words -/

/-- An operation on words. -/
inductive WordStep
  /-- A signed word is negated. -/
  | negate (l : Literal)
  /-- An unsigned word is made a literal. -/
  | literal (atom : Nat)
  /-- A counter goes on to the next number. -/
  | advance (next : Nat)
  deriving DecidableEq, Repr

namespace WordStep

/-- Whether the word of an operation is one that clauses may hold, or that a counter may have. -/
def InRange : WordStep → Prop
  | negate l => 1 ≤ l.atom ∧ l.atom ≤ atomMax
  | literal atom => 1 ≤ atom ∧ atom ≤ atomMax
  | advance next => next + 1 ≤ atomMax + 1

/-- Whether a word holds the number that the operation is meant to lead to. -/
def Exact : WordStep → Prop
  | negate l => Int.bmod (-l.toInt) 4294967296 = -l.toInt
  | literal atom => (Literal.ofAtom atom true).toInt = atom
  | advance next => next + 1 < 4294967296

/-- **In range nothing overflows.** -/
theorem InRange.exact {step : WordStep} (h : step.InRange) : step.Exact := by
  cases step with
  | negate l =>
    have hatom : l.toInt.natAbs ≤ 2147483647 := h.2
    show Int.bmod (-l.toInt) 4294967296 = -l.toInt
    rw [Int.bmod_def]
    omega
  | literal atom => exact Literal.toInt_ofAtom h.2 true
  | advance next =>
    have hnext : next + 1 ≤ 2147483647 + 1 := h
    show next + 1 < 4294967296
    omega

end WordStep

/-- A computation that can fail, with a log of its operations on words. -/
structure Logged (α : Type) where
  /-- The operations on words, in order. -/
  steps : List WordStep
  /-- What the computation comes to. -/
  result : Except InterpolationError α

namespace Logged

/-- A computation without operations on words. -/
def lift {α : Type} (result : Except InterpolationError α) : Logged α := ⟨[], result⟩

/-- One computation after another, if the one succeeds.  What it did stays in the log either
way. -/
def bind {α β : Type} (x : Logged α) (f : α → Logged β) : Logged β :=
  match x.result with
  | .ok a => ⟨x.steps ++ (f a).steps, (f a).result⟩
  | .error e => ⟨x.steps, .error e⟩

instance : Monad Logged where
  pure a := lift (.ok a)
  bind := bind

/-- Fails. -/
def fail {α : Type} (e : InterpolationError) : Logged α := lift (.error e)

/-- The negation of a literal. -/
def negate (l : Literal) : Logged Literal := ⟨[.negate l], .ok l.negate⟩

/-- The literal that asserts an atom. -/
def literal (atom : Nat) : Logged Literal := ⟨[.literal atom], .ok (.ofAtom atom true)⟩

/-- The number after that of a counter. -/
def advance (next : Nat) : Logged Nat := ⟨[.advance next], .ok (next + 1)⟩

/-! ## The construction with its log -/

/-- The literals of an antecedent whose negations are in a resolvent.  All of them are negated to
find out. -/
def clashing (resolvent : Clause) : Clause → Logged Clause
  | [] => pure []
  | l :: rest => do
    let denied ← negate l
    let others ← clashing resolvent rest
    pure (if denied ∈ resolvent then l :: others else others)

/-- The clause obtained by resolving a resolvent with an antecedent. -/
def resolve (resolvent antecedent : Clause) (pivot : Literal) : Logged Clause := do
  let denied ← negate pivot
  let kept := resolvent.filter fun l => l ≠ denied
  pure (kept ++ antecedent.filter fun l => l ≠ pivot ∧ l ∉ kept)

end Logged

/-- How an antecedent meets a resolvent, by the literals that clash. -/
def clashOf : Clause → Clash
  | [] => .absent
  | l :: rest => if ∀ m ∈ rest, m = l then .on l else .several

/-- What a chain has come to: the resolvent, and its partial interpolant in the circuit. -/
abbrev ChainState : Type := Clause × (Edge × Circuit)

section

variable (p : Proof) (labels : Labelling) (config : Config)

/-- Takes the next antecedent of a chain into account. -/
def resolveNext (replay : Replay) (record : Record) (state : ChainState) (key : Nat) :
    Except InterpolationError ChainState :=
  match antecedent? p replay key with
  | none => .error (malformed record)
  | some (antecedent, edge) =>
    match clash state.1 antecedent with
    | .several => .error (malformed record)
    | .absent => if config.strictChains.value then .error (malformed record) else .ok state
    | .on pivot =>
      .ok (resolve state.1 antecedent pivot, join labels state.2 (some pivot, edge))

/-- The partial interpolant that a chain has come to, if its resolvent is acceptable. -/
def acceptChain (config : Config) (record : Record) (state : ChainState) :
    Except InterpolationError (Edge × Circuit) :=
  if derives config state.1 record.clause then .ok state.2 else .error (malformed record)

/-- The partial interpolant of a derived clause, with its antecedents read one at a time. -/
def readChain (replay : Replay) (record : Record) : Except InterpolationError (Edge × Circuit) :=
  match record.antecedents.reverse with
  | [] => .error (malformed record)
  | key :: rest =>
    match antecedent? p replay key with
    | none => .error (malformed record)
    | some (last, edge) =>
      rest.foldlM (resolveNext p labels config replay record) (last, (edge, replay.circuit)) >>=
        acceptChain config record

namespace Logged

/-- Takes the next antecedent of a chain into account. -/
def resolveNext (replay : Replay) (record : Record) (state : ChainState) (key : Nat) :
    Logged ChainState :=
  match antecedent? p replay key with
  | none => fail (malformed record)
  | some (antecedent, edge) => do
    match clashOf (← clashing state.1 antecedent) with
    | .several => fail (malformed record)
    | .absent => if config.strictChains.value then fail (malformed record) else pure state
    | .on pivot =>
      let resolvent ← resolve state.1 antecedent pivot
      pure (resolvent, join labels state.2 (some pivot, edge))

/-- The partial interpolant of a derived clause. -/
def derivedInterpolant (replay : Replay) (record : Record) : Logged (Edge × Circuit) :=
  match record.antecedents.reverse with
  | [] => fail (malformed record)
  | key :: rest =>
    match antecedent? p replay key with
    | none => fail (malformed record)
    | some (last, edge) => do
      let state ← rest.foldlM (resolveNext p labels config replay record)
        (last, (edge, replay.circuit))
      lift (acceptChain config record state)

/-- The partial interpolant of a record. -/
def recordInterpolant (replay : Replay) (key : Nat) (record : Record) : Logged (Edge × Circuit) :=
  match record.source with
  | .derived => derivedInterpolant p labels config replay record
  | .premise =>
    match labels.partAt? key with
    | none => fail (.unknownLabel (record.id.getD 0))
    | some part =>
      lift (premiseInterpolant labels replay.circuit part (record.id.getD 0) record.clause)

/-- Visits the record at a key. -/
def visit (replay : Replay) (key : Nat) : Logged Replay :=
  match p.record? key with
  | none => fail .malformedRefutation
  | some record => do
    let made ← recordInterpolant p labels config replay key record
    pure { circuit := made.2, interpolants := replay.interpolants.insert key made.1 }

/-- What an edge is called. -/
def term (s : Encoding.Naming) (e : Edge) : Logged Encoding.Term :=
  match s.names.find? e.node with
  | some l =>
    if e.negated then do
      let denied ← negate l
      pure (.literal denied)
    else pure (.literal l)
  | none => pure (.constant e.negated)

/-- The clause by which a gate implies one of its conjuncts, if that has to be said, and what the
conjunct adds to the clause by which the conjuncts together imply the gate. -/
def conjunct (gate : Literal) : Encoding.Term → Logged (List Clause × Clause)
  | .literal l => do
    let closed ← negate gate
    let denied ← negate l
    pure ([[closed, l]], [denied])
  | .constant true => pure ([], [])
  | .constant false => do
    let closed ← negate gate
    pure ([[closed]], [])

/-- The clauses that make a gate the conjunction of two terms. -/
def gateClauses (gate : Literal) (x y : Encoding.Term) : Logged (List Clause) := do
  let left ← conjunct gate x
  let right ← conjunct gate y
  pure (left.1 ++ right.1 ++ [gate :: (left.2 ++ right.2)])

/-- Names the node at one position. -/
def addNode (c : Circuit) (s : Encoding.Naming) (index : Nat) : Logged Encoding.Naming :=
  match c.nodes[index]? with
  | some (.input atom) => do
    let name ← literal atom
    pure { s with names := s.names.insert index name }
  | some (.and left right) =>
    if atomMax < s.next then fail .atomsExhausted
    else do
      let gate ← literal s.next
      let following ← advance s.next
      let named := { s with names := s.names.insert index gate }
      let x ← term named left
      let y ← term named right
      let clauses ← gateClauses gate x y
      pure { named with clauses := named.clauses ++ clauses, next := following }
  | _ => pure s

/-- The clauses with the output asserted. -/
def assert (s : Encoding.Naming) (output : Edge) : Logged (List Clause) := do
  match ← term s output with
  | .literal l => pure (s.clauses ++ [[l]])
  | .constant true => pure s.clauses
  | .constant false => pure (s.clauses ++ [[]])

/-- The clauses of an output, and the least variable that is still fresh after them. -/
def encode (c : Circuit) (output : Edge) (next : Nat) : Logged (List Clause × Nat) :=
  if output.isConstant then pure (if output.negated then [] else [[]], next)
  else if Encoding.fresh c output next then do
    let s ← (c.cone output).foldlM (addNode c) { next }
    let clauses ← assert s output
    pure (clauses, s.next)
  else fail (.invalidFreshVariable next)

/-- The interpolant that a refutation leads to, with fresh variables from `next`. -/
def interpolate (next : Nat) : Logged Interpolant :=
  match config.mode.value with
  | .symmetric => fail (.unsupportedMode .symmetric)
  | .asymmetric => do
    let witness ← lift (witnessOf p)
    match firstUnlabelled? p labels with
    | some id => fail (.unknownLabel id)
    | none =>
      let replay ← (cone p.antecedentsAt witness).foldlM (visit p labels config) {}
      match replay.interpolants.find? witness with
      | none => fail .malformedRefutation
      | some edge =>
        let (output, circuit) := replay.circuit.extract edge
        let (clauses, following) ← encode circuit output next
        pure { clauses, first := next, next := following, circuit, output }

end Logged

end

/-! ## Computing the same -/

/-- Whether a logged computation comes to a result with every operation on words in range. -/
structure Computes {α : Type} (x : Logged α) (y : Except InterpolationError α) : Prop where
  /-- The results are the same. -/
  result : x.result = y
  /-- Every operation is in range. -/
  inRange : ∀ step ∈ x.steps, step.InRange

namespace Computes

variable {α β : Type}

theorem lift (y : Except InterpolationError α) : Computes (.lift y) y :=
  ⟨rfl, List.forall_mem_nil _⟩

theorem pure (a : α) : Computes (Pure.pure a) (.ok a) := lift (.ok a)

theorem fail (e : InterpolationError) : Computes (α := α) (.fail e) (.error e) := lift (.error e)

theorem negate {l : Literal} (h : l.Proper) : Computes (.negate l) (.ok l.negate) where
  result := rfl
  inRange := by
    rintro step (_ | ⟨_, ⟨⟩⟩)
    exact ⟨Nat.one_le_iff_ne_zero.mpr (Literal.atom_ne_zero h.1), h.2⟩

theorem literal {atom : Nat} (h0 : atom ≠ 0) (h : atom ≤ atomMax) :
    Computes (.literal atom) (.ok (.ofAtom atom true)) where
  result := rfl
  inRange := by
    rintro step (_ | ⟨_, ⟨⟩⟩)
    exact ⟨Nat.one_le_iff_ne_zero.mpr h0, h⟩

theorem advance {next : Nat} (h : next ≤ atomMax) : Computes (.advance next) (.ok (next + 1)) where
  result := rfl
  inRange := by
    rintro step (_ | ⟨_, ⟨⟩⟩)
    exact Nat.succ_le_succ h

/-- One computation after another. -/
theorem bind {x : Logged α} {y : Except InterpolationError α} {f : α → Logged β}
    {g : α → Except InterpolationError β} (hx : Computes x y)
    (hf : ∀ a, y = .ok a → Computes (f a) (g a)) : Computes (x >>= f) (y >>= g) := by
  obtain ⟨steps, result⟩ := x
  obtain rfl : result = y := hx.result
  cases result with
  | error e => exact ⟨rfl, hx.inRange⟩
  | ok a =>
    have hfa := hf a rfl
    exact ⟨hfa.result, List.forall_mem_append.mpr ⟨hx.inRange, hfa.inRange⟩⟩

/-- One computation after another that succeeds. -/
theorem andThen {x : Logged α} {a : α} {f : α → Logged β} {y : Except InterpolationError β}
    (hx : Computes x (.ok a)) (hf : Computes (f a) y) : Computes (x >>= f) y :=
  hx.bind (g := fun _ => y) fun b hb => by rwa [← Except.ok.inj hb]

/-- Computations one after another, through all of which something holds. -/
theorem foldlM {γ : Type} {P : β → Prop} {f : β → γ → Logged β}
    {g : β → γ → Except InterpolationError β} {l : List γ} {b : β} (hb : P b)
    (hstep : ∀ b a, a ∈ l → P b →
      Computes (f b a) (g b a) ∧ ∀ later, g b a = .ok later → P later) :
    Computes (l.foldlM f b) (l.foldlM g b) ∧ ∀ later, l.foldlM g b = .ok later → P later := by
  induction l generalizing b with
  | nil =>
    refine ⟨pure b, fun later h => ?_⟩
    rwa [← Except.ok.inj h]
  | cons a l ih =>
    obtain ⟨hcomputes, hholds⟩ := hstep b a List.mem_cons_self hb
    have hrest : ∀ b a', a' ∈ l → P b →
        Computes (f b a') (g b a') ∧ ∀ later, g b a' = .ok later → P later := fun b a' ha' =>
      hstep b a' (List.mem_cons_of_mem a ha')
    rw [List.foldlM_cons, List.foldlM_cons]
    refine ⟨hcomputes.bind fun middle hmiddle => (ih (hholds middle hmiddle) hrest).1, ?_⟩
    intro later hlater
    obtain ⟨middle, hmiddle, hlater⟩ := bind_eq_ok_iff.mp hlater
    exact (ih (hholds middle hmiddle) hrest).2 later hlater

/-- Computations one after another, each of which stays in range from wherever it starts. -/
theorem foldlM_of_forall {γ : Type} {f : β → γ → Logged β}
    {g : β → γ → Except InterpolationError β} (hstep : ∀ b a, Computes (f b a) (g b a))
    (l : List γ) (b : β) : Computes (l.foldlM f b) (l.foldlM g b) :=
  (foldlM (P := fun _ => True) trivial fun b a _ _ => ⟨hstep b a, fun _ _ => trivial⟩).1

end Computes

/-! ## Chains -/

section

variable {p : Proof} {labels : Labelling} {config : Config} {replay : Replay} {record : Record}

/-- A result that a chain may lack, with the error for a chain at fault. -/
def orMalformed {α : Type} (record : Record) : Option α → Except InterpolationError α
  | some a => .ok a
  | none => .error (malformed record)

/-- What antecedents read all at once make of a chain. -/
def resolveAll (strict : Bool) (labels : Labelling) (state : ChainState)
    (antecedents : List (Clause × Edge)) : Option ChainState :=
  (runChain strict state.1 (antecedents.map (·.1))).map fun run =>
    (run.resolvent, (run.pivots.zip (antecedents.map (·.2))).foldl (join labels) state.2)

/-- Antecedents are read all at once as the first of them and then the others. -/
theorem resolveAll_cons {strict : Bool} {state : ChainState} {antecedent : Clause} {edge : Edge}
    {rest : List (Clause × Edge)} :
    resolveAll strict labels state ((antecedent, edge) :: rest) =
      match clash state.1 antecedent with
      | .several => none
      | .absent => if strict then none else resolveAll strict labels state rest
      | .on pivot =>
        resolveAll strict labels
          (resolve state.1 antecedent pivot, join labels state.2 (some pivot, edge)) rest := by
  show (runChain strict state.1 (antecedent :: rest.map (·.1))).map _ = _
  rw [runChain]
  cases clash state.1 antecedent with
  | several => rfl
  | absent =>
    cases strict with
    | true => rfl
    | false => exact Option.map_map ..
  | on pivot => exact Option.map_map ..

/-- **A chain can be read one antecedent at a time.**  That all its antecedents are looked up
before the first resolution makes no difference, for every fault of a chain is the same error. -/
theorem foldlM_resolveNext (keys : List Nat) (state : ChainState) :
    keys.foldlM (resolveNext p labels config replay record) state =
      orMalformed record ((keys.mapM (antecedent? p replay)).bind
        (resolveAll config.strictChains.value labels state)) := by
  induction keys generalizing state with
  | nil => rfl
  | cons key keys ih =>
    rw [List.foldlM_cons, List.mapM_cons, resolveNext]
    cases antecedent? p replay key with
    | none => rfl
    | some found =>
      obtain ⟨antecedent, edge⟩ := found
      have hmapM : ((some (antecedent, edge) >>= fun first =>
            keys.mapM (antecedent? p replay) >>= fun rest => pure (first :: rest)).bind
              (resolveAll config.strictChains.value labels state)) =
          (keys.mapM (antecedent? p replay)).bind fun rest =>
            resolveAll config.strictChains.value labels state ((antecedent, edge) :: rest) := by
        cases keys.mapM (antecedent? p replay) <;> rfl
      rw [hmapM]
      simp only [resolveAll_cons]
      -- where the chain is at fault here, it does not matter whether a later antecedent is found
      cases clash state.1 antecedent with
      | several => cases keys.mapM (antecedent? p replay) <;> rfl
      | absent =>
        have hrest := ih state
        cases hstrict : config.strictChains.value with
        | true => cases keys.mapM (antecedent? p replay) <;> rfl
        | false =>
          rw [hstrict] at hrest
          exact hrest
      | on pivot => exact ih _

/-- **Reading a chain one antecedent at a time leads to the same partial interpolant.** -/
theorem derivedInterpolant_eq_readChain :
    derivedInterpolant p labels config replay record = readChain p labels config replay record := by
  unfold readChain
  unfold derivedInterpolant
  cases record.antecedents.reverse with
  | nil => rfl
  | cons key rest =>
    rw [List.mapM_cons]
    dsimp only
    cases antecedent? p replay key with
    | none => rfl
    | some found =>
      obtain ⟨last, edge⟩ := found
      dsimp only
      rw [foldlM_resolveNext]
      cases rest.mapM (antecedent? p replay) with
      | none => rfl
      | some rest =>
        simp only [bind_pure_comp, Option.map_eq_map, Option.bind_eq_bind, Option.bind_some,
          Option.map_some, resolveAll]
        cases runChain config.strictChains.value last (rest.map (·.1)) <;> rfl

end

/-! ## Words in a replay -/

namespace Computes

variable {p : Proof} {labels : Labelling} {config : Config} {replay : Replay} {record : Record}

/-- The literals of an antecedent that are negated are its own. -/
theorem clashing (resolvent : Clause) {antecedent : Clause} (h : ∀ l ∈ antecedent, l.Proper) :
    Computes (Logged.clashing resolvent antecedent)
      (.ok (antecedent.filter fun l => l.negate ∈ resolvent)) := by
  induction antecedent with
  | nil => exact pure []
  | cons l rest ih =>
    obtain ⟨hl, hrest⟩ := List.forall_mem_cons.mp h
    refine (negate hl).andThen ((ih hrest).andThen ?_)
    rw [List.filter_cons]
    by_cases hmem : l.negate ∈ resolvent
    · rw [if_pos hmem, if_pos (decide_eq_true hmem)]
      exact pure _
    · rw [if_neg hmem, if_neg (by simp [hmem])]
      exact pure _

theorem resolve (resolvent antecedent : Clause) {pivot : Literal} (h : pivot.Proper) :
    Computes (Logged.resolve resolvent antecedent pivot)
      (.ok (Interpolation.resolve resolvent antecedent pivot)) :=
  (negate h).andThen (pure _)

theorem resolveNext (hp : p.WellFormed) (state : ChainState) (key : Nat) :
    Computes (Logged.resolveNext p labels config replay record state key)
      (Interpolation.resolveNext p labels config replay record state key) := by
  unfold Logged.resolveNext Interpolation.resolveNext
  cases hfound : antecedent? p replay key with
  | none => exact fail _
  | some found =>
    obtain ⟨antecedent, edge⟩ := found
    have hproper : ∀ l ∈ antecedent, l.Proper := by
      obtain ⟨record, hrecord, rfl⟩ :=
        Option.map_eq_some_iff.mp (antecedent?_eq_some_iff.mp hfound).1
      exact hp.proper hrecord
    dsimp only
    refine (clashing state.1 hproper).andThen ?_
    have hclashOf : clashOf (antecedent.filter fun l => l.negate ∈ state.1) =
        clash state.1 antecedent := rfl
    rw [hclashOf]
    cases hclash : clash state.1 antecedent with
    | several => exact fail _
    | absent =>
      dsimp only
      split
      · exact fail _
      · exact pure state
    | on pivot =>
      have hpivot : pivot.Proper := hproper pivot (clash_eq_on_iff.mp hclash).1.1
      exact (resolve state.1 antecedent hpivot).andThen (pure _)

theorem derivedInterpolant (hp : p.WellFormed) :
    Computes (Logged.derivedInterpolant p labels config replay record)
      (Interpolation.derivedInterpolant p labels config replay record) := by
  rw [derivedInterpolant_eq_readChain]
  unfold Logged.derivedInterpolant readChain
  cases record.antecedents.reverse with
  | nil => exact fail _
  | cons key rest =>
    dsimp only
    cases antecedent? p replay key with
    | none => exact fail _
    | some found =>
      exact (foldlM_of_forall (resolveNext hp) rest _).bind fun state _ => lift _

theorem recordInterpolant (hp : p.WellFormed) (key : Nat) :
    Computes (Logged.recordInterpolant p labels config replay key record)
      (Interpolation.recordInterpolant p labels config replay key record) := by
  unfold Logged.recordInterpolant Interpolation.recordInterpolant
  cases record.source with
  | derived => exact derivedInterpolant hp
  | premise =>
    dsimp only
    cases labels.partAt? key with
    | none => exact fail _
    | some part => exact lift _

theorem visit (hp : p.WellFormed) (key : Nat) :
    Computes (Logged.visit p labels config replay key) (replay.visit p labels config key) := by
  unfold Logged.visit Replay.visit
  cases p.record? key with
  | none => exact fail _
  | some record => exact (recordInterpolant hp key).bind fun made _ => pure _

/-- **In a replay only literals on record are negated.** -/
theorem visitAll (hp : p.WellFormed) (keys : List Nat) :
    Computes (keys.foldlM (Logged.visit p labels config) {})
      (Replay.visitAll p labels config keys) :=
  foldlM_of_forall (fun _ key => visit hp key) keys {}

end Computes

/-! ## Words in an encoding -/

namespace Encoding

/-- Whether a term is a proper literal, if it is a literal. -/
def Term.Proper (t : Term) : Prop := ∀ l, t = .literal l → l.Proper

/-- What holds of an encoding in the making: all names are proper, and the counter is no zero. -/
structure Naming.Proper (s : Naming) : Prop where
  /-- The names are proper. -/
  names : ∀ {k l}, s.names.find? k = some l → l.Proper
  /-- The counter has left zero. -/
  next : s.next ≠ 0

namespace Naming.Proper

variable {s : Naming}

theorem start {next : Nat} (h : next ≠ 0) : Naming.Proper { next } where
  names h := nomatch h
  next := h

/-- One more node is named. -/
theorem insert (hs : s.Proper) {l : Literal} (hl : l.Proper) (index : Nat)
    (clauses : List Clause) {next : Nat} (hnext : next ≠ 0) :
    Naming.Proper { names := s.names.insert index l, clauses, next } where
  names {k m} h := by
    rw [NatMap.find?_insert] at h
    split at h
    · exact Option.some.inj h ▸ hl
    · exact hs.names h
  next := hnext

theorem term (hs : s.Proper) (e : Edge) : (s.term e).Proper := by
  intro l hterm
  unfold Naming.term at hterm
  cases hname : s.names.find? e.node with
  | none =>
    rw [hname] at hterm
    exact absurd hterm (by simp)
  | some name =>
    rw [hname] at hterm
    obtain rfl := Term.literal.inj hterm
    split
    · exact (hs.names hname).negate
    · exact hs.names hname

end Naming.Proper

end Encoding

namespace Computes

open Encoding

variable {s : Naming}

/-- To call an edge something, a name is negated at most. -/
theorem term (hs : s.Proper) (e : Edge) : Computes (Logged.term s e) (.ok (s.term e)) := by
  unfold Logged.term Naming.term
  cases hname : s.names.find? e.node with
  | none => exact pure _
  | some l =>
    dsimp only
    split
    · exact (negate (hs.names hname)).andThen (pure _)
    · exact pure _

theorem conjunct {gate : Literal} (hgate : gate.Proper) {t : Term} (ht : t.Proper) :
    Computes (Logged.conjunct gate t) (.ok (impliedClause gate t, t.denied)) := by
  cases t with
  | literal l => exact (negate hgate).andThen ((negate (ht l rfl)).andThen (pure _))
  | constant value =>
    cases value with
    | true => exact pure _
    | false => exact (negate hgate).andThen (pure _)

theorem gateClauses {gate : Literal} (hgate : gate.Proper) {x y : Term} (hx : x.Proper)
    (hy : y.Proper) :
    Computes (Logged.gateClauses gate x y) (.ok (Encoding.gateClauses gate x y)) :=
  (conjunct hgate hx).andThen ((conjunct hgate hy).andThen (pure _))

/-- **Naming a node keeps to words in range,** and names it properly. -/
theorem addNode (hs : s.Proper) {c : Circuit} {index : Nat}
    (hinput : ∀ atom, c.nodes[index]? = some (.input atom) → atom ≠ 0 ∧ atom ≤ atomMax) :
    Computes (Logged.addNode c s index) (Naming.addNode c s index) ∧
      ∀ later, Naming.addNode c s index = .ok later → later.Proper := by
  unfold Logged.addNode Naming.addNode
  cases hnode : c.nodes[index]? with
  | none =>
    refine ⟨pure s, fun later hlater => ?_⟩
    rwa [← Except.ok.inj hlater]
  | some node =>
    cases node with
    | bottom =>
      refine ⟨pure s, fun later hlater => ?_⟩
      rwa [← Except.ok.inj hlater]
    | input atom =>
      obtain ⟨h0, hmax⟩ := hinput atom hnode
      refine ⟨(literal h0 hmax).andThen (pure _), fun later hlater => ?_⟩
      rw [← Except.ok.inj hlater]
      exact hs.insert (Literal.proper_ofAtom h0 hmax) index s.clauses hs.next
    | and left right =>
      dsimp only
      split
      · exact ⟨fail _, fun later hlater => absurd hlater (by simp)⟩
      · rename_i hbound
        have hmax : s.next ≤ atomMax := Nat.le_of_not_lt hbound
        have hgate := Literal.proper_ofAtom hs.next hmax
        -- the gate has its name before its conjuncts are called by theirs
        have hnamed := hs.insert hgate index s.clauses hs.next
        refine ⟨?_, fun later hlater => ?_⟩
        · refine (literal hs.next hmax).andThen ((advance hmax).andThen ?_)
          refine (term hnamed left).andThen ((term hnamed right).andThen ?_)
          exact (gateClauses hgate (hnamed.term left) (hnamed.term right)).andThen (pure _)
        · rw [← Except.ok.inj hlater]
          exact hs.insert hgate index _ (Nat.succ_ne_zero s.next)

theorem assert (hs : s.Proper) (output : Edge) :
    Computes (Logged.assert s output) (.ok (s.assert output)) := by
  refine (term hs output).andThen ?_
  unfold Naming.assert
  cases s.term output with
  | literal l => exact pure _
  | constant value => cases value <;> exact pure _

/-- **An encoding keeps to words in range.** -/
theorem encode {c : Circuit} (hover : c.Over (· ≠ 0)) (output : Edge) (next : Nat) :
    Computes (Logged.encode c output next) (Encoding.encode c output next) := by
  unfold Logged.encode Encoding.encode
  split
  · exact pure _
  · split
    · rename_i hfresh
      obtain ⟨h0, hmax, hbelow⟩ := fresh_iff.mp hfresh
      have hinput : ∀ index ∈ c.cone output, ∀ atom, c.nodes[index]? = some (.input atom) →
          atom ≠ 0 ∧ atom ≤ atomMax := by
        intro index hindex atom hnode
        have hlt := hbelow atom (Circuit.mem_atoms_iff.mpr ⟨index, hindex, hnode⟩)
        exact ⟨hover hnode, Nat.le_trans (Nat.le_of_lt hlt) hmax⟩
      have hrun := foldlM (P := Naming.Proper) (.start h0) fun s index hindex hs =>
        addNode hs (hinput index hindex)
      exact hrun.1.bind fun s hs => (assert (hrun.2 s hs) output).andThen (pure _)
    · exact fail _

end Computes

/-! ## Words in the construction of an interpolant -/

variable {p : Proof} {labels : Labelling} {config : Config}

/-- **The construction of an interpolant keeps to words in range.** -/
theorem Computes.interpolate (hp : p.WellFormed) (next : Nat) :
    Computes (Logged.interpolate p labels config next)
      (Interpolation.interpolate p labels config next) := by
  unfold Logged.interpolate Interpolation.interpolate
  cases config.mode.value with
  | symmetric => exact fail _
  | asymmetric =>
    refine (lift (witnessOf p)).bind fun witness hwitness => ?_
    cases firstUnlabelled? p labels with
    | some id => exact fail _
    | none =>
      refine (visitAll hp _).bind fun replay hreplay => ?_
      cases hfound : replay.interpolants.find? witness with
      | none => exact fail _
      | some edge =>
        have hvalid := Replay.Valid.visitAll
          (fun key hkey => (mem_cone_iff_restsOn hp hwitness).mp hkey) hreplay
        have hover : (replay.circuit.extract edge).2.Over (· ≠ 0) := fun hnode =>
          Labelling.Speaks.ne_zero hp (hvalid.over_extract hfound hnode)
        exact (encode hover _ next).bind fun encoded _ => pure _

/-- **No word overflows in the construction of an interpolant.**  For any reachable proof, any
labels and configuration, and any counter, the construction with its log comes to what the
construction comes to, be it an interpolant or an error.  Every literal that is negated on the way,
to find out what clashes, to remove a pivot or to call an edge or a gate by its negation, has an
atom between 1 and `atomMax`, and so has every input and every fresh variable that is made a
literal; and the counter never goes on from beyond `atomMax`.  So every negation, every literal
made and every next number is what it would be without words. -/
theorem logged_interpolate_inRange (hp : p.Reachable) (labels : Labelling) (config : Config)
    (next : Nat) :
    (Logged.interpolate p labels config next).result = interpolate p labels config next ∧
      ∀ step ∈ (Logged.interpolate p labels config next).steps, step.InRange ∧ step.Exact := by
  have hcomputes : Computes (Logged.interpolate p labels config next) _ :=
    .interpolate hp.wellFormed next
  exact ⟨hcomputes.result, fun step hstep =>
    ⟨hcomputes.inRange step hstep, (hcomputes.inRange step hstep).exact⟩⟩

/-- A refutation of `m ∨ 2` and `¬m ∨ 3 ∨ 4` together with `¬2`, `¬3` and `¬4`, where `m` is the
largest atom. -/
def largestRefutation : Proof :=
  Proof.run {} [.premise 1 false [2147483647, 2] false, .premise 2 false [-2147483647, 3, 4] false,
    .premise 3 false [-2] false, .premise 4 false [-3] false, .premise 5 false [-4] false,
    .conclude .conflict [3, 4, 5, 2, 1]]

theorem reachable_largestRefutation : largestRefutation.Reachable := Proof.Reachable.start.run _

/-- The first two premises are one part and the others the other, and `m` is local. -/
def largestLabelling : Labelling :=
  ((((((({} : Labelling).setScope 2147483647 (.localTo .a)).2.setPartAt 0 .a).setPartAt 1
    .a).setPartAt 2 .b).setPartAt 3 .b).setPartAt 4 .b)

/-- The log of a construction whose counter is the largest atom.  Its first gate takes the largest
atom for its fresh variable, and there is none left for the second. -/
def largestLog : Logged Interpolant := .interpolate largestRefutation largestLabelling {} 2147483647

theorem logged_interpolate_inRange_largestRefutation :
    largestRefutation.Reachable ∧ largestLog.result = .error .atomsExhausted ∧
      [.negate 2147483647, .negate (-2147483647), .advance 2147483647] ⊆ largestLog.steps ∧
      ∀ step ∈ largestLog.steps, step.InRange ∧ step.Exact :=
  ⟨reachable_largestRefutation, by decide, by decide,
    (logged_interpolate_inRange reachable_largestRefutation largestLabelling {} 2147483647).2⟩

end Interpolation
