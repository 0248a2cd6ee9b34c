import Interpolation.Proofs.CircuitReading

/-!
# What the steps of a construction spell out

A circuit is built in steps, and each step but the first few joins what earlier steps have
returned.  Read without any circuit, the steps spell out one Boolean expression each
(`Step.expression?`), in which nothing is folded and nothing is shared.  Taken on a circuit,
they return one edge each (`Step.take?`), and an edge returned may be a constant, or an
operand, or an edge that was there before.

The two agree.  As long as the circuit is addressable an edge has the value of the expression of
its step, when it is returned and for good, whatever is built afterwards (`Draft.run_spells`).
All that is needed of a single operation is the function it provides, and that a circuit which
grows changes no value; so neither folding nor sharing is looked at here once more.  An edge can
be read without leaving the circuit whether or not the circuit is addressable.

* `Draft.Spells.step` --- one step keeps edges and expressions in agreement;
* `Draft.Spells.run` --- so does a run;
* `Draft.run_spells` --- the edges of a construction have the values that its steps spell
  out, and can be read without leaving the circuit.
-/

namespace Interpolation

/-- A Boolean expression over variables. -/
inductive Expression
  /-- A constant. -/
  | constant (value : Bool)
  /-- The value of a variable. -/
  | atom (atom : Nat)
  /-- The value of a literal. -/
  | literal (l : Literal)
  /-- A conjunction. -/
  | and (x y : Expression)
  /-- A disjunction. -/
  | or (x y : Expression)
  /-- A negation. -/
  | not (x : Expression)
  deriving DecidableEq, Repr

/-- The value of an expression, where the variables have the values `v`. -/
def Expression.value (v : Nat → Bool) : Expression → Bool
  | constant value => value
  | atom a => v a
  | literal l => l.holds v
  | and x y => x.value v && y.value v
  | or x y => x.value v || y.value v
  | not x => !x.value v

namespace Circuit

/-- A step of a construction.  What earlier steps have returned is named by their places. -/
inductive Step
  /-- Takes a constant. -/
  | constant (value : Bool)
  /-- Asks for the edge of a variable. -/
  | input (atom : Nat)
  /-- Asks for the edge of a literal. -/
  | literal (l : Literal)
  /-- Asks for a conjunction. -/
  | and (i j : Nat)
  /-- Asks for a disjunction. -/
  | or (i j : Nat)
  /-- Negates an edge. -/
  | not (i : Nat)
  deriving DecidableEq, Repr

/-- A construction under way. -/
structure Draft where
  /-- The circuit so far. -/
  circuit : Circuit := {}
  /-- What the steps have returned, in their order. -/
  edges : List Edge := []
  deriving DecidableEq, Repr

/-! ## The two readings of a step -/

/-- The expression a step spells out, unless it names a step that is not there. -/
def Step.expression? (earlier : List Expression) : Step → Option Expression
  | constant value => some (.constant value)
  | input atom => some (.atom atom)
  | literal l => some (.literal l)
  | and i j => do
    let x ← earlier[i]?
    let y ← earlier[j]?
    some (.and x y)
  | or i j => do
    let x ← earlier[i]?
    let y ← earlier[j]?
    some (.or x y)
  | not i => do
    let x ← earlier[i]?
    some (.not x)

/-- The edge a step returns and the circuit after it, unless it names a step that is not
there. -/
def Step.take? (d : Draft) : Step → Option (Edge × Circuit)
  | constant value => some (.constant value, d.circuit)
  | input atom => some (d.circuit.input atom)
  | literal l => some (d.circuit.literal l)
  | and i j => do
    let a ← d.edges[i]?
    let b ← d.edges[j]?
    some (d.circuit.and a b)
  | or i j => do
    let a ← d.edges[i]?
    let b ← d.edges[j]?
    some (d.circuit.or a b)
  | not i => do
    let a ← d.edges[i]?
    some (a.negate, d.circuit)

/-- The expressions that steps spell out after those of earlier ones. -/
def spellAfter? (earlier : List Expression) (steps : List Step) : Option (List Expression) :=
  steps.foldlM (fun earlier step => (step.expression? earlier).map fun x => earlier ++ [x]) earlier

/-- The expressions that steps spell out. -/
def spell? (steps : List Step) : Option (List Expression) := spellAfter? [] steps

theorem spellAfter?_append {earlier spelled : List Expression} {before after : List Step}
    (h : spellAfter? earlier (before ++ after) = some spelled) :
    ∃ between, spellAfter? earlier before = some between ∧
      spellAfter? between after = some spelled := by
  rw [spellAfter?, List.foldlM_append] at h
  exact Option.bind_eq_some_iff.mp h

namespace Draft

/-- Takes one step. -/
def take? (d : Draft) (step : Step) : Option Draft :=
  (step.take? d).map fun result => ⟨result.2, d.edges ++ [result.1]⟩

/-- Takes steps one after another. -/
def run? (d : Draft) (steps : List Step) : Option Draft := steps.foldlM take? d

/-- Each step returns one edge. -/
theorem length_edges_run? {d d' : Draft} {steps : List Step} (h : d.run? steps = some d') :
    d'.edges.length = d.edges.length + steps.length := by
  induction steps generalizing d with
  | nil =>
    obtain rfl := Option.some.inj h
    rfl
  | cons step steps ih =>
    obtain ⟨d₁, hd₁, h⟩ := Option.bind_eq_some_iff.mp h
    obtain ⟨result, -, rfl⟩ := Option.map_eq_some_iff.mp hd₁
    rw [ih h, List.length_append, List.length_singleton, List.length_cons]
    omega

/-! ## Agreement -/

/-- Whether the edges of a draft have the values of expressions, one by one. -/
structure Spells (d : Draft) (expressions : List Expression) : Prop where
  /-- The circuit is canonical. -/
  canonical : d.circuit.Canonical
  /-- There is an edge for each expression. -/
  length : d.edges.length = expressions.length
  /-- It is an edge of the circuit. -/
  lt : ∀ e ∈ d.edges, e.node < d.circuit.size
  /-- It has the value of the expression, if the circuit is addressable. -/
  evaluate : d.circuit.Addressable → ∀ {i : Nat} {e : Edge} {x : Expression},
    d.edges[i]? = some e → expressions[i]? = some x → ∀ v, d.circuit.evaluate e v = x.value v

namespace Spells

variable {d : Draft} {expressions : List Expression}

theorem initial : Spells {} [] where
  canonical := canonical_empty
  length := rfl
  lt _ he := absurd he List.not_mem_nil
  evaluate _ _ _ _ h := absurd h (by simp)

/-- Where a step has an expression it has an edge. -/
theorem exists_edge (h : d.Spells expressions) {i : Nat} {x : Expression}
    (hx : expressions[i]? = some x) :
    ∃ e, d.edges[i]? = some e ∧ e.node < d.circuit.size ∧
      (d.circuit.Addressable → ∀ v, d.circuit.evaluate e v = x.value v) := by
  have hi : i < d.edges.length := by
    rw [h.length]
    exact (List.getElem?_eq_some_iff.mp hx).1
  have he : d.edges[i]? = some d.edges[i] := List.getElem?_eq_getElem hi
  exact ⟨_, he, h.lt _ (List.getElem_mem hi), fun hsize => h.evaluate hsize he hx⟩

/-- Joining the edges of two earlier steps joins their expressions. -/
theorem provides_joined (h : d.Spells expressions) (join : Edge → Edge → Edge × Circuit)
    {f : Bool → Bool → Bool}
    (hjoin : ∀ {a b : Edge}, a.node < d.circuit.size → b.node < d.circuit.size →
      (join a b).2.Canonical ∧
        Provides d.circuit (join a b) fun v => f (d.circuit.evaluate a v) (d.circuit.evaluate b v))
    {i j : Nat} {x y : Expression} (hx : expressions[i]? = some x)
    (hy : expressions[j]? = some y) :
    ∃ a b, d.edges[i]? = some a ∧ d.edges[j]? = some b ∧ (join a b).2.Canonical ∧
      Provides d.circuit (join a b) fun v => f (x.value v) (y.value v) := by
  obtain ⟨a, ha, halt, hav⟩ := h.exists_edge hx
  obtain ⟨b, hb, hblt, hbv⟩ := h.exists_edge hy
  obtain ⟨hcanonical, hprovides⟩ := hjoin halt hblt
  refine ⟨a, b, ha, hb, hcanonical, hprovides.le, hprovides.lt, fun hsize v => ?_⟩
  have hsize' := hsize.of_le hprovides.le
  rw [hprovides.evaluate hsize, hav hsize', hbv hsize']

/-- What a step returns stands for the expression it spells out. -/
theorem provides (h : d.Spells expressions) {step : Step} {x : Expression}
    (hx : step.expression? expressions = some x) :
    ∃ result, step.take? d = some result ∧ result.2.Canonical ∧
      Provides d.circuit result fun v => x.value v := by
  have hc := h.canonical
  cases step with
  | constant value =>
    obtain rfl := Option.some.inj hx
    refine ⟨_, rfl, hc, le_refl _, hc.size_pos, fun _ v => ?_⟩
    cases value with
    | false => exact hc.evaluate_bottom v
    | true => exact hc.evaluate_top v
  | input atom =>
    obtain rfl := Option.some.inj hx
    exact ⟨_, rfl, hc.input atom, provides_input d.circuit atom⟩
  | literal l =>
    obtain rfl := Option.some.inj hx
    exact ⟨_, rfl, hc.literal l, provides_literal d.circuit l⟩
  | and i j =>
    obtain ⟨y, hy, hx⟩ := Option.bind_eq_some_iff.mp hx
    obtain ⟨z, hz, hx⟩ := Option.bind_eq_some_iff.mp hx
    obtain rfl := Option.some.inj hx
    obtain ⟨a, b, ha, hb, hjoined⟩ := h.provides_joined d.circuit.and
      (fun ha hb => ⟨hc.and ha hb, provides_and hc ha hb⟩) hy hz
    exact ⟨_, by simp [Step.take?, ha, hb], hjoined⟩
  | or i j =>
    obtain ⟨y, hy, hx⟩ := Option.bind_eq_some_iff.mp hx
    obtain ⟨z, hz, hx⟩ := Option.bind_eq_some_iff.mp hx
    obtain rfl := Option.some.inj hx
    obtain ⟨a, b, ha, hb, hjoined⟩ := h.provides_joined d.circuit.or
      (fun ha hb => ⟨hc.or ha hb, provides_or hc ha hb⟩) hy hz
    exact ⟨_, by simp [Step.take?, ha, hb], hjoined⟩
  | not i =>
    obtain ⟨y, hy, hx⟩ := Option.bind_eq_some_iff.mp hx
    obtain rfl := Option.some.inj hx
    obtain ⟨a, ha, halt, hav⟩ := h.exists_edge hy
    refine ⟨(a.negate, d.circuit), by simp [Step.take?, ha], hc, le_refl _, halt,
      fun hsize v => ?_⟩
    rw [evaluate_negate, hav hsize]
    rfl

/-- **A step keeps edges and expressions in agreement,** and only adds to the circuit. -/
theorem step (h : d.Spells expressions) {step : Step} {x : Expression}
    (hx : step.expression? expressions = some x) :
    ∃ d', d.take? step = some d' ∧ d'.Spells (expressions ++ [x]) ∧ d.circuit ≤ d'.circuit ∧
      d.edges <+: d'.edges := by
  obtain ⟨result, hresult, hcanonical, hprovides⟩ := h.provides hx
  refine ⟨⟨result.2, d.edges ++ [result.1]⟩, by rw [take?, hresult]; rfl, ?_, hprovides.le,
    List.prefix_append _ _⟩
  refine ⟨hcanonical, by simp [h.length], fun e he => ?_, fun hsize {i e y} he hy v => ?_⟩
  · rcases List.mem_append.mp he with he | he
    · exact Nat.lt_of_lt_of_le (h.lt e he) (size_le_of_le hprovides.le)
    · rw [List.mem_singleton.mp he]
      exact hprovides.lt
  · by_cases hi : i < d.edges.length
    · rw [List.getElem?_append_left hi] at he
      rw [List.getElem?_append_left (h.length ▸ hi)] at hy
      rw [evaluate_of_le hprovides.le (h.lt e (List.mem_of_getElem? he))]
      exact h.evaluate (hsize.of_le hprovides.le) he hy v
    · -- the edge and the expression of the step just taken
      rw [List.getElem?_append_right (by omega), List.getElem?_singleton] at he
      rw [List.getElem?_append_right (by rw [← h.length]; omega), ← h.length,
        List.getElem?_singleton] at hy
      split at he
      · rename_i h0
        rw [if_pos h0] at hy
        obtain rfl := Option.some.inj he
        obtain rfl := Option.some.inj hy
        exact hprovides.evaluate hsize v
      · exact absurd he (by simp)

/-- **So does a run.** -/
theorem run (h : d.Spells expressions) {steps : List Step} {spelled : List Expression}
    (hs : spellAfter? expressions steps = some spelled) :
    ∃ d', d.run? steps = some d' ∧ d'.Spells spelled ∧ d.circuit ≤ d'.circuit ∧
      d.edges <+: d'.edges := by
  induction steps generalizing d expressions with
  | nil =>
    obtain rfl := Option.some.inj hs
    exact ⟨d, rfl, h, le_refl _, List.prefix_refl _⟩
  | cons step steps ih =>
    obtain ⟨_, hmap, hs⟩ := Option.bind_eq_some_iff.mp hs
    obtain ⟨x, hx, rfl⟩ := Option.map_eq_some_iff.mp hmap
    obtain ⟨d₁, hd₁, h₁, hle₁, hedges₁⟩ := h.step hx
    obtain ⟨d₂, hd₂, h₂, hle₂, hedges₂⟩ := ih h₁ hs
    refine ⟨d₂, ?_, h₂, le_trans hle₁ hle₂, hedges₁.trans hedges₂⟩
    rw [run?, List.foldlM_cons, hd₁]
    exact hd₂

end Spells

/-- **The edges of a construction have the values that its steps spell out.**  Steps of which
each names earlier ones only are taken without fail.  The edge of a step, among those taken
before, can be read without leaving the circuit whatever steps are taken after, and stands there
for the expression of the step unless the nodes have become too many. -/
theorem run_spells {before after : List Step} {expressions : List Expression}
    (h : spell? (before ++ after) = some expressions) :
    ∃ d d' : Draft, run? {} before = some d ∧ d.run? after = some d' ∧
      d.edges.length = before.length ∧
      ∀ (i : Nat) (e : Edge), d.edges[i]? = some e →
        ∃ x, expressions[i]? = some x ∧
          (d'.circuit.Addressable → ∀ v, d'.circuit.evaluate e v = x.value v) ∧
          d'.circuit.Readable e := by
  obtain ⟨between, hbefore, hafter⟩ := spellAfter?_append h
  obtain ⟨d, hd, hspells, -, -⟩ := Spells.initial.run hbefore
  obtain ⟨d', hd', hspells', -, hedges⟩ := hspells.run hafter
  refine ⟨d, d', hd, hd', by rw [length_edges_run? hd]; exact Nat.zero_add _, fun i e he => ?_⟩
  have he' : d'.edges[i]? = some e := by
    obtain ⟨rest, hrest⟩ := hedges
    rw [← hrest, List.getElem?_append_left (List.getElem?_eq_some_iff.mp he).1]
    exact he
  have hi : i < expressions.length := by
    rw [← hspells'.length]
    exact (List.getElem?_eq_some_iff.mp he').1
  have hx : expressions[i]? = some expressions[i] := List.getElem?_eq_getElem hi
  exact ⟨_, hx, fun hsize => hspells'.evaluate hsize he' hx,
    hspells'.canonical.readable (hspells'.lt e (List.mem_of_getElem? he'))⟩

/-- Steps that share a conjunction, fold three away and use a disjunction. -/
def foldingSteps : List Step :=
  [.input 1, .literal (-2), .and 0 1, .and 1 0, .not 2, .and 2 4, .or 5 3]

/-- What `foldingSteps` spell out, and `1 ∨ false` after them. -/
def foldingExpressions : List Expression :=
  let conjunction := .and (.atom 1) (.literal (-2))
  let swapped := .and (.literal (-2)) (.atom 1)
  let contradiction := .and conjunction (.not conjunction)
  [.atom 1, .literal (-2), conjunction, swapped, .not conjunction, contradiction,
    .or contradiction swapped, .constant false, .or (.atom 1) (.constant false)]

/-- Four edges of `foldingSteps` lead to one node, and each has the value of its own
expression. -/
theorem run_spells_foldingSteps :
    spell? (foldingSteps ++ [.constant false, .or 0 7]) = some foldingExpressions ∧
      (run? {} foldingSteps).map edges =
        some [.ofNode 1 false, .ofNode 2 true, .ofNode 3 false, .ofNode 3 false, .ofNode 3 true,
          .bottom, .ofNode 3 false] ∧
      ∃ d d' : Draft, run? {} foldingSteps = some d ∧
        d.run? [.constant false, .or 0 7] = some d' ∧ d.edges.length = foldingSteps.length ∧
        ∀ (i : Nat) (e : Edge), d.edges[i]? = some e →
          ∃ x, foldingExpressions[i]? = some x ∧ (∀ v, d'.circuit.evaluate e v = x.value v) ∧
            d'.circuit.Readable e := by
  refine ⟨rfl, by decide, ?_⟩
  obtain ⟨d, d', hd, hd', hlength, hedges⟩ :=
    @run_spells foldingSteps [.constant false, .or 0 7] _ rfl
  have hsize : ∀ d ∈ run? {} foldingSteps, ∀ d' ∈ d.run? [.constant false, .or 0 7],
      d'.circuit.Addressable := by decide
  refine ⟨d, d', hd, hd', hlength, fun i e he => ?_⟩
  obtain ⟨x, hx, hvalue, hreadable⟩ := hedges i e he
  exact ⟨x, hx, hvalue (hsize d hd d' hd'), hreadable⟩

end Draft
end Circuit
end Interpolation
