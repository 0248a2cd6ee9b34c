import Mathlib
import Interpolation.Proofs.InterpolantVocabulary

/-!
# Clauses read back from their text

A clause is written as its literals in decimal between single spaces, with a zero that ends it,
and a formula as its clauses one a line.  Here is the reader for such texts: it takes a text
apart at line breaks and a line at spaces, reads each word as an integer, and accepts a line
that has one zero, in the last place.

Whatever is written of clauses without zeros is read back as it was.  The word of a literal has
digits and perhaps a sign, and so neither a space nor a line break; and since every line has its
zero, no line is empty, so that a formula without clauses is not taken for one with an empty
clause, nor the other way around.  An interpolant has no zeros among its literals, because the
variables of its circuit were recorded as those of proper literals and its fresh variables are
counted from above these.

That an integer is read back from its decimal text is a lemma of the standard library,
`Int.toInt?_repr`.  Of Mathlib only the whole reaches the theory of strings that it belongs to,
and that is why nothing less is imported here.

* `Dimacs.integers?_dimacs`, `Dimacs.clause?_dimacs_iff` --- a clause is read back from its line;
* `Dimacs.formula?_lines` --- a formula is read back from its lines;
* `Interpolant.Legible` --- what it is for an interpolant to be read back;
* `dimacs_faithful` --- clauses and interpolants are read back from their texts.
-/

namespace Interpolation

namespace Dimacs

/-! ## Reading -/

/-- The lines of a text.  A line break ends a line, and the last line may lack one. -/
def lines (text : String) : List String :=
  let pieces := text.toList.splitOn '\n'
  (if pieces.getLast? = some [] then pieces.dropLast else pieces).map String.ofList

/-- The words of a line, which stand between single spaces. -/
def words (line : String) : List String := (line.toList.splitOn ' ').map String.ofList

/-- The integers on a line, if all of its words are integers in decimal. -/
def integers? (line : String) : Option (List Int) := (words line).mapM String.toInt?

/-- The clause that integers spell, if the last of them is zero and no other. -/
def terminated? : List Int → Option Clause
  | [] => none
  | n :: rest =>
    if n = 0 then if rest = [] then some [] else none
    else (terminated? rest).map (⟨n⟩ :: ·)

/-- The clause on a line. -/
def clause? (line : String) : Option Clause := (integers? line).bind terminated?

/-- The clauses of a text, one a line. -/
def formula? (text : String) : Option (List Clause) := (lines text).mapM clause?

/-! ## Joining and taking apart -/

theorem map_ofList_map_toList (ls : List String) :
    (ls.map String.toList).map String.ofList = ls := by
  rw [List.map_map]
  exact List.map_id'' (fun _ => String.ofList_toList) ls

/-- What is joined by single spaces is taken apart into the same words. -/
theorem words_intercalate {ls : List String} (hne : ls ≠ []) (hspace : ∀ w ∈ ls, ' ' ∉ w.toList) :
    words (" ".intercalate ls) = ls := by
  have hpieces : (" ".intercalate ls).toList.splitOn ' ' = ls.map String.toList := by
    rw [String.toList_intercalate]
    refine List.splitOn_intercalate ' ' (fun w hw => ?_) (by simpa using hne)
    obtain ⟨s, hs, rfl⟩ := List.mem_map.mp hw
    exact hspace s hs
  rw [words, hpieces, map_ofList_map_toList]

/-- What is joined by line breaks is taken apart into the same lines, if none of them is
empty. -/
theorem lines_intercalate {ls : List String} (hempty : ∀ l ∈ ls, l ≠ "")
    (hbreak : ∀ l ∈ ls, '\n' ∉ l.toList) : lines ("\n".intercalate ls) = ls := by
  by_cases hne : ls = []
  · rw [hne]
    rfl
  have hpieces : ("\n".intercalate ls).toList.splitOn '\n' = ls.map String.toList := by
    rw [String.toList_intercalate]
    refine List.splitOn_intercalate '\n' (fun l hl => ?_) (by simpa using hne)
    obtain ⟨s, hs, rfl⟩ := List.mem_map.mp hl
    exact hbreak s hs
  have hlast : (ls.map String.toList).getLast? ≠ some [] := by
    intro hlast
    obtain ⟨s, hs, hnil⟩ := List.mem_map.mp (List.mem_of_getLast? hlast)
    exact hempty s hs (String.toList_eq_nil_iff.mp hnil)
  rw [lines, hpieces, if_neg hlast, map_ofList_map_toList]

/-! ## The text of a clause -/

/-- The word of a literal has digits and perhaps a sign. -/
theorem mem_text {l : Literal} {c : Char} (h : c ∈ l.text.toList) :
    c = '-' ∨ c.isDigit = true := by
  have hdigits : ∀ {n : Nat}, c ∈ n.repr.toList → c.isDigit = true := by
    intro n hc
    rw [Nat.toList_repr] at hc
    exact Nat.isDigit_of_mem_toDigits (by decide) (by decide) hc
  rw [Literal.text, Int.toString_eq_repr, Int.repr_eq_if] at h
  split at h
  · exact Or.inr (hdigits h)
  · rw [String.toList_append] at h
    rcases List.mem_append.mp h with hsign | hc
    · exact Or.inl (List.mem_singleton.mp hsign)
    · exact Or.inr (hdigits hc)

/-- So has the word of the zero that ends a clause. -/
theorem mem_word {clause : Clause} {w : String} (hw : w ∈ clause.map Literal.text ++ ["0"])
    {c : Char} (hc : c ∈ w.toList) : c = '-' ∨ c.isDigit = true := by
  rcases List.mem_append.mp hw with hw | hw
  · obtain ⟨l, -, rfl⟩ := List.mem_map.mp hw
    exact mem_text hc
  · obtain rfl := List.mem_singleton.mp hw
    exact Or.inr (by rw [List.mem_singleton.mp hc]; rfl)

/-- A line is taken apart into the words of the literals and the zero. -/
theorem words_dimacs (clause : Clause) :
    words (clause.dimacs true) = clause.map Literal.text ++ ["0"] := by
  refine words_intercalate (by simp) fun w hw hspace => ?_
  rcases mem_word hw hspace with h | h
  · exact absurd h (by decide)
  · exact absurd h (by decide)

/-- **A line is read as the literals of its clause and then a zero.** -/
theorem integers?_dimacs (clause : Clause) :
    integers? (clause.dimacs true) = some (clause.map Literal.toInt ++ [0]) := by
  rw [integers?, words_dimacs, mapM_eq_some_iff, List.map_append, List.map_append, List.map_map,
    List.map_map]
  have hread : String.toInt? ∘ Literal.text = some ∘ Literal.toInt := by
    funext l
    exact Int.toInt?_repr l.toInt
  rw [hread]
  exact congrArg (_ ++ [·]) (Int.toInt?_repr 0)

/-- Integers spell the clause that they are the literals of, unless it has zeros. -/
theorem terminated?_eq_some_iff {integers : List Int} {clause : Clause} :
    terminated? integers = some clause ↔
      integers = clause.map Literal.toInt ++ [0] ∧ ∀ l ∈ clause, l.toInt ≠ 0 := by
  induction integers generalizing clause with
  | nil => simp [terminated?]
  | cons n rest ih =>
    unfold terminated?
    cases clause with
    | nil =>
      split
      · rename_i hn
        simp [hn]
      · rename_i hn
        simp [hn]
    | cons l clause =>
      split
      · rename_i hn
        refine iff_of_false (by split <;> simp) fun ⟨hsplit, hl⟩ => ?_
        have : n = l.toInt := (List.cons.inj hsplit).1
        exact hl l List.mem_cons_self (this.symm.trans hn)
      · rename_i hn
        rw [Option.map_eq_some_iff, List.map_cons, List.cons_append, List.cons.injEq,
          List.forall_mem_cons]
        constructor
        · rintro ⟨tail, htail, hcons⟩
          obtain ⟨rfl, rfl⟩ := List.cons.inj hcons
          obtain ⟨hrest, hnonzero⟩ := ih.mp htail
          exact ⟨⟨rfl, hrest⟩, hn, hnonzero⟩
        · rintro ⟨⟨rfl, hrest⟩, -, hnonzero⟩
          exact ⟨clause, ih.mpr ⟨hrest, hnonzero⟩, rfl⟩

/-- **A clause is read back from its line, unless it has zeros.** -/
theorem clause?_dimacs_iff {clause : Clause} :
    clause? (clause.dimacs true) = some clause ↔ ∀ l ∈ clause, l.toInt ≠ 0 := by
  rw [clause?, integers?_dimacs, Option.bind_some, terminated?_eq_some_iff]
  exact and_iff_right rfl

/-! ## The text of a formula -/

/-- Every line has its zero. -/
theorem dimacs_ne_empty (clause : Clause) : clause.dimacs true ≠ "" := by
  intro hempty
  have hwords : clause.map Literal.text ++ ["0"] = [""] := by
    rw [← words_dimacs, hempty]
    rfl
  have hzero : "0" ∈ [""] := hwords ▸ List.mem_append_right _ List.mem_cons_self
  exact absurd hzero (by decide)

theorem mem_intercalate {sep c : Char} {ls : List (List Char)} (h : c ∈ [sep].intercalate ls) :
    c = sep ∨ ∃ l ∈ ls, c ∈ l := by
  induction ls with
  | nil => exact absurd h List.not_mem_nil
  | cons l ls ih =>
    cases ls with
    | nil => exact Or.inr ⟨l, List.mem_cons_self, by simpa using h⟩
    | cons m ls =>
      rw [List.intercalate_cons_cons, List.append_assoc, List.mem_append, List.mem_append] at h
      rcases h with hl | hsep | h
      · exact Or.inr ⟨l, List.mem_cons_self, hl⟩
      · exact Or.inl (List.mem_singleton.mp hsep)
      · exact (ih h).imp_right fun ⟨k, hk, hc⟩ => ⟨k, List.mem_cons_of_mem l hk, hc⟩

/-- No line has a line break in it. -/
theorem newline_notMem_dimacs (clause : Clause) : '\n' ∉ (clause.dimacs true).toList := by
  intro h
  rw [Clause.dimacs, String.toList_intercalate] at h
  rcases mem_intercalate h with h | ⟨w, hw, h⟩
  · exact absurd h (by decide)
  · obtain ⟨s, hs, rfl⟩ := List.mem_map.mp hw
    rcases mem_word hs h with h | h
    · exact absurd h (by decide)
    · exact absurd h (by decide)

/-- A formula is taken apart into the lines of its clauses. -/
theorem lines_formula (clauses : List Clause) :
    lines ("\n".intercalate (clauses.map fun c => c.dimacs true)) =
      clauses.map fun c => c.dimacs true := by
  refine lines_intercalate (fun l hl => ?_) (fun l hl => ?_)
  · obtain ⟨clause, -, rfl⟩ := List.mem_map.mp hl
    exact dimacs_ne_empty clause
  · obtain ⟨clause, -, rfl⟩ := List.mem_map.mp hl
    exact newline_notMem_dimacs clause

/-- **A formula without zeros is read back from its lines.** -/
theorem formula?_lines {clauses : List Clause} (h : ∀ clause ∈ clauses, ∀ l ∈ clause, l.toInt ≠ 0) :
    formula? ("\n".intercalate (clauses.map fun c => c.dimacs true)) = some clauses := by
  rw [formula?, lines_formula, mapM_eq_some_iff, List.map_map]
  exact List.map_congr_left fun clause hclause => clause?_dimacs_iff.mpr (h clause hclause)

end Dimacs

/-! ## The text of an interpolant -/

/-- Whether an interpolant is read back from its text. -/
structure Interpolant.Legible (i : Interpolant) : Prop where
  /-- There is one line for each clause. -/
  lines : Dimacs.lines i.dimacs = i.clauses.map fun c => c.dimacs true
  /-- The text is read as the clauses, in order. -/
  formula : Dimacs.formula? i.dimacs = some i.clauses
  /-- Only the formula without clauses has the empty text. -/
  truth : i.dimacs = "" ↔ i.clauses = []
  /-- Only the formula of one empty clause has the text of a zero. -/
  falsity : i.dimacs = "0" ↔ i.clauses = [[]]

theorem Interpolant.legible_of_nonzero {i : Interpolant}
    (h : ∀ clause ∈ i.clauses, ∀ l ∈ clause, l.toInt ≠ 0) : i.Legible := by
  have hread : Dimacs.formula? i.dimacs = some i.clauses := Dimacs.formula?_lines h
  refine ⟨Dimacs.lines_formula i.clauses, hread, ⟨fun htext => ?_, fun hclauses => ?_⟩,
    ⟨fun htext => ?_, fun hclauses => ?_⟩⟩
  · rw [htext] at hread
    exact (Option.some.inj hread).symm
  · rw [Interpolant.dimacs, hclauses]
    rfl
  · have hzero : Dimacs.formula? "0" = some [[]] := @Dimacs.formula?_lines [[]] (by simp)
    exact Option.some.inj (hread.symm.trans (htext ▸ hzero))
  · rw [Interpolant.dimacs, hclauses]
    rfl

/-- The literals of an interpolant are proper. -/
theorem Interpolated.proper {p : Proof} (hp : p.WellFormed) {labels : Labelling} {config : Config}
    {next : Nat} {i : Interpolant} {witness : Nat} {edge : Edge} {replay : Replay}
    (h : Interpolated p labels config next i witness edge replay) :
    ∀ clause ∈ i.clauses, ∀ l ∈ clause, l.Proper := by
  have hover : i.circuit.Over (· ≠ 0) := fun hnode => (h.circuit_over hnode).ne_zero hp
  obtain ⟨⟨x, y, asserted, hlayered⟩, -⟩ :=
    Encoding.layered_of_encode h.canonical hover h.lt h.encode
  exact fun clause hclause l hl => (hlayered.literal clause hclause l hl).1

/-- What is read from the text of an interpolant is the interpolant's clauses. -/
theorem legible_of_interpolate {p : Proof} (hp : p.Reachable) {labels : Labelling}
    {config : Config} {next : Nat} {i : Interpolant}
    (h : interpolate p labels config next = .ok i) : i.Legible := by
  obtain ⟨witness, edge, replay, hi⟩ := interpolated hp.wellFormed h
  have hproper := hi.proper hp.wellFormed
  exact Interpolant.legible_of_nonzero fun clause hclause l hl => (hproper clause hclause l hl).1

/-- **Texts are faithful.**  The line of a clause without zeros is read as its literals, in order,
and then one zero; the text of an interpolant is read, line by line, as its clauses, in order; and
interpolants with the same text have the same clauses. -/
theorem dimacs_faithful :
    (∀ clause : Clause, (∀ l ∈ clause, l.toInt ≠ 0) →
      Dimacs.integers? (clause.dimacs true) = some (clause.map Literal.toInt ++ [0]) ∧
      Dimacs.clause? (clause.dimacs true) = some clause) ∧
    (∀ (p : Proof) (labels : Labelling) (config : Config) (next : Nat) (i : Interpolant),
      p.Reachable → interpolate p labels config next = .ok i → i.Legible) ∧
    (∀ (p q : Proof) (labels labels' : Labelling) (config config' : Config) (next next' : Nat)
      (i j : Interpolant), p.Reachable → interpolate p labels config next = .ok i →
      q.Reachable → interpolate q labels' config' next' = .ok j →
      i.dimacs = j.dimacs → i.clauses = j.clauses) := by
  refine ⟨fun clause hclause =>
      ⟨Dimacs.integers?_dimacs clause, Dimacs.clause?_dimacs_iff.mpr hclause⟩,
    fun p labels config next i hp hi => legible_of_interpolate hp hi, ?_⟩
  intro p q labels labels' config config' next next' i j hp hi hq hj htext
  have hread := (legible_of_interpolate hp hi).formula
  rw [htext, (legible_of_interpolate hq hj).formula] at hread
  exact (Option.some.inj hread).symm

/-- A refutation by an empty premise. -/
def emptyPremise : Proof := Proof.run {} [.premise 1 false [] false, .conclude .conflict [1]]

theorem reachable_emptyPremise : emptyPremise.Reachable := Proof.Reachable.start.run _

/-- The false interpolant, as it is when fresh variables would start at `fresh`. -/
def falseInterpolant (fresh : Nat) : Interpolant :=
  { clauses := [[]], first := fresh, next := fresh, circuit := ⟨#[.bottom]⟩,
    output := .ofNode 0 false }

theorem interpolate_emptyPremise (fresh : Nat) :
    interpolate emptyPremise (({} : Labelling).setPartAt 0 .a) {} fresh =
      .ok (falseInterpolant fresh) := rfl

/-- A clause with a negative literal is read back; so is an interpolant of several clauses; and the
interpolants of an empty premise have the same clauses, wherever fresh variables would start. -/
theorem dimacs_faithful_split :
    Dimacs.clause? (Clause.dimacs [23, -41, 3] true) = some [23, -41, 3] ∧
    (splitInterpolant 20).Legible ∧
    (falseInterpolant 20).dimacs = (falseInterpolant 30).dimacs ∧
    (falseInterpolant 20).clauses = (falseInterpolant 30).clauses :=
  ⟨(dimacs_faithful.1 _ (by decide)).2,
    dimacs_faithful.2.1 _ _ _ _ _ reachable_splitRefutation interpolate_splitRefutation, rfl,
    dimacs_faithful.2.2 _ _ _ _ _ _ _ _ _ _ reachable_emptyPremise (interpolate_emptyPremise 20)
      reachable_emptyPremise (interpolate_emptyPremise 30) rfl⟩

end Interpolation
