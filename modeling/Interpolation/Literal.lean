/-!
# Atoms and literals

An atom is a positive natural number, and a literal is a nonzero integer: its magnitude names
the atom and its sign says whether the literal asserts the atom or denies it.  Zero is no
literal.  It can still be written down as one, because zero is what ends a clause in a file
and so is what a careless caller hands in; everything that records a clause has to be able to
see it and refuse it.

Solvers pack a literal into a signed word of 32 bits, and that is where the largest atom comes
from: `atomMax` is the largest magnitude that has both signs.  Arithmetic here is exact, and
only `Literal.ofAtom`, which makes a literal from an unsigned word, speaks of words at all.

* `Literal.Proper` --- nonzero, with an atom of at most `atomMax`: what a clause may hold;
* `Literal.negate_negate`, `Literal.atom_negate` --- negation undoes itself and keeps the atom;
* `Literal.toInt_ofAtom` --- for an atom of at most `atomMax` the word loses nothing.
-/

namespace Interpolation

/-- The largest atom whose two literals both fit a signed word of 32 bits. -/
def atomMax : Nat := 2147483647

/-- A literal, by the integer that writes it. -/
structure Literal where
  /-- The integer: its magnitude is the atom, its sign the polarity. -/
  toInt : Int
  deriving DecidableEq, Repr, Inhabited

namespace Literal

instance (n : Nat) : OfNat Literal n := ⟨⟨n⟩⟩

/-- The literal that denies what this one asserts. -/
def negate (l : Literal) : Literal := ⟨-l.toInt⟩

instance : Neg Literal := ⟨negate⟩

/-- The atom a literal speaks of. -/
def atom (l : Literal) : Nat := l.toInt.natAbs

/-- Whether a literal asserts its atom.  Zero asserts nothing. -/
def polarity (l : Literal) : Bool := decide (0 < l.toInt)

/-- The literal of an unsigned word and a polarity.  The word is read as a signed one, so a
word past `atomMax` comes out negative before the polarity is applied. -/
def ofAtom (atom : Nat) (polarity : Bool) : Literal :=
  let word := Int.bmod atom 4294967296
  ⟨if polarity then word else -word⟩

/-- A literal that a clause may hold. -/
def Proper (l : Literal) : Prop := l.toInt ≠ 0 ∧ l.atom ≤ atomMax

instance (l : Literal) : Decidable l.Proper := inferInstanceAs (Decidable (_ ∧ _))

/-- Whether a literal is true when the atoms have the values `v`. -/
def holds (v : Nat → Bool) (l : Literal) : Bool := v l.atom == l.polarity

/-- The decimal text of a literal, with a sign only before a negative one. -/
def text (l : Literal) : String := toString l.toInt

/-! ## Negation -/

@[simp] theorem negate_negate (l : Literal) : l.negate.negate = l := by
  cases l; simp [negate]

@[simp] theorem atom_negate (l : Literal) : l.negate.atom = l.atom := by
  simp [negate, atom]

theorem negate_inj {l m : Literal} : l.negate = m.negate ↔ l = m :=
  ⟨fun h => by rw [← negate_negate l, h, negate_negate], fun h => h ▸ rfl⟩

/-- Away from zero, a literal differs from its negation. -/
theorem negate_ne_self {l : Literal} (h : l.toInt ≠ 0) : l.negate ≠ l := by
  intro hself
  have hint : -l.toInt = l.toInt := congrArg toInt hself
  omega

theorem atom_ne_zero {l : Literal} (h : l.toInt ≠ 0) : l.atom ≠ 0 := by
  rw [atom]
  omega

theorem toInt_negate_ne_zero {l : Literal} (h : l.toInt ≠ 0) : l.negate.toInt ≠ 0 := by
  simp only [negate]
  omega

theorem Proper.negate {l : Literal} (h : l.Proper) : l.negate.Proper :=
  ⟨toInt_negate_ne_zero h.1, by simpa using h.2⟩

/-- Away from zero, negation flips the polarity. -/
theorem polarity_negate {l : Literal} (h : l.toInt ≠ 0) :
    l.negate.polarity = !l.polarity := by
  simp only [negate, polarity]
  by_cases hp : 0 < l.toInt
  · simp only [hp, show ¬ 0 < -l.toInt by omega, decide_true, decide_false, Bool.not_true]
  · simp only [hp, show 0 < -l.toInt by omega, decide_true, decide_false, Bool.not_false]

/-- A literal and its negation are never true together, and away from zero one of them is. -/
theorem holds_negate {l : Literal} (h : l.toInt ≠ 0) (v : Nat → Bool) :
    l.negate.holds v = !l.holds v := by
  simp only [holds, atom_negate, polarity_negate h]
  cases v l.atom <;> cases l.polarity <;> rfl

/-! ## Making a literal from a word -/

/-- The word of an atom of at most `atomMax` is the atom itself. -/
theorem toInt_ofAtom {a : Nat} (h : a ≤ atomMax) (p : Bool) :
    (ofAtom a p).toInt = if p then (a : Int) else -(a : Int) := by
  have hw : Int.bmod (a : Int) 4294967296 = a := by
    simp only [atomMax] at h
    rw [Int.bmod_def]
    omega
  unfold ofAtom
  rw [hw]

theorem atom_ofAtom {a : Nat} (h : a ≤ atomMax) (p : Bool) : (ofAtom a p).atom = a := by
  cases p <;> simp [atom, toInt_ofAtom h]

end Literal

end Interpolation
