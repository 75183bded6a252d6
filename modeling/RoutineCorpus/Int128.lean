/-! # Signed 128-bit integers

Results of the integer routines are 128 bits wide. Addition wraps, as it does
for the fixed-width types of the core library; `add?` and `mul?` answer `none`
where the exact result does not fit.
-/

namespace RoutineCorpus

structure Int128 where
  ofBitVec ::
  toBitVec : BitVec 128
  deriving DecidableEq

namespace Int128

def toInt (x : Int128) : Int := x.toBitVec.toInt

/-- The integer modulo `2 ^ 128`, taken between `-2 ^ 127` and `2 ^ 127 - 1`. -/
def ofInt (z : Int) : Int128 := ⟨BitVec.ofInt 128 z⟩

/-- The number of values, `2 ^ 128`. -/
def size : Nat := 0x100000000000000000000000000000000

/-- The integers that 128 bits can hold. -/
def InRange (z : Int) : Prop := -(size : Int) ≤ 2 * z ∧ 2 * z < size

instance (z : Int) : Decidable (InRange z) :=
  inferInstanceAs (Decidable (_ ∧ _))

def ofInt? (z : Int) : Option Int128 :=
  if InRange z then some (ofInt z) else none

/-- Every 64-bit integer fits. -/
def ofInt64 (n : Int64) : Int128 := ofInt n.toInt

instance (n : Nat) : OfNat Int128 n := ⟨ofInt n⟩

instance : Inhabited Int128 := ⟨0⟩

instance : Add Int128 := ⟨fun x y => ⟨x.toBitVec + y.toBitVec⟩⟩

def add? (x y : Int128) : Option Int128 := ofInt? (x.toInt + y.toInt)

def mul? (x y : Int128) : Option Int128 := ofInt? (x.toInt * y.toInt)

def lt (x y : Int128) : Bool := x.toInt < y.toInt

theorem toInt_injective {x y : Int128} (h : x.toInt = y.toInt) : x = y := by
  cases x; cases y
  exact congrArg ofBitVec (BitVec.toInt_inj.mp h)

theorem inRange_toInt (x : Int128) : InRange x.toInt := by
  have h₁ := BitVec.le_toInt x.toBitVec
  have h₂ := BitVec.toInt_lt (x := x.toBitVec)
  simp only [InRange, size, toInt]
  omega

theorem toInt_ofInt {z : Int} (h : InRange z) : (ofInt z).toInt = z := by
  simp only [InRange, size] at h
  simp only [toInt, ofInt, BitVec.toInt_ofInt]
  exact Int.bmod_eq_of_le (by omega) (by omega)

theorem toInt_add (x y : Int128) : (x + y).toInt = (x.toInt + y.toInt).bmod size :=
  BitVec.toInt_add x.toBitVec y.toBitVec

theorem toInt_add_of_inRange {x y : Int128} (h : InRange (x.toInt + y.toInt)) :
    (x + y).toInt = x.toInt + y.toInt := by
  simp only [InRange, size] at h
  rw [toInt_add]
  exact Int.bmod_eq_of_le (by simp only [size]; omega) (by simp only [size]; omega)

theorem toInt_ofInt64 (n : Int64) : (ofInt64 n).toInt = n.toInt := by
  have h₁ := Int64.le_toInt n
  have h₂ := Int64.toInt_lt n
  exact toInt_ofInt (by simp only [InRange, size]; omega)

theorem ofInt?_eq_some_iff {z : Int} {x : Int128} : ofInt? z = some x ↔ x.toInt = z := by
  unfold ofInt?
  split
  · rename_i h
    constructor
    · rintro ⟨⟩
      exact toInt_ofInt h
    · rintro rfl
      exact congrArg some (toInt_injective (toInt_ofInt h))
  · rename_i h
    simp only [reduceCtorEq, false_iff]
    rintro rfl
    exact h (inRange_toInt x)

end Int128

end RoutineCorpus
