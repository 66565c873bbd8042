import UnaryLisp.Text.Decimal

/-!
# Numbers

The numbers of the language are the integers of 64 bits in two's complement. An operation whose
exact result is no such integer has no result.

## Main definitions

* `Number.ofInt?`: the number with a given integer value, if there is one.
* `Number.add?`, `Number.sub?`, `Number.mul?`, `Number.div?`: exact arithmetic.
* `Number.text`: the numeral of a number.

## Main statements

* `Number.ofInt?_eq_some_iff`: a number made from an integer is the one number with that value.
-/

namespace UnaryLisp

/-- A number is an integer of 64 bits. -/
abbrev Number := Int64

namespace Number

/-- The number with the integer value `i`, if 64 bits hold it. -/
def ofInt? (i : Int) : Option Number :=
  if Int64.minValue.toInt ≤ i ∧ i ≤ Int64.maxValue.toInt then some (Int64.ofInt i) else none

/-- The sum, if 64 bits hold it. -/
def add? (a b : Number) : Option Number :=
  ofInt? (a.toInt + b.toInt)

/-- The difference, if 64 bits hold it. -/
def sub? (a b : Number) : Option Number :=
  ofInt? (a.toInt - b.toInt)

/-- The product, if 64 bits hold it. -/
def mul? (a b : Number) : Option Number :=
  ofInt? (a.toInt * b.toInt)

/-- The quotient rounded toward zero, if 64 bits hold it. The divisor is not zero. -/
def div? (a b : Number) : Option Number :=
  ofInt? (a.toInt.tdiv b.toInt)

/-- The numeral of a number. -/
def text (n : Number) : Text :=
  Decimal.ofInt n.toInt

/-- The integer value of a number gives that number back. -/
theorem ofInt?_toInt (n : Number) : ofInt? n.toInt = some n := by
  rw [ofInt?, if_pos ⟨n.minValue_le_toInt, n.toInt_le⟩, Int64.ofInt_toInt]

/-- A number made from an integer is the one number with that value. -/
theorem ofInt?_eq_some_iff {i : Int} {n : Number} : ofInt? i = some n ↔ n.toInt = i := by
  refine ⟨fun h => ?_, fun h => h ▸ ofInt?_toInt n⟩
  simp only [ofInt?] at h
  split at h
  · next hi =>
    obtain rfl := Option.some.inj h
    rw [Int64.toInt_minValue, Int64.toInt_maxValue] at hi
    exact Int64.toInt_ofInt_of_le (by omega) (by omega)
  · contradiction

end Number

end UnaryLisp
