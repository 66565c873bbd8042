import UnaryLisp.Text.Blank

/-!
# Decimal numerals

Natural numbers and integers in base ten: writing without leading zeros, and the value of a run of
digits, in which leading zeros count for nothing.

## Main definitions

* `Decimal.isDigit`: the ten ASCII digits.
* `Decimal.value`: the number that a run of digits denotes.
* `Decimal.toInt?`: the integer that a run of digits denotes, possibly after a minus sign.
* `Decimal.ofNat`, `Decimal.ofInt`: the numeral of a number.

## Main statements

* `Decimal.value_ofNat`: the numeral of a number denotes that number.
-/

namespace UnaryLisp

namespace Decimal

/-- An ASCII digit. -/
def isDigit (c : Char) : Bool :=
  '0' ≤ c && c ≤ '9'

/-- The value of one digit. -/
def digitValue (c : Char) : Nat :=
  c.toNat - '0'.toNat

/-- The digit with the given value, which is below ten. -/
def digitChar (d : Nat) : Char :=
  Char.ofNat ('0'.toNat + d)

/-- The number that a run of digits denotes, the most significant digit first. -/
def value (t : Text) : Nat :=
  t.foldl (fun n c => 10 * n + digitValue c) 0

/-- A run of digits is not empty. -/
def isRun (t : Text) : Bool :=
  !t.isEmpty && t.all isDigit

/-- The integer that a run of digits denotes, with or without a minus sign before it; other texts
denote none. -/
def toInt? : Text → Option Int
  | '-' :: t => if isRun t then some (-(value t : Int)) else none
  | t => if isRun t then some (value t) else none

/-- The numeral of a natural number, without leading zeros. -/
def ofNat (n : Nat) : Text :=
  if n < 10 then [digitChar n] else ofNat (n / 10) ++ [digitChar (n % 10)]

/-- The numeral of an integer, with a minus sign when it is negative. -/
def ofInt (i : Int) : Text :=
  if i < 0 then '-' :: ofNat i.natAbs else ofNat i.natAbs

theorem digitValue_digitChar {d : Nat} (h : d < 10) : digitValue (digitChar d) = d := by
  have hall : ∀ e : Fin 10, digitValue (digitChar e) = e := by decide
  exact hall ⟨d, h⟩

theorem isDigit_digitChar {d : Nat} (h : d < 10) : isDigit (digitChar d) := by
  have hall : ∀ e : Fin 10, isDigit (digitChar e) := by decide
  exact hall ⟨d, h⟩

@[simp] theorem value_nil : value [] = 0 := rfl

@[simp] theorem value_concat (t : Text) (c : Char) :
    value (t ++ [c]) = 10 * value t + digitValue c := by
  simp [value]

/-- The numeral of a number denotes that number. -/
theorem value_ofNat (n : Nat) : value (ofNat n) = n := by
  fun_induction ofNat n with
  | case1 n h => simp [value, digitValue_digitChar h]
  | case2 n h ih =>
    rw [value_concat, ih, digitValue_digitChar (Nat.mod_lt n (by decide))]
    omega

/-- A numeral consists of digits. -/
theorem isDigit_of_mem_ofNat {n : Nat} {c : Char} (h : c ∈ ofNat n) : isDigit c := by
  fun_induction ofNat n with
  | case1 n hn =>
    obtain rfl := List.mem_singleton.mp h
    exact isDigit_digitChar hn
  | case2 n hn ih =>
    rcases List.mem_append.mp h with h | h
    · exact ih h
    · obtain rfl := List.mem_singleton.mp h
      exact isDigit_digitChar (Nat.mod_lt n (by decide))

/-- A numeral has at least one digit. -/
theorem ofNat_ne_nil (n : Nat) : ofNat n ≠ [] := by
  rw [ofNat]
  split <;> simp

end Decimal

end UnaryLisp
