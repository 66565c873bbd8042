import Mathlib.Data.List.Induction
import UnaryLisp.Text.Decimal

/-!
# Decimal numerals with leading zeros

An integer is written as the decimal digits of its absolute value, any number of zeros before them,
and a minus sign before the zeros when the integer is negative. The minus sign may also stand before
zero. Reading accepts exactly these texts.

## Main definitions

* `Decimal.Numeral`: the texts that write an integer.

## Main results

* `Decimal.ofNat_eq_toDigits`: a numeral without leading zeros is the list of decimal digits.
* `Decimal.numeral_ofInt`: what an integer is printed as writes that integer.
* `Decimal.toInt?_eq_some_iff`: a text is read as an integer exactly when it writes that integer.
-/

namespace UnaryLisp

namespace Decimal

/-- The text writes the integer in decimal, leading zeros allowed. -/
inductive Numeral : Int → Text → Prop
  | plain (zeros n : Nat) : Numeral n (List.replicate zeros '0' ++ Nat.toDigits 10 n)
  | minus (zeros n : Nat) : Numeral (-n) ('-' :: (List.replicate zeros '0' ++ Nat.toDigits 10 n))

theorem digitChar_eq_natDigitChar {d : Nat} (h : d < 10) : digitChar d = d.digitChar := by
  have hall : ∀ e : Fin 10, digitChar e = (e : Nat).digitChar := by decide
  exact hall ⟨d, h⟩

/-- A numeral without leading zeros is the list of decimal digits. -/
theorem ofNat_eq_toDigits (n : Nat) : ofNat n = Nat.toDigits 10 n := by
  fun_induction ofNat n with
  | case1 n h => rw [digitChar_eq_natDigitChar h, Nat.toDigits_of_lt_base h]
  | case2 n h ih =>
    rw [ih, digitChar_eq_natDigitChar (Nat.mod_lt n (by decide)),
      Nat.toDigits_of_base_le (by decide) (Nat.le_of_not_lt h)]

/-- What an integer is printed as writes that integer. -/
theorem numeral_ofInt (i : Int) : Numeral i (ofInt i) := by
  rw [ofInt, ofNat_eq_toDigits]
  split
  · next hneg =>
    have hi : i = -(i.natAbs : Int) := by omega
    have hminus := Numeral.minus 0 i.natAbs
    rwa [← hi] at hminus
  · next hneg =>
    have hi : i = (i.natAbs : Int) := by omega
    have hplain := Numeral.plain 0 i.natAbs
    rwa [← hi] at hplain

/-! ### Runs of digits -/

theorem isDigit_of_mem_isRun {t : Text} {c : Char} (h : isRun t) (hc : c ∈ t) : isDigit c := by
  simp only [isRun, Bool.and_eq_true, List.all_eq_true] at h
  exact h.2 c hc

theorem isRun_replicate_append (zeros n : Nat) :
    isRun (List.replicate zeros '0' ++ ofNat n) := by
  simp only [isRun, Bool.and_eq_true, Bool.not_eq_true', List.isEmpty_eq_false_iff,
    List.all_eq_true]
  refine ⟨by simp [ofNat_ne_nil], fun c hc => ?_⟩
  rcases List.mem_append.mp hc with hc | hc
  · obtain rfl := List.eq_of_mem_replicate hc
    decide
  · exact isDigit_of_mem_ofNat hc

/-- Leading zeros do not change the value. -/
theorem value_replicate_append (zeros : Nat) (t : Text) :
    value (List.replicate zeros '0' ++ t) = value t := by
  induction zeros with
  | zero => rfl
  | succ zeros ih =>
    rw [List.replicate_succ, List.cons_append, ← ih]
    rfl

theorem isDigit_iff {c : Char} : isDigit c ↔ ∃ d < 10, c = digitChar d := by
  constructor
  · intro h
    simp only [isDigit, Bool.and_eq_true, decide_eq_true_eq, Char.le_def, UInt32.le_iff_toNat_le]
      at h
    have hlo : 48 ≤ c.toNat := h.1
    have hhi : c.toNat ≤ 57 := h.2
    refine ⟨c.toNat - 48, by omega, ?_⟩
    have hsum : '0'.toNat + (c.toNat - 48) = c.toNat := by
      change 48 + (c.toNat - 48) = c.toNat
      omega
    rw [digitChar, hsum, Char.ofNat_toNat]
  · rintro ⟨d, hd, rfl⟩
    exact isDigit_digitChar hd

theorem ofNat_append_digit {n d : Nat} (hn : n ≠ 0) (hd : d < 10) :
    ofNat n ++ [digitChar d] = ofNat (10 * n + d) := by
  have hdiv : (10 * n + d) / 10 = n := by omega
  have hmod : (10 * n + d) % 10 = d := by omega
  rw [ofNat.eq_1 (10 * n + d), if_neg (by omega), hdiv, hmod]

/-- A run of digits is the numeral of its value behind some zeros. -/
theorem exists_eq_replicate_append {t : Text} (hne : t ≠ []) (h : ∀ c ∈ t, isDigit c) :
    ∃ zeros, t = List.replicate zeros '0' ++ ofNat (value t) := by
  induction t using List.reverseRecOn with
  | nil => contradiction
  | append_singleton t c ih =>
    obtain ⟨d, hd, rfl⟩ := isDigit_iff.mp (h c (by simp))
    rw [value_concat, digitValue_digitChar hd]
    cases t with
    | nil => exact ⟨0, by rw [ofNat.eq_1, if_pos (by simpa using hd)]; simp⟩
    | cons a t =>
      obtain ⟨zeros, hz⟩ := ih (by simp) fun c hc => h c (List.mem_append_left _ hc)
      by_cases hv : value (a :: t) = 0
      · -- the run so far is all zeros, so the new digit is the whole numeral
        refine ⟨zeros + 1, ?_⟩
        have hzero : ofNat 0 = ['0'] := by rw [ofNat.eq_1]; rfl
        rw [hv, hzero] at hz
        rw [hv, hz, Nat.mul_zero, Nat.zero_add, ofNat.eq_1 d, if_pos hd, List.replicate_succ']
      · refine ⟨zeros, ?_⟩
        rw [← ofNat_append_digit hv hd, ← List.append_assoc, ← hz]

theorem isRun_iff {t : Text} :
    isRun t ↔ ∃ zeros, t = List.replicate zeros '0' ++ Nat.toDigits 10 (value t) := by
  constructor
  · intro h
    have hne : t ≠ [] := by
      rintro rfl
      contradiction
    obtain ⟨zeros, hz⟩ := exists_eq_replicate_append hne fun c => isDigit_of_mem_isRun h
    exact ⟨zeros, by rw [← ofNat_eq_toDigits, ← hz]⟩
  · rintro ⟨zeros, hz⟩
    rw [hz, ← ofNat_eq_toDigits]
    exact isRun_replicate_append _ _

/-! ### Reading an integer -/

theorem toInt?_minus (t : Text) :
    toInt? ('-' :: t) = if isRun t then some (-(value t : Int)) else none := rfl

theorem toInt?_of_head?_ne {t : Text} (h : t.head? ≠ some '-') :
    toInt? t = if isRun t then some (value t : Int) else none := by
  unfold toInt?
  split
  · simp at h
  · rfl

theorem head?_ne_of_isRun {t : Text} (h : isRun t) : t.head? ≠ some '-' := by
  cases t with
  | nil => simp
  | cons c t =>
    have hc : isDigit c := isDigit_of_mem_isRun h (by simp)
    rintro ⟨rfl⟩
    exact absurd hc (by decide)

/-- A text is read as an integer exactly when it writes that integer. -/
theorem toInt?_eq_some_iff {t : Text} {i : Int} : toInt? t = some i ↔ Numeral i t := by
  constructor
  · intro h
    by_cases hm : t.head? = some '-'
    · obtain ⟨t, rfl⟩ : ∃ s, t = '-' :: s := by
        cases t with
        | nil => contradiction
        | cons c s => exact ⟨s, by rw [Option.some.inj hm]⟩
      rw [toInt?_minus] at h
      split at h
      · next hr =>
        obtain ⟨zeros, hz⟩ := isRun_iff.mp hr
        obtain rfl := Option.some.inj h
        have hw := Numeral.minus zeros (value t)
        rwa [← hz] at hw
      · contradiction
    · rw [toInt?_of_head?_ne hm] at h
      split at h
      · next hr =>
        obtain ⟨zeros, hz⟩ := isRun_iff.mp hr
        obtain rfl := Option.some.inj h
        have hw := Numeral.plain zeros (value t)
        rwa [← hz] at hw
      · contradiction
  · have hrun : ∀ zeros n, isRun (List.replicate zeros '0' ++ Nat.toDigits 10 n) ∧
        value (List.replicate zeros '0' ++ Nat.toDigits 10 n) = n := by
      intro zeros n
      rw [← ofNat_eq_toDigits, value_replicate_append, value_ofNat]
      exact ⟨isRun_replicate_append zeros n, rfl⟩
    rintro (⟨zeros, n⟩ | ⟨zeros, n⟩)
    · obtain ⟨hr, hv⟩ := hrun zeros n
      rw [toInt?_of_head?_ne (head?_ne_of_isRun hr), if_pos hr, hv]
    · obtain ⟨hr, hv⟩ := hrun zeros n
      rw [toInt?_minus, if_pos hr, hv]

end Decimal

end UnaryLisp
