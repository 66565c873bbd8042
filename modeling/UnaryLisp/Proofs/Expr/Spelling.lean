import UnaryLisp.Atom
import UnaryLisp.Proofs.Form.Layout
import UnaryLisp.Proofs.Text.Numeral

/-!
# The spelling of atoms

An atom is spelled as a reserved word, as a truth value, as a decimal numeral or as an identifier,
and no text spells two atoms. A word stands for a spelling when blanks that are no separators are
all that it has around it.

## Main definitions

* `Name.IsIdentifier`: the names that can be written.
* `Atom.Spelled`: the texts that spell an atom.
* `Text.Padded`: a word that is a given spelling with blanks around it.

## Main results

* `Atom.classify_eq_ok_iff`: a text is classified as the atom that it spells, blanks aside.
* `Atom.Spelled.padded`: a spelling is a word.
-/

namespace UnaryLisp

open Text

/-- An identifier is a name of lower case ASCII letters, underscores and hyphens that is neither a
keyword nor the lone hyphen. -/
structure Name.IsIdentifier (x : Name) : Prop where
  ne_nil : x ≠ []
  letters : ∀ c ∈ x, ('a' ≤ c ∧ c ≤ 'z') ∨ c = '_' ∨ c = '-'
  unreserved : x ∉ [Keyword.letIn.symbol, Keyword.lambda.symbol, Keyword.cond.symbol,
    Operator.sub.symbol]

namespace Atom

/-- The text spells the atom. -/
inductive Spelled : Atom → Text → Prop
  | reserved (word : Reserved) : Spelled (.reserved word) word.symbol
  | bool (b : Bool) : Spelled (.bool b) (boolSymbol b)
  | number {n : Number} {s : Text} (h : Decimal.Numeral n.toInt s) : Spelled (.number n) s
  | name {x : Name} (h : x.IsIdentifier) : Spelled (.name x) x

end Atom

/-- The word `w` is the text `s` with blanks around it. -/
def Text.Padded (w s : Text) : Prop :=
  (∀ c ∈ w, isPlain c) ∧ trim w = s

namespace Atom

/-! ### Characters of a spelling -/

/-- A character of a spelling: a digit, a character of a name, or one of a few signs. -/
def isSpellingChar (c : Char) : Bool :=
  Decimal.isDigit c || isNameChar c || ['+', '*', '/', '=', '#'].contains c

theorem isNameChar_iff {c : Char} :
    isNameChar c ↔ ('a' ≤ c ∧ c ≤ 'z') ∨ c = '_' ∨ c = '-' := by
  simp [isNameChar, or_assoc]

theorem toNat_lt_of_isSpellingChar {c : Char} (h : isSpellingChar c) : c.toNat < 128 := by
  simp only [isSpellingChar, Decimal.isDigit, isNameChar, Bool.or_eq_true, Bool.and_eq_true,
    decide_eq_true_eq, beq_iff_eq, Char.le_def, UInt32.le_iff_toNat_le, List.contains_iff_mem,
    List.mem_cons, List.not_mem_nil, or_false] at h
  have hz : 'z'.val.toNat = 122 := rfl
  have h9 : '9'.val.toNat = 57 := rfl
  have hc : c.toNat = c.val.toNat := rfl
  rcases h with (h | (h | rfl) | rfl) | (rfl | rfl | rfl | rfl | rfl)
  · omega
  · omega
  all_goals decide

theorem exists_ascii {c : Char} (h : isSpellingChar c) : ∃ n : Fin 128, c = Char.ofNat n :=
  ⟨⟨c.toNat, toNat_lt_of_isSpellingChar h⟩, (Char.ofNat_toNat c).symm⟩

/-- A character of a spelling is plain and no blank. -/
theorem isPlain_of_isSpellingChar {c : Char} (h : isSpellingChar c) :
    isPlain c ∧ isBlank c = false := by
  have hall : ∀ n : Fin 128, isSpellingChar (Char.ofNat n) →
      isPlain (Char.ofNat n) ∧ isBlank (Char.ofNat n) = false := by decide +kernel
  obtain ⟨n, rfl⟩ := exists_ascii h
  exact hall n h

theorem not_isDigit_of_isNameChar {c : Char} (h : isNameChar c) : Decimal.isDigit c = false := by
  have hall : ∀ n : Fin 128, isNameChar (Char.ofNat n) →
      Decimal.isDigit (Char.ofNat n) = false := by decide +kernel
  obtain ⟨n, rfl⟩ := exists_ascii (by simp [isSpellingChar, h] : isSpellingChar c)
  exact hall n h

theorem exists_isDigit_of_numeral {i : Int} {s : Text} (h : Decimal.Numeral i s) :
    ∃ c ∈ s, Decimal.isDigit c := by
  have hdigits : ∀ n, ∃ c ∈ Nat.toDigits 10 n, Decimal.isDigit c := by
    intro n
    obtain ⟨c, hc⟩ := List.exists_mem_of_ne_nil _ (Decimal.ofNat_ne_nil n)
    exact ⟨c, Decimal.ofNat_eq_toDigits n ▸ hc, Decimal.isDigit_of_mem_ofNat hc⟩
  rcases h with ⟨zeros, n⟩ | ⟨zeros, n⟩
  · obtain ⟨c, hc, hd⟩ := hdigits n
    exact ⟨c, List.mem_append_right _ hc, hd⟩
  · obtain ⟨c, hc, hd⟩ := hdigits n
    exact ⟨c, List.mem_cons_of_mem _ (List.mem_append_right _ hc), hd⟩

theorem isSpellingChar_of_mem_numeral {i : Int} {s : Text} (h : Decimal.Numeral i s) {c : Char}
    (hc : c ∈ s) : isSpellingChar c := by
  have hdigits : ∀ zeros n, c ∈ List.replicate zeros '0' ++ Nat.toDigits 10 n →
      isSpellingChar c := by
    intro zeros n hc
    rw [← Decimal.ofNat_eq_toDigits] at hc
    have hd := Decimal.isDigit_of_mem_isRun (Decimal.isRun_replicate_append zeros n) hc
    simp [isSpellingChar, hd]
  rcases h with ⟨zeros, n⟩ | ⟨zeros, n⟩
  · exact hdigits zeros n hc
  · rcases List.mem_cons.mp hc with rfl | hc
    · decide
    · exact hdigits zeros n hc

namespace Spelled

variable {a : Atom} {s : Text}

theorem isSpellingChar (h : a.Spelled s) {c : Char} (hc : c ∈ s) : Atom.isSpellingChar c := by
  cases h with
  | reserved word =>
    have hall : ∀ word ∈ Reserved.all, word.symbol.all Atom.isSpellingChar := by decide
    exact List.all_eq_true.mp (hall word (Reserved.mem_all word)) c hc
  | bool b =>
    have hall : ∀ b, (boolSymbol b).all Atom.isSpellingChar := by decide
    exact List.all_eq_true.mp (hall b) c hc
  | number h => exact isSpellingChar_of_mem_numeral h hc
  | name h => simp [Atom.isSpellingChar, isNameChar_iff.mpr (h.letters c hc)]

theorem ne_nil (h : a.Spelled s) : s ≠ [] := by
  cases h with
  | reserved word =>
    have hall : ∀ word ∈ Reserved.all, word.symbol ≠ [] := by decide
    exact hall word (Reserved.mem_all word)
  | bool b => cases b <;> decide
  | number h =>
    obtain ⟨c, hc, -⟩ := exists_isDigit_of_numeral h
    exact List.ne_nil_of_mem hc
  | name h => exact h.ne_nil

theorem isWord (h : a.Spelled s) : IsWord s :=
  ⟨h.ne_nil, fun _ hc => (isPlain_of_isSpellingChar (h.isSpellingChar hc)).1⟩

theorem bare (h : a.Spelled s) : Bare s :=
  ⟨fun _ hc => (isPlain_of_isSpellingChar (h.isSpellingChar (List.mem_of_mem_head? hc))).2,
    fun _ hc => (isPlain_of_isSpellingChar (h.isSpellingChar (List.mem_of_getLast? hc))).2⟩

/-- A spelling is a word that stands for itself. -/
theorem padded (h : a.Spelled s) : Padded s s :=
  ⟨h.isWord.2, trim_eq_self h.bare⟩

/-- A word that stands for a spelling is not empty. -/
theorem isWord_of_padded {w : Text} (h : a.Spelled s) (hw : Padded w s) : IsWord w := by
  refine ⟨?_, hw.1⟩
  rintro rfl
  exact h.ne_nil hw.2.symm

end Spelled

/-! ### Classification -/

theorem isName_iff {x : Text} :
    isName x ↔ x ≠ [] ∧ ∀ c ∈ x, ('a' ≤ c ∧ c ≤ 'z') ∨ c = '_' ∨ c = '-' := by
  simp only [isName, Bool.and_eq_true, Bool.not_eq_true', List.isEmpty_eq_false_iff,
    List.all_eq_true, isNameChar_iff]

/-- Among the texts with the letters of a name, those that are not reserved are the identifiers. -/
theorem isIdentifier_iff {x : Name} :
    x.IsIdentifier ↔ isName x ∧ Reserved.ofText? x = none := by
  rw [isName_iff]
  constructor
  · rintro ⟨hne, hletters, hres⟩
    refine ⟨⟨hne, hletters⟩, Option.eq_none_iff_forall_ne_some.mpr fun word hword => ?_⟩
    obtain rfl := Reserved.ofText?_eq_some_iff.mp hword
    have hall : ∀ word ∈ Reserved.all, isName word.symbol →
        word.symbol ∈ [Keyword.letIn.symbol, Keyword.lambda.symbol, Keyword.cond.symbol,
          Operator.sub.symbol] := by decide
    exact hres (hall word (Reserved.mem_all word) (isName_iff.mpr ⟨hne, hletters⟩))
  · rintro ⟨⟨hne, hletters⟩, hres⟩
    refine ⟨hne, hletters, fun hmem => ?_⟩
    have hall : ∀ s ∈ [Keyword.letIn.symbol, Keyword.lambda.symbol, Keyword.cond.symbol,
        Operator.sub.symbol], Reserved.ofText? s ≠ none := by decide
    exact hall x hmem hres

instance (x : Name) : Decidable x.IsIdentifier :=
  decidable_of_iff _ isIdentifier_iff.symm

theorem toInt?_of_isIdentifier {x : Name} (h : x.IsIdentifier) : Decimal.toInt? x = none := by
  refine Option.eq_none_iff_forall_ne_some.mpr fun i hi => ?_
  obtain ⟨c, hc, hd⟩ := exists_isDigit_of_numeral (Decimal.toInt?_eq_some_iff.mp hi)
  rw [not_isDigit_of_isNameChar (isNameChar_iff.mpr (h.letters c hc))] at hd
  contradiction

theorem boolSymbol_ne_of_isIdentifier {x : Name} (h : x.IsIdentifier) (b : Bool) :
    x ≠ boolSymbol b := by
  rintro rfl
  have hall : ∀ b, isName (boolSymbol b) = false := by decide
  have hname := (isIdentifier_iff.mp h).1
  rw [hall b] at hname
  contradiction

/-- A numeral is neither a reserved word nor a truth value. -/
theorem unreserved_of_numeral {i : Int} {s : Text} (h : Decimal.Numeral i s) :
    Reserved.ofText? s = none ∧ ∀ b, s ≠ boolSymbol b := by
  have hi := Decimal.toInt?_eq_some_iff.mpr h
  refine ⟨Option.eq_none_iff_forall_ne_some.mpr fun word hword => ?_, ?_⟩
  · obtain rfl := Reserved.ofText?_eq_some_iff.mp hword
    have hall : ∀ word ∈ Reserved.all, Decimal.toInt? word.symbol = none := by decide
    rw [hall word (Reserved.mem_all word)] at hi
    contradiction
  · rintro b rfl
    have hall : ∀ b, Decimal.toInt? (boolSymbol b) = none := by decide
    rw [hall b] at hi
    contradiction

theorem spelled_of_ofWord {s : Text} {a : Atom} (h : ofWord s = .ok a) : a.Spelled s := by
  unfold ofWord at h
  split at h
  · next word hw =>
    obtain rfl := Except.ok.inj h
    obtain rfl := Reserved.ofText?_eq_some_iff.mp hw
    exact .reserved word
  · next hres =>
    split at h
    · next hb =>
      obtain rfl := Except.ok.inj h
      exact hb ▸ .bool true
    · split at h
      · next hb =>
        obtain rfl := Except.ok.inj h
        exact hb ▸ .bool false
      · split at h
        · next i hi =>
          split at h
          · next n hn =>
            obtain rfl := Except.ok.inj h
            obtain rfl := Number.ofInt?_eq_some_iff.mp hn
            exact .number (Decimal.toInt?_eq_some_iff.mp hi)
          · contradiction
        · split at h
          · next hname =>
            obtain rfl := Except.ok.inj h
            exact .name (isIdentifier_iff.mpr ⟨hname, hres⟩)
          · contradiction

theorem ofWord_of_spelled {s : Text} {a : Atom} (h : a.Spelled s) : ofWord s = .ok a := by
  cases h with
  | reserved word => simp only [ofWord, Reserved.ofText?_eq_some_iff.mpr (rfl : word.symbol = _)]
  | bool b => cases b <;> rfl
  | @number n _ hs =>
    obtain ⟨hres, hb⟩ := unreserved_of_numeral hs
    simp only [ofWord, hres, if_neg (hb true), if_neg (hb false),
      Decimal.toInt?_eq_some_iff.mpr hs, Number.ofInt?_toInt]
  | name h =>
    obtain ⟨hname, hres⟩ := isIdentifier_iff.mp h
    simp only [ofWord, hres, if_neg (boolSymbol_ne_of_isIdentifier h true),
      if_neg (boolSymbol_ne_of_isIdentifier h false), toInt?_of_isIdentifier h, if_pos hname]

/-- A text is classified as the atom that it spells, blanks around it aside. -/
theorem classify_eq_ok_iff {text : Text} {a : Atom} :
    classify text = .ok a ↔ a.Spelled (trim text) := by
  constructor
  · intro h
    simp only [classify] at h
    split at h
    · contradiction
    · exact spelled_of_ofWord h
  · intro h
    have hne : (trim text).isEmpty = false := List.isEmpty_eq_false_iff.mpr h.ne_nil
    simp only [classify, hne, Bool.false_eq_true, if_false, ofWord_of_spelled h]

/-- A text spells at most one atom. -/
theorem Spelled.unique {a b : Atom} {s : Text} (ha : a.Spelled s) (hb : b.Spelled s) : a = b :=
  Except.ok.inj ((ofWord_of_spelled ha).symm.trans (ofWord_of_spelled hb))

end Atom

end UnaryLisp
