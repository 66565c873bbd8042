import UnaryLisp.Proofs.Expr.Spelling
import UnaryLisp.Proofs.Form.Arrangement

/-!
# Atoms by longest match

A lexer cuts the longest lexeme off the start of a text and prefers a fixed word to a name of the
same length. An atom is a text that one lexeme covers to its end. The lexemes overlap: a hyphen is
an operator, the sign of an integer and a letter of names, and a keyword may start a longer name.
Still, asking whether the first lexeme covers the text comes to the same as asking what the whole
text is, for every lexer that matches in this way.

## Main definitions

* `Lexeme`, `Lexeme.Matches`: the kinds of lexemes, and the texts of each kind.
* `Lexeme.IsFirst`: the lexeme that is cut off the start of a text.
* `Lexeme.LongestMatch`: lexers that find this lexeme behind separators.
* `Lexeme.scan`: a lexer that tries the longest text first.
* `Atom.classifyWith`: the atom that is one lexeme by itself.
* `Atom.Recognized`: what a text without surrounding blanks is.

## Main results

* `Lexeme.longestMatch_scan`: trying the longest text first is longest match.
* `Atom.recognized_classifyWith`: the first lexeme tells what the whole text is.
* `Atom.classify_iff_recognized`: atoms by longest match are exactly the texts that spell one.
-/

namespace UnaryLisp

open Text

/-- The kinds of lexemes: fixed words, integers and names. -/
inductive Lexeme where
  | reserved (word : Reserved)
  | bool (value : Bool)
  | integer
  | name
deriving DecidableEq

namespace Lexeme

/-- The texts that are lexemes of a kind. Integers match `-?[0-9]+` and names match `[a-z_-]+`. -/
inductive Matches : Lexeme → Text → Prop
  | reserved (word : Reserved) : Matches (.reserved word) word.symbol
  | bool (b : Bool) : Matches (.bool b) (Atom.boolSymbol b)
  | integer {sign digits : Text} (hsign : sign = [] ∨ sign = ['-']) (hne : digits ≠ [])
      (hdigits : ∀ c ∈ digits, '0' ≤ c ∧ c ≤ '9') : Matches .integer (sign ++ digits)
  | name {t : Text} (hne : t ≠ [])
      (hletters : ∀ c ∈ t, ('a' ≤ c ∧ c ≤ 'z') ∨ c = '_' ∨ c = '-') : Matches .name t

/-- The lexeme `w` of a kind is cut off the start of the text: it is the longest that matches there,
and it is taken for a name only if it is nothing else. -/
structure IsFirst (kind : Lexeme) (w t : Text) : Prop where
  isPrefix : w <+: t
  matches_kind : kind.Matches w
  longest : ∀ (other : Lexeme) (v : Text), v <+: t → other.Matches v → v.length ≤ w.length
  fixed_first : kind = .name → ∀ other : Lexeme, other.Matches w → other = .name

/-- What a lexer finds in a text. -/
inductive Found where
  /-- There are only separators. -/
  | nothing
  /-- No lexeme matches behind the separators. -/
  | fault
  /-- A lexeme stands between two positions. -/
  | lexeme (kind : Lexeme) (start stop : Nat)
deriving DecidableEq

/-- The lexer skips separators and then finds the first lexeme, if there is one. -/
structure LongestMatch (next : Text → Found) : Prop where
  nothing : ∀ gap, IsGap gap → next gap = .nothing
  fault : ∀ gap t, IsGap gap → t ≠ [] → (∀ c ∈ t.head?, isSeparator c = false) →
    (∀ (kind : Lexeme) (w : Text), w <+: t → ¬ kind.Matches w) → next (gap ++ t) = .fault
  lexeme : ∀ gap t, IsGap gap → (∀ c ∈ t.head?, isSeparator c = false) →
    (∃ (kind : Lexeme) (w : Text), w <+: t ∧ kind.Matches w) →
    ∃ kind w, IsFirst kind w t ∧ next (gap ++ t) = .lexeme kind gap.length (gap ++ w).length

/-- The atom that a lexeme is. An integer has to be a number. -/
def atom (t : Text) : Lexeme → Except SyntaxError Atom
  | .reserved word => .ok (.reserved word)
  | .bool b => .ok (.bool b)
  | .integer =>
    match (Decimal.toInt? t).bind Number.ofInt? with
    | some n => .ok (.number n)
    | none => .error (.integerOutOfRange t)
  | .name => .ok (.name t)

/-! ### Texts of a kind -/

/-- A text matches as an integer exactly when it writes one. -/
theorem matches_integer_iff {t : Text} : Matches .integer t ↔ ∃ i, Decimal.Numeral i t := by
  have hrun {digits : Text} :
      (digits ≠ [] ∧ ∀ c ∈ digits, '0' ≤ c ∧ c ≤ '9') ↔ Decimal.isRun digits := by
    simp [Decimal.isRun, Decimal.isDigit]
  constructor
  · intro h
    cases h with
    | @integer sign digits hsign hne hdigits =>
      have hdigits : Decimal.isRun digits := hrun.mp ⟨hne, hdigits⟩
      obtain ⟨zeros, hzeros⟩ := Decimal.isRun_iff.mp hdigits
      rw [hzeros]
      rcases hsign with rfl | rfl
      · exact ⟨_, .plain zeros _⟩
      · exact ⟨_, .minus zeros _⟩
  · have hdigits (zeros n : Nat) :
        Decimal.isRun (List.replicate zeros '0' ++ Nat.toDigits 10 n) := by
      rw [← Decimal.ofNat_eq_toDigits]
      exact Decimal.isRun_replicate_append zeros n
    rintro ⟨i, ⟨zeros, n⟩ | ⟨zeros, n⟩⟩
    · obtain ⟨hne, hall⟩ := hrun.mpr (hdigits zeros n)
      exact @Matches.integer [] _ (.inl rfl) hne hall
    · obtain ⟨hne, hall⟩ := hrun.mpr (hdigits zeros n)
      exact @Matches.integer ['-'] _ (.inr rfl) hne hall

theorem matches_name_iff {t : Text} : Matches .name t ↔ Atom.isName t := by
  rw [Atom.isName_iff]
  refine ⟨fun h => ?_, fun h => .name h.1 h.2⟩
  cases h with
  | name hne hletters => exact ⟨hne, hletters⟩

/-- A lexeme has at least one character. -/
theorem Matches.ne_nil {kind : Lexeme} {t : Text} (h : kind.Matches t) : t ≠ [] := by
  cases h with
  | reserved word => exact (Atom.Spelled.reserved word).ne_nil
  | bool b => exact (Atom.Spelled.bool b).ne_nil
  | integer _ hne => exact List.append_ne_nil_of_right_ne_nil _ hne
  | name hne => exact hne

end Lexeme

namespace Atom

open Lexeme

/-- The atom that a text is, blanks around it aside, if the first lexeme that the lexer finds covers
all of it. -/
def classifyWith (next : Text → Found) (text : Text) : Except SyntaxError Atom :=
  let t := trim text
  match next t with
  | .nothing => .error .empty
  | .fault => .error (.unrecognizedToken t)
  | .lexeme kind start stop =>
    if start = 0 ∧ stop = t.length then kind.atom t else .error (.unrecognizedToken t)

/-- What a text without surrounding blanks is: nothing, an atom, an integer that is no number, or
no lexeme. -/
inductive Recognized (t : Text) : Except SyntaxError Atom → Prop
  | empty (h : t = []) : Recognized t (.error .empty)
  | keyword (word : Keyword) (h : t = word.symbol) : Recognized t (.ok (.reserved (.keyword word)))
  | operator (op : Operator) (h : t = op.symbol) : Recognized t (.ok (.reserved (.operator op)))
  | bool (b : Bool) (h : t = boolSymbol b) : Recognized t (.ok (.bool b))
  | number (n : Number) (h : Decimal.Numeral n.toInt t) : Recognized t (.ok (.number n))
  | outOfRange {i : Int} (h : Decimal.Numeral i t)
      (hi : i < Int64.minValue.toInt ∨ Int64.maxValue.toInt < i) :
      Recognized t (.error (.integerOutOfRange t))
  | name (h : Name.IsIdentifier t) : Recognized t (.ok (.name t))
  | unrecognized (hne : t ≠ []) (h : ∀ kind : Lexeme, ¬ kind.Matches t) :
      Recognized t (.error (.unrecognizedToken t))

/-! ### The first lexeme tells what the text is -/

/-- A text that is a lexeme is what the kind of its first lexeme says. -/
theorem recognized_atom {kind : Lexeme} {t : Text} (h : kind.IsFirst t t) :
    Recognized t (kind.atom t) := by
  obtain ⟨-, hmatches, -, hfixed⟩ := h
  cases hmatches with
  | reserved word =>
    cases word with
    | keyword word => exact .keyword word rfl
    | operator op => exact .operator op rfl
  | bool b => exact .bool b rfl
  | integer hsign hne hdigits =>
    obtain ⟨i, hi⟩ := matches_integer_iff.mp (.integer hsign hne hdigits)
    simp only [Lexeme.atom, Decimal.toInt?_eq_some_iff.mpr hi, Option.bind_some]
    cases hn : Number.ofInt? i with
    | some n =>
      obtain rfl := Number.ofInt?_eq_some_iff.mp hn
      exact .number n hi
    | none =>
      refine .outOfRange hi ?_
      simp only [Number.ofInt?] at hn
      split at hn
      · contradiction
      · omega
  | name hne hletters =>
    refine .name ⟨hne, hletters, fun hmem => ?_⟩
    have hall : ∀ s ∈ [Keyword.letIn.symbol, Keyword.lambda.symbol, Keyword.cond.symbol,
        Operator.sub.symbol], ∃ word ∈ Reserved.all, word.symbol = s := by decide
    obtain ⟨word, -, rfl⟩ := hall t hmem
    have hname := hfixed rfl (.reserved word) (.reserved word)
    contradiction

/-- The first lexeme that a lexer finds tells what the whole text is. -/
theorem recognized_classifyWith {next : Text → Found} (hnext : LongestMatch next) (text : Text) :
    Recognized (trim text) (classifyWith next text) := by
  rw [classifyWith]
  have hbare := bare_trim text
  generalize trim text = t at hbare
  by_cases hnil : t = []
  · subst hnil
    simp only [hnext.nothing [] isGap_nil]
    exact .empty rfl
  have hstart : ∀ c ∈ t.head?, isSeparator c = false := by
    intro c hc
    by_contra hsep
    have hblank := isBlank_of_isSeparator (by simpa using hsep)
    rw [hbare.1 c hc] at hblank
    contradiction
  by_cases hsome : ∃ (kind : Lexeme) (w : Text), w <+: t ∧ kind.Matches w
  · obtain ⟨kind, w, hfirst, hfound⟩ := hnext.lexeme [] t isGap_nil hstart hsome
    simp only [List.nil_append, List.length_nil] at hfound
    simp only [hfound, true_and]
    split
    · next hlen =>
      obtain rfl : w = t := hfirst.isPrefix.eq_of_length hlen
      exact recognized_atom hfirst
    · next hlen =>
      -- a lexeme that covers the text would be longer than the first one
      refine .unrecognized hnil fun other hother => hlen ?_
      have hle := hfirst.longest other t List.prefix_rfl hother
      exact Nat.le_antisymm hfirst.isPrefix.length_le hle
  · have hnone (kind : Lexeme) (w : Text) (hw : w <+: t) : ¬ kind.Matches w :=
      fun h => hsome ⟨kind, w, hw, h⟩
    have hfault := hnext.fault [] t isGap_nil hnil hstart hnone
    rw [List.nil_append] at hfault
    simp only [hfault]
    exact .unrecognized hnil fun kind => hnone kind t List.prefix_rfl

/-- Whatever a text is, it is classified as that. -/
theorem Recognized.classify_eq {text : Text} {r : Except SyntaxError Atom}
    (h : Recognized (trim text) r) : classify text = r := by
  have hword {t : Text} (ht : trim text = t) (hne : t ≠ []) : classify text = ofWord t := by
    rw [classify, ht]
    exact if_neg (mt List.isEmpty_iff.mp hne)
  generalize ht : trim text = t at h
  cases h with
  | empty h =>
    rw [classify, ht, h]
    rfl
  | keyword word h => exact classify_eq_ok_iff.mpr (by rw [ht, h]; exact .reserved (.keyword word))
  | operator op h => exact classify_eq_ok_iff.mpr (by rw [ht, h]; exact .reserved (.operator op))
  | bool b h => exact classify_eq_ok_iff.mpr (by rw [ht, h]; exact .bool b)
  | number n h => exact classify_eq_ok_iff.mpr (by rw [ht]; exact .number h)
  | @outOfRange i h hi =>
    obtain ⟨hreserved, hbool⟩ := unreserved_of_numeral h
    have hrange : Number.ofInt? i = none := if_neg (by omega)
    rw [hword ht (matches_integer_iff.mpr ⟨i, h⟩).ne_nil]
    simp only [ofWord, hreserved, if_neg (hbool true), if_neg (hbool false),
      Decimal.toInt?_eq_some_iff.mpr h, hrange]
  | name h => exact classify_eq_ok_iff.mpr (by rw [ht]; exact .name h)
  | unrecognized hne h =>
    have hreserved : Reserved.ofText? t = none :=
      Option.eq_none_iff_forall_ne_some.mpr fun word hw =>
        h (.reserved word) (Reserved.ofText?_eq_some_iff.mp hw ▸ .reserved word)
    have hbool (b : Bool) : t ≠ boolSymbol b := fun heq => h (.bool b) (heq ▸ .bool b)
    have hint : Decimal.toInt? t = none :=
      Option.eq_none_iff_forall_ne_some.mpr fun i hi =>
        h .integer (matches_integer_iff.mpr ⟨i, Decimal.toInt?_eq_some_iff.mp hi⟩)
    rw [hword ht hne]
    simp only [ofWord, hreserved, if_neg (hbool true), if_neg (hbool false), hint,
      if_neg (mt matches_name_iff.mpr (h .name))]

end Atom

/-! ### Trying the longest text first -/

namespace Lexeme

/-- Whether a text is a lexeme of a kind. -/
def isMatch (t : Text) : Lexeme → Bool
  | .reserved word => t == word.symbol
  | .bool b => t == Atom.boolSymbol b
  | .integer => (Decimal.toInt? t).isSome
  | .name => Atom.isName t

/-- The kinds of lexemes that are preferred to names. -/
def preferred : List Lexeme :=
  Reserved.all.map .reserved ++ [.bool true, .bool false, .integer]

/-- The kind of lexeme that a text is. -/
def kind? (t : Text) : Option Lexeme :=
  (preferred ++ [Lexeme.name]).find? (isMatch t)

/-- The longest lexeme of at most `n` characters at the start of a text, and its kind. -/
def longest? (t : Text) : Nat → Option (Lexeme × Text)
  | 0 => none
  | n + 1 =>
    match kind? (t.take (n + 1)) with
    | some kind => some (kind, t.take (n + 1))
    | none => longest? t n

/-- What is found behind a gap, the longest text being tried first. -/
def scanBehind (gap t : Text) : Found :=
  if t.isEmpty then .nothing
  else match longest? t t.length with
    | some (kind, w) => .lexeme kind gap.length (gap ++ w).length
    | none => .fault

/-- Skips separators and tries the longest text first. -/
def scan (text : Text) : Found :=
  scanBehind (text.takeWhile isSeparator) (text.dropWhile isSeparator)

variable {kind : Lexeme} {t : Text}

theorem isMatch_iff : isMatch t kind ↔ kind.Matches t := by
  cases kind with
  | reserved word =>
    refine ⟨fun h => beq_iff_eq.mp h ▸ .reserved word, fun h => ?_⟩
    cases h
    exact beq_self_eq_true _
  | bool b =>
    refine ⟨fun h => beq_iff_eq.mp h ▸ .bool b, fun h => ?_⟩
    cases h
    exact beq_self_eq_true _
  | integer =>
    simp only [isMatch, matches_integer_iff, Option.isSome_iff_exists, Decimal.toInt?_eq_some_iff]
  | name => exact matches_name_iff.symm

theorem mem_preferred (h : kind ≠ .name) : kind ∈ preferred := by
  cases kind with
  | reserved word => exact List.mem_append_left _ (List.mem_map_of_mem (Reserved.mem_all word))
  | bool b => cases b <;> decide
  | integer => decide
  | name => contradiction

theorem not_matches_of_kind? (h : kind? t = none) (kind : Lexeme) : ¬ kind.Matches t := by
  have hmem : kind ∈ preferred ++ [Lexeme.name] := by
    by_cases hname : kind = .name
    · simp [hname]
    · exact List.mem_append_left _ (mem_preferred hname)
  rw [← isMatch_iff]
  exact List.find?_eq_none.mp h kind hmem

theorem eq_name_of_kind? (h : kind? t = some .name) {other : Lexeme} (ho : other.Matches t) :
    other = .name := by
  by_contra hne
  rw [kind?, List.find?_append] at h
  cases hfind : preferred.find? (isMatch t) with
  | none => exact List.find?_eq_none.mp hfind other (mem_preferred hne) (isMatch_iff.mpr ho)
  | some kind =>
    rw [hfind] at h
    obtain rfl := Option.some.inj h
    exact absurd (List.mem_of_find?_eq_some hfind) (by decide)

/-- No lexeme is longer than the one that is found. -/
theorem longest?_spec (t : Text) (n : Nat) :
    (longest? t n = none ∧ ∀ m ≤ n, ∀ kind : Lexeme, ¬ kind.Matches (t.take m)) ∨
      ∃ kind, ∃ m ≤ n, longest? t n = some (kind, t.take m) ∧ kind? (t.take m) = some kind ∧
        ∀ k ≤ n, ∀ other : Lexeme, other.Matches (t.take k) → k ≤ m := by
  induction n with
  | zero =>
    refine .inl ⟨rfl, fun m hm kind h => h.ne_nil ?_⟩
    rw [Nat.le_zero.mp hm, List.take_zero]
  | succ n ih =>
    cases hkind : kind? (t.take (n + 1)) with
    | some kind =>
      exact .inr ⟨kind, n + 1, le_rfl, by rw [longest?, hkind], hkind, fun k hk _ _ => hk⟩
    | none =>
      have hstep : longest? t (n + 1) = longest? t n := by rw [longest?, hkind]
      have hnone := not_matches_of_kind? hkind
      rw [hstep]
      rcases ih with ⟨hlongest, hshorter⟩ | ⟨kind, m, hm, hlongest, hfound, hle⟩
      · refine .inl ⟨hlongest, fun m hm kind h => ?_⟩
        rcases Nat.le_succ_iff.mp hm with hm | rfl
        · exact hshorter m hm kind h
        · exact hnone kind h
      · refine .inr ⟨kind, m, Nat.le_succ_of_le hm, hlongest, hfound, fun k hk other h => ?_⟩
        rcases Nat.le_succ_iff.mp hk with hk | rfl
        · exact hle k hk other h
        · exact absurd h (hnone other)

/-- The lexeme that is found is cut off the start, and if there is a lexeme then one is found. -/
theorem longest?_length (t : Text) :
    (longest? t t.length = none ∧ ∀ (kind : Lexeme) (w : Text), w <+: t → ¬ kind.Matches w) ∨
      ∃ kind w, longest? t t.length = some (kind, w) ∧ IsFirst kind w t := by
  have htake {w : Text} (hw : w <+: t) : w = t.take w.length := List.prefix_iff_eq_take.mp hw
  rcases longest?_spec t t.length with ⟨hnone, hno⟩ | ⟨kind, m, hm, hsome, hkind, hle⟩
  · refine .inl ⟨hnone, fun kind w hw h => ?_⟩
    exact hno w.length hw.length_le kind (htake hw ▸ h)
  · refine .inr ⟨kind, t.take m, hsome, List.take_prefix m t, ?_, fun other v hv h => ?_, ?_⟩
    · exact isMatch_iff.mp (List.find?_some hkind)
    · rw [List.length_take_of_le hm]
      exact hle v.length hv.length_le other (htake hv ▸ h)
    · rintro rfl other h
      exact eq_name_of_kind? hkind h

theorem scan_gap_append {gap : Text} (hg : IsGap gap)
    (ht : ∀ c ∈ t.head?, isSeparator c = false) : scan (gap ++ t) = scanBehind gap t := by
  have htake : (gap ++ t).takeWhile isSeparator = gap := takeWhile_gap_append hg ht
  have hdrop : (gap ++ t).dropWhile isSeparator = t := by
    have happ := List.takeWhile_append_dropWhile (p := isSeparator) (l := gap ++ t)
    rw [htake] at happ
    exact List.append_cancel_left happ
  rw [scan, htake, hdrop]

/-- Trying the longest text first is longest match. -/
theorem longestMatch_scan : LongestMatch scan where
  nothing gap hg := by
    have hscan := @scan_gap_append [] gap hg (by simp)
    rwa [List.append_nil] at hscan
  fault gap t hg hne ht hno := by
    rcases longest?_length t with ⟨hnone, -⟩ | ⟨kind, w, -, hfirst⟩
    · simp only [scan_gap_append hg ht, scanBehind, hnone, List.isEmpty_eq_false_iff.mpr hne,
        Bool.false_eq_true, if_false]
    · exact absurd hfirst.matches_kind (hno kind w hfirst.isPrefix)
  lexeme gap t hg ht := by
    rintro ⟨other, v, hv, hother⟩
    have hne : t ≠ [] := fun hnil => hother.ne_nil (List.prefix_nil.mp (hnil ▸ hv))
    rcases longest?_length t with ⟨-, hno⟩ | ⟨kind, w, hsome, hfirst⟩
    · exact absurd hother (hno other v hv)
    · refine ⟨kind, w, hfirst, ?_⟩
      simp only [scan_gap_append hg ht, scanBehind, hsome, List.isEmpty_eq_false_iff.mpr hne,
        Bool.false_eq_true, if_false]

end Lexeme

namespace Atom

/-- For every lexer that matches longest, the first lexeme of a text tells what the text is, blanks
around it aside, and the text is classified as that. -/
theorem classify_iff_recognized {next : Text → Lexeme.Found} (hnext : Lexeme.LongestMatch next)
    (text : Text) (r : Except SyntaxError Atom) :
    (classifyWith next text = r ↔ Recognized (trim text) r) ∧
      classifyWith next text = classify text := by
  have hrec := recognized_classifyWith hnext text
  have heq : classifyWith next text = classify text := hrec.classify_eq.symm
  refine ⟨⟨fun h => h ▸ hrec, fun h => ?_⟩, heq⟩
  rw [heq]
  exact h.classify_eq

/-- A keyword may start a name, a name in front of digits is no atom though a name starts it, and
zeros before the least number do not matter. -/
theorem classify_iff_recognized_letter :
    Recognized (trim "\u2003letter\n".toList) (.ok (.name "letter".toList)) ∧
      Recognized (trim "-let5".toList) (.error (.unrecognizedToken "-let5".toList)) ∧
      classifyWith Lexeme.scan " -009223372036854775808".toList = .ok (.number Int64.minValue) := by
  have hscan := Lexeme.longestMatch_scan
  have hletter := (classify_iff_recognized hscan "\u2003letter\n".toList
    (.ok (.name "letter".toList))).1
  have hdigit := (classify_iff_recognized hscan "-let5".toList
    (.error (.unrecognizedToken "-let5".toList))).1
  have hleast := (classify_iff_recognized hscan " -009223372036854775808".toList
    (.ok (.number Int64.minValue))).2
  exact ⟨hletter.mp (by decide +kernel), hdigit.mp (by decide +kernel),
    hleast.trans (by decide +kernel)⟩

end Atom

end UnaryLisp
