import UnaryLisp.Proofs.Form.Loop

/-!
# Programs in brackets

The expressions of a program are the parts of the form that consists of the program in brackets, and
the passes over the two come to the same parts. Brackets around a text match unless the text has a
closing bracket that closes nothing or an opening bracket that nothing closes, and which of the two
it has decides how cutting it as a form fails.

## Main definitions

* `Text.StrayCloser`: a text with a closing bracket that closes nothing.
* `Text.UnclosedOpener`: a text with an opening bracket that nothing closes.

## Main results

* `splitForm_bracketed`: a program is cut as the form that has it between its brackets.
-/

namespace UnaryLisp

open Text

/-! ### Brackets that match nothing -/

/-- The text has a closing bracket at a place where no bracket is open. -/
def Text.StrayCloser (t : Text) : Prop :=
  ∃ before c after, t = before ++ c :: after ∧ Balanced before ∧ isCloser c

/-- The text has an opening bracket that nothing closes. -/
def Text.UnclosedOpener (t : Text) : Prop :=
  ∃ before o after, t = before ++ o :: after ∧ Balanced before ∧ isOpener o ∧
    ∀ inside c rest, after = inside ++ c :: rest → Balanced inside → isCloser c = false

theorem Text.untilClosed_eq_none_iff {t : Text} : untilClosed 0 t = none ↔
    ∀ inside c rest, t = inside ++ c :: rest → Balanced inside → isCloser c = false := by
  constructor
  · rintro hnone inside c rest rfl hbal
    by_contra hc
    rw [Bool.not_eq_false] at hc
    rw [untilClosed_of_balanced hbal hc] at hnone
    contradiction
  · intro h
    by_contra hsome
    obtain ⟨⟨inside, rest⟩, hclosed⟩ := Option.ne_none_iff_exists'.mp hsome
    obtain ⟨body, c, more, rfl, hbal, hc, -, -⟩ := exists_balanced_of_untilClosed hclosed
    have hfalse := h body c (more ++ rest) (by rw [← append_of_untilClosed hclosed]; simp) hbal
    simp [hc] at hfalse

/-- One more character does not close brackets that are open and one more around them. -/
theorem Text.untilClosed_concat {t : Text} {depth : Nat} (c : Char)
    (h : untilClosed depth t = none) : untilClosed (depth + 1) (t ++ [c]) = none := by
  induction t generalizing depth with
  | nil => rw [List.nil_append, untilClosed_cons (.inr (Nat.succ_ne_zero depth)), untilClosed]; rfl
  | cons a t ih =>
    rw [untilClosed] at h
    split at h
    · contradiction
    · next hne =>
      rw [Option.map_eq_none_iff] at h
      have hdepth : depthAfter (depth + 1) a = depthAfter depth a + 1 := by
        unfold depthAfter
        split
        · rfl
        · split
          · next hcloser =>
            have : depth ≠ 0 := fun h0 => hne ⟨hcloser, h0⟩
            omega
          · rfl
      rw [List.cons_append, untilClosed_cons (.inr (Nat.succ_ne_zero depth)), hdepth, ih h]
      rfl

/-! ### Cutting a text in brackets -/

variable {o c : Char}

theorem splitForm_cons (ho : isOpener o) (hc : isCloser c) (s : Text) :
    splitForm (o :: (s ++ [c])) = splitGroup o (s ++ [c]) :=
  splitForm_of_opener (trim_eq_self (bare_of_brackets ho hc s)) ho

theorem splitForm_of_strayCloser (ho : isOpener o) (hc : isCloser c) {before after : Text}
    {b : Char} (hbal : Balanced before) (hb : isCloser b) :
    splitForm (o :: (before ++ b :: after ++ [c])) =
      .error (.trailingInput (o :: (before ++ [b])) (trimStart (after ++ [c]))) := by
  have happ : before ++ b :: after ++ [c] = before ++ b :: (after ++ [c]) := by simp
  rw [splitForm_cons ho hc, splitGroup, happ, untilClosed_of_balanced hbal hb]
  cases htrim : trimStart (after ++ [c]) with
  | nil =>
    -- the closing bracket around the text is no blank, so something is left
    have hblank := List.dropWhile_eq_nil_iff.mp htrim c (by simp)
    simp [isBlank_of_isCloser hc] at hblank
  | cons a rest => simp only [htrim]

theorem splitForm_of_unclosed (ho : isOpener o) (hc : isCloser c) {before after : Text} {b : Char}
    (hbal : Balanced before) (hb : isOpener b) (hnone : untilClosed 0 after = none) :
    splitForm (o :: (before ++ b :: after ++ [c])) =
      .error (.unbalanced (o :: (before ++ b :: after ++ [c]))) := by
  have happ : before ++ b :: after ++ [c] = before ++ b :: (after ++ [c]) := by simp
  have hopen : untilClosed 0 (b :: (after ++ [c])) = none := by
    have hdepth : depthAfter 0 b = 1 := by simp [depthAfter, hb]
    rw [untilClosed_cons (.inl (not_closer_of_isOpener hb).1), hdepth,
      untilClosed_concat c hnone]
    rfl
  rw [splitForm_cons ho hc, splitGroup, happ, untilClosed_balanced_append hbal, hopen]
  rfl

/-- A program and the same text in brackets, of whatever shapes, are cut into the same parts, each
in one pass. If the program cannot be cut, then the text in brackets has something behind its end
where the program has a closing bracket that closes nothing; otherwise the program has an opening
bracket that nothing closes, and the text in brackets is unbalanced. -/
theorem splitForm_bracketed (ho : isOpener o) (hc : isCloser c) (s : Text) :
    cutProgram s = splitProgram s ∧
    cutForm (o :: (s ++ [c])) = some (splitForm (o :: (s ++ [c]))) ∧
    (∀ parts, splitProgram s = .ok parts ↔ splitForm (o :: (s ++ [c])) = .ok parts) ∧
    ∀ err, splitProgram s = .error err →
      (StrayCloser s →
        ∃ form trailing, splitForm (o :: (s ++ [c])) = .error (.trailingInput form trailing)) ∧
      (¬ StrayCloser s → UnclosedOpener s ∧
        splitForm (o :: (s ++ [c])) = .error (.unbalanced (o :: (s ++ [c])))) := by
  refine ⟨cutProgram_eq_splitProgram s, cutForm_eq_splitForm _, ?_⟩
  obtain ⟨body, tail, hs, hspread, hparts, hend⟩ := Level.exists_spread_scan s
  have hbal : Balanced body := hspread.balanced hparts
  rw [splitProgram]
  generalize (Level.scan s).parts = found at *
  generalize (Level.scan s).ending = ending at *
  cases hend with
  | done =>
    obtain rfl : s = body := hs.trans (List.append_nil body)
    rw [splitForm_of_enclosed ho ⟨hspread, hc⟩ hparts]
    exact ⟨fun parts => Iff.rfl, fun err herr => by contradiction⟩
  | closed hb =>
    subst hs
    rw [splitForm_of_strayCloser ho hc hbal hb]
    refine ⟨fun parts => by simp, fun err _ => ⟨fun _ => ⟨_, _, rfl⟩, fun hstray => ?_⟩⟩
    exact absurd ⟨body, _, _, rfl, hbal, hb⟩ hstray
  | unclosed hb hnone =>
    have hopen := splitForm_of_unclosed ho hc hbal hb hnone
    subst hs
    rw [hopen]
    refine ⟨fun parts => by simp, fun err _ => ⟨?_, fun _ => ⟨?_, rfl⟩⟩⟩
    · rintro ⟨before, b, after, happ, hbefore, hcloser⟩
      rw [happ, splitForm_of_strayCloser ho hc hbefore hcloser] at hopen
      simp at hopen
    · exact ⟨body, _, _, rfl, hbal, hb, untilClosed_eq_none_iff.mp hnone⟩

/-- A program with glued parts, a blank that separates nothing and mixed brackets, in brackets of
two shapes; and one with a closing bracket that closes nothing, before an opening one that nothing
closes. -/
theorem splitForm_bracketed_glued :
    isOpener '[' ∧ isCloser ')' ∧
      splitForm "[a(b]\u00a0c\n[(d) ])".toList =
        .ok ["a".toList, "(b]".toList, "\u00a0c".toList, "[(d) ]".toList] ∧
      cutForm "[a(b]\u00a0c\n[(d) ])".toList =
        some (.ok ["a".toList, "(b]".toList, "\u00a0c".toList, "[(d) ]".toList]) ∧
      ∃ form trailing, splitForm "[a] (b)".toList = .error (.trailingInput form trailing) := by
  have hsplit : splitProgram "a(b]\u00a0c\n[(d) ]".toList =
      .ok ["a".toList, "(b]".toList, "\u00a0c".toList, "[(d) ]".toList] := by decide +kernel
  have hfail : splitProgram "a] (b".toList = .error (.unbalanced "a]".toList) := by decide +kernel
  have hstray : StrayCloser "a] (b".toList :=
    ⟨['a'], ']', " (b".toList, rfl, .char rfl rfl .nil, rfl⟩
  obtain ⟨-, hpass, hparts, -⟩ := splitForm_bracketed (o := '[') (c := ')') rfl rfl
    "a(b]\u00a0c\n[(d) ]".toList
  have hform := (hparts _).mp hsplit
  exact ⟨rfl, rfl, hform, hpass.trans (congrArg some hform),
    ((splitForm_bracketed rfl rfl _).2.2.2 _ hfail).1 hstray⟩

end UnaryLisp
