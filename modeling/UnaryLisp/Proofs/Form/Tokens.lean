import UnaryLisp.Proofs.Form.Bracketing

/-!
# Tokens

The tokens of a text are its brackets and its words, in order; a word counts without the blanks at
its ends, separators do not count, and either closing bracket is the same token. Where brackets
match and where parts begin and end can be seen from the tokens: texts with the same tokens are cut
at the same places, into parts that have the same tokens again.

## Main definitions

* `Token`: the tokens.
* `Text.lex`, `Text.tokens`: the tokens of a text, without and with trimming it first.
* `Token.untilClosed`: the tokens up to the bracket that closes the open ones.
* `Text.Akin`: two parts that have the same tokens.

## Main results

* `Text.lex_append`: tokens are read one after the other.
* `Text.untilClosed_lex`: the bracket that closes is found among the tokens.
* `Text.Spread.forall₂_akin`: texts with the same tokens are laid out with akin parts.
-/

namespace UnaryLisp

/-- A token: a bracket, or a word without the blanks at its ends. Either closing bracket is the same
token. -/
inductive Token where
  | opener (bracket : Char)
  | closer
  | word (word : Text)
deriving DecidableEq

namespace Text

/-- The tokens of a text. -/
def lex : Text → List Token
  | [] => []
  | c :: cs =>
    if isSeparator c then lex cs
    else if isOpener c then .opener c :: lex cs
    else if isCloser c then .closer :: lex cs
    else .word (trim (c :: cs.takeWhile isPlain)) :: lex (cs.dropWhile isPlain)
termination_by t => t.length
decreasing_by
  · simp
  · simp
  · simp
  · have := (List.dropWhile_suffix (l := cs) isPlain).length_le
    simp only [List.length_cons]
    omega

/-- The tokens of a text without the blanks at its ends. -/
def tokens (text : Text) : List Token :=
  lex (trim text)

/-! ### Reading tokens -/

@[simp] theorem lex_nil : lex [] = [] := by
  rw [lex]

theorem lex_cons_separator {c : Char} (hc : isSeparator c) (t : Text) : lex (c :: t) = lex t := by
  rw [lex, if_pos hc]

theorem lex_cons_opener {c : Char} (hc : isOpener c) (t : Text) :
    lex (c :: t) = .opener c :: lex t := by
  rw [lex, if_neg (by simp [(not_closer_of_isOpener hc).2]), if_pos hc]

theorem lex_cons_closer {c : Char} (hc : isCloser c) (t : Text) :
    lex (c :: t) = .closer :: lex t := by
  obtain ⟨ho, hs⟩ := not_opener_of_isCloser hc
  rw [lex, if_neg (by simp [hs]), if_neg (by simp [ho]), if_pos hc]

theorem lex_word_append {w t : Text} (hw : IsWord w) (ht : ¬ StartsPlain t) :
    lex (w ++ t) = .word (trim w) :: lex t := by
  obtain ⟨hne, hall⟩ := hw
  cases w with
  | nil => contradiction
  | cons c w =>
    obtain ⟨ho, hc, hs⟩ := isPlain_iff.mp (hall c (by simp))
    have hw : ∀ a ∈ w, isPlain a := fun a ha => hall a (List.mem_cons_of_mem c ha)
    obtain ⟨htake, hdrop⟩ := cut_plain_append hw ht
    rw [List.cons_append, lex, if_neg (by simp [hs]), if_neg (by simp [ho]), if_neg (by simp [hc]),
      hdrop, htake]

theorem lex_gap_append {gap : Text} (hg : IsGap gap) (t : Text) : lex (gap ++ t) = lex t := by
  induction gap with
  | nil => rfl
  | cons c gap ih =>
    rw [List.cons_append, lex_cons_separator (hg c (by simp))]
    exact ih fun a ha => hg a (List.mem_cons_of_mem c ha)

theorem not_startsPlain_append {a t : Text} (ha : ¬ StartsPlain a) (ht : ¬ StartsPlain t) :
    ¬ StartsPlain (a ++ t) := by
  cases a with
  | nil => exact ht
  | cons c a => simpa using ha

/-- Tokens are read one after the other, where no word is cut. -/
theorem lex_append {t : Text} (a : Text) (ht : ¬ StartsPlain t) :
    lex (a ++ t) = lex a ++ lex t := by
  fun_induction lex a with
  | case1 => rfl
  | case2 c cs hs ih => rw [List.cons_append, lex_cons_separator hs, ih]
  | case3 c cs _ ho ih => rw [List.cons_append, lex_cons_opener ho, ih, List.cons_append]
  | case4 c cs _ _ hc ih => rw [List.cons_append, lex_cons_closer hc, ih, List.cons_append]
  | case5 c cs hs ho hc ih =>
    obtain ⟨hword, hnot, hcut⟩ := isWord_cons_takeWhile cs hs ho hc
    rw [hcut, List.append_assoc, lex_word_append hword (not_startsPlain_append hnot ht), ih,
      List.cons_append]

theorem lex_eq_nil_iff {t : Text} : lex t = [] ↔ IsGap t := by
  fun_induction lex t with
  | case1 => simp [isGap_nil]
  | case2 c cs hs ih => simp [ih, IsGap, hs]
  | case3 c cs hs | case4 c cs hs | case5 c cs hs => simp [IsGap, hs]

theorem lex_word {w : Text} (hw : IsWord w) : lex w = [.word (trim w)] := by
  have h := lex_word_append hw not_startsPlain_nil
  rwa [List.append_nil, lex_nil] at h

theorem lex_append_closer {c : Char} (hc : isCloser c) (body rest : Text) :
    lex (body ++ c :: rest) = lex body ++ .closer :: lex rest := by
  rw [lex_append body (by simp [isPlain, hc]), lex_cons_closer hc]

/-! ### The bracket that closes -/

end Text

/-- How many brackets are open behind a token, if `depth` are open before it. -/
def Token.depthAfter (depth : Nat) : Token → Nat
  | opener _ => depth + 1
  | closer => depth - 1
  | word _ => depth

/-- The tokens up to the closing bracket behind which no bracket is open, with that bracket, and the
rest. -/
def Token.untilClosed : Nat → List Token → Option (List Token × List Token)
  | _, [] => none
  | depth, a :: rest =>
    if a = .closer ∧ depth = 0 then some ([a], rest)
    else (untilClosed (a.depthAfter depth) rest).map fun (inside, rest) => (a :: inside, rest)

namespace Text

/-- The closing bracket is found among the tokens. -/
theorem untilClosed_lex (depth : Nat) (t : Text) :
    Token.untilClosed depth (lex t) =
      (untilClosed depth t).map (Prod.map lex lex) := by
  fun_induction lex t generalizing depth with
  | case1 => rfl
  | case2 c cs hs ih =>
    obtain ⟨ho, hc⟩ := not_bracket_of_isSeparator hs
    have hdepth : depthAfter depth c = depth := by simp [depthAfter, ho, hc]
    rw [untilClosed_cons (.inl hc), hdepth, ih, Option.map_map]
    refine Option.map_congr ?_
    rintro ⟨inside, rest⟩ -
    simp [lex_cons_separator hs]
  | case3 c cs _ ho ih =>
    have hdepth : depthAfter depth c = depth + 1 := by simp [depthAfter, ho]
    rw [untilClosed_cons (.inl (not_closer_of_isOpener ho).1), hdepth, Token.untilClosed,
      if_neg (by simp), Token.depthAfter, ih, Option.map_map, Option.map_map]
    refine Option.map_congr ?_
    rintro ⟨inside, rest⟩ -
    simp [lex_cons_opener ho]
  | case4 c cs _ _ hc ih =>
    cases depth with
    | zero =>
      rw [untilClosed, if_pos ⟨hc, rfl⟩, Token.untilClosed, if_pos ⟨rfl, rfl⟩]
      simp [lex_cons_closer hc]
    | succ depth =>
      have hdepth : depthAfter (depth + 1) c = depth := by
        simp [depthAfter, hc, (not_opener_of_isCloser hc).1]
      rw [untilClosed_cons (.inr (Nat.succ_ne_zero depth)), hdepth, Token.untilClosed,
        if_neg (by simp), Token.depthAfter, Nat.add_sub_cancel, ih, Option.map_map, Option.map_map]
      refine Option.map_congr ?_
      rintro ⟨inside, rest⟩ -
      simp [lex_cons_closer hc]
  | case5 c cs hs ho hc ih =>
    obtain ⟨hword, -, hcut⟩ := isWord_cons_takeWhile cs hs ho hc
    rw [hcut, untilClosed_balanced_append (balanced_of_isPart (.inl hword)), Token.untilClosed,
      if_neg (by simp), Token.depthAfter, ih, Option.map_map, Option.map_map]
    refine Option.map_congr ?_
    rintro ⟨inside, rest⟩ h
    -- what is found inside starts where the word ends, so the word stays whole
    have hnot : ¬ StartsPlain inside :=
      not_startsPlain_of_dropWhile (append_of_untilClosed h).symm
    simp only [Function.comp_apply, Prod.map_apply, lex_word_append hword hnot]

/-! ### Akin parts -/

/-- Two parts that have the same tokens. -/
inductive Akin : Text → Text → Prop
  | word {p q : Text} (hp : IsWord p) (hq : IsWord q) (h : trim p = trim q) : Akin p q
  | group {p q : Text} (hp : IsGroup p) (hq : IsGroup q) (h : lex p = lex q) : Akin p q

theorem lex_group_append {p : Text} (hp : IsGroup p) (t : Text) :
    lex (p ++ t) = lex p ++ lex t := by
  obtain @⟨o, c, inside, ho, -, hc⟩ := hp
  have happ : (o :: (inside ++ [c])) ++ t = o :: (inside ++ c :: t) := by simp
  rw [happ, lex_cons_opener ho, lex_cons_opener ho, lex_append_closer hc, lex_append_closer hc]
  simp

/-- The first token of a group is its opening bracket, and the others end where it is closed. -/
theorem exists_lex_group {p : Text} (hp : IsGroup p) :
    ∃ o inside, p.head? = some o ∧ lex p = .opener o :: inside ∧
      ∀ t, Token.untilClosed 0 (inside ++ lex t) = some (inside, lex t) := by
  obtain @⟨o, c, inside, ho, hi, hc⟩ := hp
  refine ⟨o, lex (inside ++ [c]), rfl, lex_cons_opener ho _, fun t => ?_⟩
  have happ : lex (inside ++ [c]) ++ lex t = lex (inside ++ c :: t) := by
    rw [lex_append_closer hc, lex_append_closer hc]
    simp
  rw [happ, untilClosed_lex, untilClosed_of_balanced hi hc]
  rfl

theorem lex_ne_nil_of_isPart {p : Text} (hp : IsPart p) : lex p ≠ [] := by
  rcases hp with hword | hgroup
  · rw [lex_word hword]
    exact List.cons_ne_nil _ _
  · obtain ⟨o, inside, -, hlex, -⟩ := exists_lex_group hgroup
    rw [hlex]
    exact List.cons_ne_nil _ _

/-- The tokens of a part are those at the start of a text that begins with it. -/
theorem lex_part_append {p rest : Text} (hp : IsPart p) (happ : opens p ∨ ¬ StartsPlain rest) :
    lex (p ++ rest) = lex p ++ lex rest := by
  rcases hp with hword | hgroup
  · rw [opens_of_isWord hword] at happ
    exact lex_append p (by simpa using happ)
  · exact lex_group_append hgroup rest

/-- Parts at the start of texts with the same tokens are akin, and what follows them has the same
tokens. -/
theorem akin_of_lex_append {p q rest rest' : Text} (hp : IsPart p) (hq : IsPart q)
    (h : lex p ++ lex rest = lex q ++ lex rest') : Akin p q ∧ lex rest = lex rest' := by
  rcases hp with hp | hp <;> rcases hq with hq | hq
  · rw [lex_word hp, lex_word hq] at h
    obtain ⟨htrim, hrest⟩ := List.cons.inj h
    exact ⟨.word hp hq (Token.word.inj htrim), hrest⟩
  · obtain ⟨o, inside, -, hlex, -⟩ := exists_lex_group hq
    rw [lex_word hp, hlex] at h
    simp at h
  · obtain ⟨o, inside, -, hlex, -⟩ := exists_lex_group hp
    rw [hlex, lex_word hq] at h
    simp at h
  · obtain ⟨o, inside, -, hlex, hclosed⟩ := exists_lex_group hp
    obtain ⟨o', inside', -, hlex', hclosed'⟩ := exists_lex_group hq
    rw [hlex, hlex'] at h
    obtain ⟨ho, htail⟩ := List.cons.inj h
    -- either group ends where its first bracket is closed, and that is the same place
    have hends := hclosed rest
    rw [List.append_eq, List.append_eq] at htail
    rw [htail, hclosed' rest'] at hends
    obtain ⟨hinside, hrest⟩ := Prod.mk.inj (Option.some.inj hends)
    exact ⟨.group hp hq (by rw [hlex, hlex', ho, hinside]), hrest.symm⟩

/-- Texts with the same tokens are laid out with akin parts. -/
theorem Spread.forall₂_akin {parts parts' : List Text} {t t' : Text} (h : Spread parts t)
    (h' : Spread parts' t') (hp : ∀ p ∈ parts, IsPart p) (hp' : ∀ p ∈ parts', IsPart p)
    (heq : lex t = lex t') : List.Forall₂ Akin parts parts' := by
  induction h generalizing parts' t' with
  | nil hg =>
    rw [lex_eq_nil_iff.mpr hg] at heq
    cases h' with
    | nil => exact .nil
    | @cons gap part rest parts hgap happ _ =>
      have hpart := hp' part List.mem_cons_self
      rw [List.append_assoc, lex_gap_append hgap, lex_part_append hpart happ] at heq
      exact absurd (List.append_eq_nil_iff.mp heq.symm).1 (lex_ne_nil_of_isPart hpart)
  | @cons gap part rest parts hgap happ _ ih =>
    have hpart := hp part List.mem_cons_self
    rw [List.append_assoc, lex_gap_append hgap, lex_part_append hpart happ] at heq
    cases h' with
    | nil hg =>
      rw [lex_eq_nil_iff.mpr hg] at heq
      exact absurd (List.append_eq_nil_iff.mp heq).1 (lex_ne_nil_of_isPart hpart)
    | @cons gap' part' rest' parts' hgap' happ' hrest' =>
      have hpart' := hp' part' List.mem_cons_self
      rw [List.append_assoc, lex_gap_append hgap', lex_part_append hpart' happ'] at heq
      obtain ⟨hakin, hrest⟩ := akin_of_lex_append hpart hpart' heq
      exact .cons hakin (ih hrest' (fun p h => hp p (List.mem_cons_of_mem _ h))
        (fun p h => hp' p (List.mem_cons_of_mem _ h)) hrest)

/-! ### Texts without blanks at their ends -/

/-- At the end of a text without blanks at its ends, nothing is left exactly when no token is. -/
theorem Bare.trimStart_eq_nil_iff {pre rest : Text} (h : Bare (pre ++ rest)) :
    trimStart rest = [] ↔ lex rest = [] := by
  constructor
  · intro htrim
    rw [h.eq_nil_of_isBlank (List.dropWhile_eq_nil_iff.mp htrim), lex_nil]
  · intro hlex
    rw [h.eq_nil_of_isBlank fun c hc => isBlank_of_isSeparator (lex_eq_nil_iff.mp hlex c hc)]
    rfl

theorem Bare.eq_nil_iff_lex {t : Text} (h : Bare t) : t = [] ↔ lex t = [] := by
  refine ⟨fun hnil => hnil ▸ lex_nil, fun hlex => ?_⟩
  exact @eq_nil_of_isBlank [] t h fun c hc => isBlank_of_isSeparator (lex_eq_nil_iff.mp hlex c hc)

/-- The first token of a text is a bracket if its first character is. -/
theorem Bare.exists_cons_of_lex {t : Text} {o : Char} {rest : List Token} (h : Bare t)
    (hlex : lex t = .opener o :: rest) : ∃ cs, t = o :: cs ∧ isOpener o ∧ lex cs = rest := by
  cases t with
  | nil => simp at hlex
  | cons c cs =>
    rw [lex, if_neg h.not_isSeparator] at hlex
    split at hlex
    · next ho =>
      obtain ⟨hbracket, hrest⟩ := List.cons.inj hlex
      obtain rfl := Token.opener.inj hbracket
      exact ⟨cs, rfl, ho, hrest⟩
    · split at hlex
      · simp at hlex
      · simp at hlex

theorem Bare.opens_iff_lex {t : Text} (h : Bare t) :
    opens t ↔ ∃ o rest, lex t = .opener o :: rest := by
  constructor
  · intro ho
    cases t with
    | nil => contradiction
    | cons c cs => exact ⟨c, lex cs, lex_cons_opener ho cs⟩
  · rintro ⟨o, rest, hlex⟩
    obtain ⟨cs, rfl, ho, -⟩ := h.exists_cons_of_lex hlex
    exact ho

/-- A text with the only token of a word is that word. -/
theorem Bare.eq_of_lex_word {t w : Text} (h : Bare t) (hlex : lex t = [.word w]) : t = w := by
  cases t with
  | nil => simp at hlex
  | cons c cs =>
    rw [lex, if_neg h.not_isSeparator] at hlex
    split at hlex
    · simp at hlex
    · split at hlex
      · simp at hlex
      · next ho hc =>
        obtain ⟨hword, hrest⟩ := List.cons.inj hlex
        obtain ⟨-, -, hcut⟩ := isWord_cons_takeWhile cs h.not_isSeparator ho hc
        have hend : cs.dropWhile isPlain = [] := (hcut ▸ h).eq_nil_of_isBlank fun a ha =>
          isBlank_of_isSeparator (lex_eq_nil_iff.mp hrest a ha)
        rw [hend, List.append_nil] at hcut
        rw [← Token.word.inj hword, ← hcut, trim_eq_self h]

end Text

end UnaryLisp
