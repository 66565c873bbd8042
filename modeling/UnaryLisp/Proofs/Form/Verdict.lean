import UnaryLisp.Proofs.Form.Arrangement

/-!
# What can be cut, and what is at fault

A text is no form when there is nothing in it, when it goes on behind an expression that is already
complete, or when a bracket in it matches nothing; every other text is cut. A program is cut when
its brackets match: no prefix closes more than it opens, and the whole closes as many as it opens.
Each error quotes the fragment at fault.

## Main definitions

* `Text.Overrun`: a complete expression and what goes on behind it.
* `Text.Unmatched`: a text with a bracket that keeps it from being a form.
* `Text.NoForm`: what is wrong with a text that is no form.
* `Text.AtFault`: the fragment of a program that is at fault.

## Main results

* `splitForm_eq_error_iff`: a text is not cut as a form when it is none.
* `splitForm_verdict`: which texts are cut, and which error the others give.
* `splitProgram_eq_unbalanced_iff`: a program is not cut when a fragment of it is at fault.
* `splitProgram_verdict`: which programs are cut, and what is at fault in the others.
-/

namespace UnaryLisp

namespace Text

/-- The form is a complete expression, and the other text goes on behind it: something follows the
bracket that closes the form, or an opening bracket or a separator ends a word. -/
inductive Overrun (form : Text) : Text → Prop
  | closed {rest : Text} (h : ClosedAtEnd form) (hne : rest ≠ []) : Overrun form rest
  | word {rest : Text} {c : Char} (hw : IsWord form) (hc : isOpener c ∨ isSeparator c) :
      Overrun form (c :: rest)

/-- The text starts with a bracket and never comes back to depth zero, or the first of its
characters that is not plain is a closing bracket. -/
inductive Unmatched (t : Text) : Prop
  | unclosed (ho : opens t) (h : ∀ q, q <+: t → q ≠ [] → depth q ≠ 0) : Unmatched t
  | stray {w rest : Text} {c : Char} (ht : t = w ++ c :: rest) (hw : ∀ a ∈ w, isPlain a)
      (hc : isCloser c) : Unmatched t

/-- What is wrong with a text, which has no blanks at its ends, as a form. -/
inductive NoForm (t : Text) : SyntaxError → Prop
  | empty (h : t = []) : NoForm t .empty
  | overrun {form rest : Text} (ht : t = form ++ rest) (h : Overrun form rest) :
      NoForm t (.trailingInput form (trimStart rest))
  | unmatched (h : Unmatched t) : NoForm t (.unbalanced t)

/-- The fragment of a program that is at fault: the first closing bracket that closes nothing, with
the plain characters that touch it; or, if there is none and brackets stay open, the last opening
bracket that stands at depth zero, with all that follows it but the blanks at the end. -/
inductive AtFault (source : Text) : Text → Prop
  | stray {before run after : Text} {c : Char} (ht : source = before ++ run ++ c :: after)
      (hc : isCloser c) (hwithin : ClosesWithin 0 (before ++ run))
      (hdepth : depth (before ++ run) = 0) (hrun : ∀ a ∈ run, isPlain a)
      (hbefore : ∀ a ∈ before.getLast?, isPlain a = false) : AtFault source (run ++ [c])
  | unclosed {before after : Text} {o : Char} (ht : source = before ++ o :: after)
      (ho : isOpener o) (hwithin : ClosesWithin 0 source) (hopen : 0 < depth source)
      (hdepth : depth before = 0)
      (hlast : ∀ before' o' after', source = before' ++ o' :: after' → isOpener o' →
        depth before' = 0 → before'.length ≤ before.length) :
      AtFault source (trimEnd (o :: after))

theorem opens_append {a : Text} (hne : a ≠ []) (b : Text) : opens (a ++ b) = opens a := by
  cases a with
  | nil => contradiction
  | cons c a => rfl

/-! ### Texts without blanks at their ends -/

theorem Bare.trimStart_ne_nil {pre rest : Text} (h : Bare (pre ++ rest)) (hne : rest ≠ []) :
    trimStart rest ≠ [] :=
  fun hnil => hne (h.eq_nil_of_isBlank (List.dropWhile_eq_nil_iff.mp hnil))

theorem trimStart_blanks_append {blanks t : Text} (hb : ∀ c ∈ blanks, isBlank c)
    (ht : ∀ c ∈ t.head?, isBlank c = false) : trimStart (blanks ++ t) = t := by
  rw [trimStart, List.dropWhile_append_of_pos hb]
  exact trimStart_eq_self ht

theorem Overrun.isPart {form rest : Text} (h : Overrun form rest) : IsPart form := by
  cases h with
  | closed h _ => exact .inr h.isGroup
  | word hw _ => exact .inl hw

theorem Overrun.rest_ne_nil {form rest : Text} (h : Overrun form rest) : rest ≠ [] := by
  cases h with
  | closed _ hne => exact hne
  | word => exact List.cons_ne_nil _ _

end Text

open Text

/-! ### Cutting a form -/

/-- A word is ended by the first character that is not plain. -/
theorem splitForm_of_plain {text w rest : Text} {c : Char} (ht : trim text = w ++ c :: rest)
    (ho : opens (trim text) = false) (hw : ∀ a ∈ w, isPlain a) (hc : isPlain c = false) :
    splitForm text = if isCloser c then .error (.unbalanced (trim text))
      else .error (.trailingInput w (trimStart (c :: rest))) := by
  obtain ⟨htake, hdrop⟩ := cut_plain_append hw (t := c :: rest) (by simp [hc])
  rw [← ht] at htake hdrop
  rw [splitForm]
  cases htrim : trim text with
  | nil => simp [htrim] at ht
  | cons a t =>
    rw [htrim] at ho htake hdrop
    rw [opens_cons] at ho
    simp only [ho, Bool.false_eq_true, if_false, splitWord, htake, hdrop]

/-- A text that goes on behind a complete expression is no form. -/
theorem splitForm_of_overrun {text form rest : Text} (ht : trim text = form ++ rest)
    (h : Overrun form rest) :
    splitForm text = .error (.trailingInput form (trimStart rest)) := by
  cases h with
  | closed hclosed hne =>
    have hbare : Bare (form ++ rest) := ht ▸ bare_trim text
    have htrailing := hbare.trimStart_ne_nil hne
    obtain @⟨o, c, inside, ho, hi, hc⟩ := hclosed.isGroup
    have happ : o :: (inside ++ [c]) ++ rest = o :: (inside ++ c :: rest) := by simp
    rw [splitForm_of_opener (ht.trans happ) ho, splitGroup, untilClosed_of_balanced hi hc]
    cases htrim : trimStart rest with
    | nil => contradiction
    | cons a t => simp only [htrim]
  | @word rest c hw hc =>
    have hcloser : isCloser c = false := by
      rcases hc with hc | hc
      · exact (not_closer_of_isOpener hc).1
      · exact (not_bracket_of_isSeparator hc).2
    have hplain : isPlain c = false := by
      rcases hc with hc | hc <;> simp [isPlain, hc]
    have hopens : opens (trim text) = false := by
      rw [ht, opens_append hw.1, opens_of_isWord hw]
    rw [splitForm_of_plain ht hopens hw.2 hplain, if_neg (by simp [hcloser])]

/-- A text with a bracket that matches nothing is no form. -/
theorem splitForm_of_unmatched {text : Text} (h : Unmatched (trim text)) :
    splitForm text = .error (.unbalanced (trim text)) := by
  cases h with
  | unclosed ho hne =>
    cases ht : trim text with
    | nil => simp [ht] at ho
    | cons o cs =>
      rw [ht] at ho hne
      rw [splitForm_of_opener ht ho, splitGroup, (untilClosed_eq_none_iff_depth_ne ho).mpr hne]
  | @stray w rest c ht hw hc =>
    have hopens : opens (trim text) = false := by
      rw [ht]
      cases w with
      | nil => exact (not_opener_of_isCloser hc).1
      | cons a w => exact (isPlain_iff.mp (hw a List.mem_cons_self)).1
    rw [splitForm_of_plain ht hopens hw (by simp [isPlain, hc]), if_pos hc]

theorem noForm_of_splitGroup {o : Char} {cs : Text} {cause : SyntaxError} (ho : isOpener o)
    (h : splitGroup o cs = .error cause) : NoForm (o :: cs) cause := by
  rw [splitGroup] at h
  cases hclosed : untilClosed 0 cs with
  | none =>
    rw [hclosed] at h
    obtain rfl := Except.error.inj h
    exact .unmatched (.unclosed ho ((untilClosed_eq_none_iff_depth_ne ho).mp hclosed))
  | some found =>
    obtain ⟨inside, rest⟩ := found
    simp only [hclosed] at h
    have hgroup : IsGroup (o :: inside) := isGroup_of_untilClosed ho hclosed
    split at h
    · contradiction
    · next a t htrim =>
      obtain rfl := Except.error.inj h
      rw [← htrim]
      refine .overrun (cons_eq_append_of_untilClosed hclosed) (.closed hgroup.closedAtEnd ?_)
      rintro rfl
      contradiction

theorem noForm_of_splitWord {t : Text} {cause : SyntaxError} (ho : opens t = false)
    (hs : ∀ c ∈ t.head?, isSeparator c = false) (h : splitWord t = .error cause) :
    NoForm t cause := by
  have hcut : t = t.takeWhile isPlain ++ t.dropWhile isPlain :=
    List.takeWhile_append_dropWhile.symm
  have hplain : ∀ a ∈ t.takeWhile isPlain, isPlain a := fun a ha => List.mem_takeWhile_imp ha
  rw [splitWord] at h
  cases hdrop : t.dropWhile isPlain with
  | nil => simp [hdrop] at h
  | cons c rest =>
    rw [hdrop] at hcut h
    simp only at h
    by_cases hc : isCloser c
    · rw [if_pos hc] at h
      obtain rfl := Except.error.inj h
      exact .unmatched (.stray hcut hplain hc)
    · rw [if_neg hc] at h
      obtain rfl := Except.error.inj h
      have hend : isOpener c ∨ isSeparator c := by
        have hnot := not_startsPlain_of_dropWhile (hdrop.trans (List.append_nil _).symm)
        simpa [isPlain, hc, or_iff_not_imp_left] using hnot
      refine .overrun hcut (.word ⟨fun hnil => ?_, hplain⟩ hend)
      -- the text starts neither with a bracket nor with a separator, so with a word
      rw [hnil, List.nil_append] at hcut
      rw [hcut] at ho hs
      rcases hend with hopener | hsep
      · simp [hopener] at ho
      · simp [hsep] at hs

/-- A text is not cut as a form exactly when it is none, blanks around it aside. -/
theorem splitForm_eq_error_iff {text : Text} {cause : SyntaxError} :
    splitForm text = .error cause ↔ NoForm (trim text) cause := by
  constructor
  · intro h
    have hbare := bare_trim text
    rw [splitForm] at h
    cases ht : trim text with
    | nil =>
      rw [ht] at h
      obtain rfl := Except.error.inj h
      exact .empty rfl
    | cons c cs =>
      rw [ht] at h hbare
      simp only at h
      by_cases ho : isOpener c
      · rw [if_pos ho] at h
        exact noForm_of_splitGroup ho h
      · rw [if_neg ho] at h
        have hsep : ∀ a ∈ (c :: cs).head?, isSeparator a = false := by
          intro a ha
          obtain rfl := Option.some.inj ha
          simpa using hbare.not_isSeparator
        exact noForm_of_splitWord (by simpa using ho) hsep h
  · intro h
    cases h with
    | empty h => rw [splitForm, h]
    | overrun ht h => exact splitForm_of_overrun ht h
    | unmatched h => exact splitForm_of_unmatched h

/-- The expression that something goes on behind can be cut by itself. -/
theorem exists_splitForm_of_overrun {form rest : Text} (h : Overrun form rest)
    (hbare : Bare (form ++ rest)) : ∃ parts, splitForm form = .ok parts := by
  cases hsplit : splitForm form with
  | ok parts => exact ⟨parts, rfl⟩
  | error cause =>
    obtain rfl := eq_empty_of_splitForm h.isPart hsplit
    -- its first character is that of the whole text, and so no blank
    have hne : form ≠ [] := h.isPart.ne_nil
    cases form with
    | nil => contradiction
    | cons c cs =>
      have hblank : isBlank c = false := hbare.1 c rfl
      have hform := splitForm_eq_error_iff.mp hsplit
      rw [trim_cons hblank] at hform
      cases hform with
      | empty h => exact absurd h (List.cons_ne_nil _ _)

/-- What follows a complete expression is quoted without the blanks before it. -/
theorem splitForm_eq_trailingInput_iff {text form trailing : Text} :
    splitForm text = .error (.trailingInput form trailing) ↔
      ∃ blanks, trim text = form ++ (blanks ++ trailing) ∧ Overrun form (blanks ++ trailing) ∧
        (∀ c ∈ blanks, isBlank c) ∧ trailing ≠ [] ∧ ∀ c ∈ trailing.head?, isBlank c = false := by
  constructor
  · intro h
    cases splitForm_eq_error_iff.mp h with
    | @overrun form rest ht hover =>
      have hrest : rest.takeWhile isBlank ++ trimStart rest = rest :=
        List.takeWhile_append_dropWhile
      have hbare : Bare (form ++ rest) := ht ▸ bare_trim text
      refine ⟨rest.takeWhile isBlank, by rw [hrest, ht], by rwa [hrest],
        fun c hc => List.mem_takeWhile_imp hc, hbare.trimStart_ne_nil hover.rest_ne_nil, ?_⟩
      exact fun c hc => head?_trimStart hc
  · rintro ⟨blanks, ht, hover, hblanks, -, hhead⟩
    rw [splitForm_of_overrun ht hover, trimStart_blanks_append hblanks hhead]

theorem splitForm_eq_unbalanced_iff {text fragment : Text} :
    splitForm text = .error (.unbalanced fragment) ↔
      fragment = trim text ∧ Unmatched (trim text) := by
  constructor
  · intro h
    cases splitForm_eq_error_iff.mp h with
    | unmatched hmatch => exact ⟨rfl, hmatch⟩
  · rintro ⟨rfl, hmatch⟩
    exact splitForm_of_unmatched hmatch

/-- A text that has none of these things wrong with it is cut. -/
theorem exists_splitForm_iff {text : Text} :
    (∃ parts, splitForm text = .ok parts) ↔ trim text ≠ [] ∧
      (∀ form rest, trim text = form ++ rest → ¬ Overrun form rest) ∧ ¬ Unmatched (trim text) := by
  constructor
  · rintro ⟨parts, hparts⟩
    have hform (cause : SyntaxError) : ¬ NoForm (trim text) cause := by
      rw [← splitForm_eq_error_iff, hparts]
      simp
    exact ⟨fun h => hform _ (.empty h), fun form rest ht h => hform _ (.overrun ht h),
      fun h => hform _ (.unmatched h)⟩
  · rintro ⟨hne, hoverrun, hunmatched⟩
    cases hsplit : splitForm text with
    | ok parts => exact ⟨parts, rfl⟩
    | error cause =>
      cases splitForm_eq_error_iff.mp hsplit with
      | empty h => exact absurd h hne
      | overrun ht h => exact absurd h (hoverrun _ _ ht)
      | unmatched h => exact absurd h hunmatched

/-- A text is not cut when there is nothing in it but blanks; when it goes on behind a complete
expression, which can be cut by itself and is quoted with what follows it; or when a bracket in it
matches nothing, and then it is quoted as a whole. Every other text is cut. The search for a closing
bracket counts the brackets that it has read, with the one that it started behind, so there is
always one to take off: the pass over a form that checks this comes to the same result. -/
theorem splitForm_verdict (text : Text) :
    (splitForm text = .error .empty ↔ trim text = []) ∧
    (∀ form trailing, splitForm text = .error (.trailingInput form trailing) ↔
      ∃ blanks, trim text = form ++ (blanks ++ trailing) ∧ Overrun form (blanks ++ trailing) ∧
        (∀ c ∈ blanks, isBlank c) ∧ trailing ≠ [] ∧ ∀ c ∈ trailing.head?, isBlank c = false) ∧
    (∀ form rest, trim text = form ++ rest → Overrun form rest →
      (∃ parts, splitForm form = .ok parts) ∧
        ∃ trailing, splitForm text = .error (.trailingInput form trailing)) ∧
    (∀ fragment, splitForm text = .error (.unbalanced fragment) ↔
      fragment = trim text ∧ Unmatched (trim text)) ∧
    ((∃ parts, splitForm text = .ok parts) ↔ trim text ≠ [] ∧
      (∀ form rest, trim text = form ++ rest → ¬ Overrun form rest) ∧ ¬ Unmatched (trim text)) ∧
    (∀ o cs e rest, trim text = o :: cs → isOpener o → ComesTo 0 cs e rest →
      ∃ read, cs = read ++ rest ∧ depth (o :: read) = e + 1 ∧
        untilClosed 0 cs = (untilClosed e rest).map (Prod.map (read ++ ·) id)) ∧
    cutForm text = some (splitForm text) := by
  refine ⟨⟨fun h => ?_, fun h => splitForm_eq_error_iff.mpr (.empty h)⟩,
    fun form trailing => splitForm_eq_trailingInput_iff, fun form rest ht h => ?_,
    fun fragment => splitForm_eq_unbalanced_iff, exists_splitForm_iff,
    fun o cs e rest ht ho h => ?_, cutForm_eq_splitForm text⟩
  · cases splitForm_eq_error_iff.mp h with
    | empty hnil => exact hnil
  · exact ⟨exists_splitForm_of_overrun h (ht ▸ bare_trim text), _, splitForm_of_overrun ht h⟩
  · obtain ⟨read, hcs, hdepth, hsearch⟩ := h.exists_read
    refine ⟨read, hcs, ?_, hsearch⟩
    rw [depth_cons, depth_opener ho, hdepth]
    omega

/-- A form that goes on behind its end, with the search for the bracket that closes it; and a word
that a closing bracket ends. -/
theorem splitForm_verdict_overrun :
    Overrun "([b] a)".toList "\u2003 c".toList ∧
      (∃ parts, splitForm "([b] a)".toList = .ok parts) ∧
      splitForm " ([b] a)\u2003 c".toList = .error (.trailingInput "([b] a)".toList ['c']) ∧
      (∃ read, "[b] a)\u2003 c".toList = read ++ "b] a)\u2003 c".toList ∧
        depth ('(' :: read) = 2) ∧
      cutForm " ([b] a)\u2003 c".toList =
        some (.error (.trailingInput "([b] a)".toList ['c'])) ∧
      Unmatched "a] b".toList ∧ splitForm "a] b".toList = .error (.unbalanced "a] b".toList) := by
  obtain ⟨-, htrailing, hover, -, -, hcount, hpass⟩ := splitForm_verdict " ([b] a)\u2003 c".toList
  have htrim : trim " ([b] a)\u2003 c".toList = "([b] a)".toList ++ "\u2003 c".toList := by
    decide +kernel
  have hclosed : untilClosed 0 "[b] a)".toList = some ("[b] a)".toList, []) := by decide +kernel
  have hform : Overrun "([b] a)".toList "\u2003 c".toList :=
    .closed (isGroup_of_untilClosed rfl hclosed).closedAtEnd (by decide)
  have hstray : Unmatched "a] b".toList :=
    .stray (rfl : _ = ['a'] ++ ']' :: " b".toList) (List.all_eq_true.mp (by decide +kernel)) rfl
  have hbare : trim "a] b".toList = "a] b".toList := by decide +kernel
  have herror : splitForm " ([b] a)\u2003 c".toList =
      .error (.trailingInput "([b] a)".toList ['c']) := by
    refine (htrailing _ _).mpr ⟨"\u2003 ".toList, htrim, hform, ?_, by simp, ?_⟩
    · exact List.all_eq_true.mp (by decide +kernel)
    · simpa using (by decide : isBlank 'c' = false)
  refine ⟨hform, (hover _ _ htrim hform).1, herror, ?_, hpass.trans (congrArg some herror), hstray,
    ?_⟩
  · obtain ⟨read, hread, hdepth, -⟩ := hcount '(' _ _ _ htrim rfl
      (.next .refl (by decide) : ComesTo 0 _ (depthAfter 0 '[') _)
    exact ⟨read, hread, hdepth⟩
  · exact ((splitForm_verdict "a] b".toList).2.2.2.1 _).mpr ⟨hbare.symm, hbare.symm ▸ hstray⟩

/-! ### Cutting a program -/

theorem splitProgram_of_isPart {e : Text} (h : IsPart e) : splitProgram e = .ok [e] := by
  refine splitProgram_eq_ok_iff.mpr ⟨?_, by simpa using h⟩
  have hspread : Spread [e] (e ++ []) := .cons_part (.inr not_startsPlain_nil) (.nil isGap_nil)
  rwa [List.append_nil] at hspread

/-- A program is cut exactly when its brackets match. -/
theorem exists_splitProgram_iff {source : Text} :
    (∃ parts, splitProgram source = .ok parts) ↔ Balanced source := by
  constructor
  · rintro ⟨parts, hsplit⟩
    obtain ⟨hspread, hparts⟩ := splitProgram_eq_ok_iff.mp hsplit
    exact hspread.balanced hparts
  · intro h
    obtain ⟨parts, hspread, hparts⟩ := h.exists_spread
    exact ⟨parts, splitProgram_eq_ok_iff.mpr ⟨hspread, hparts⟩⟩

theorem splitProgram_eq_ok_iff_arrangement {source : Text} {parts : List Text} :
    splitProgram source = .ok parts ↔ ∃ a : Arrangement, a.parts = parts ∧ a.text = source := by
  rw [splitProgram_eq_ok_iff]
  constructor
  · rintro ⟨hspread, hparts⟩
    exact hspread.exists_arrangement hparts
  · rintro ⟨a, rfl, rfl⟩
    exact ⟨a.spread, fun p => Arrangement.isPart_of_mem_parts⟩

namespace Text

variable {body rest body' rest' : Text} {c c' o : Char}

/-- Of two places in a text, the second does not come later or lies behind the character at the
first. -/
theorem length_le_or_passes (heq : body ++ c :: rest = body' ++ c' :: rest') :
    body'.length ≤ body.length ∨ ∃ between, body' = body ++ c :: between ∧ between <+: rest := by
  rcases List.append_eq_append_iff.mp heq with ⟨between, rfl, hbetween⟩ | ⟨between, rfl, -⟩
  · cases between with
    | nil => simp
    | cons a between =>
      obtain ⟨rfl, rfl⟩ := List.cons.inj hbetween
      exact .inr ⟨between, rfl, List.prefix_append _ _⟩
  · simp

/-- The first closing bracket that closes nothing is at fault. -/
theorem atFault_stray (hbal : Balanced body) (hc : isCloser c) :
    AtFault (body ++ c :: rest) (plainEnd body ++ [c]) := by
  obtain ⟨hwithin, hdepth⟩ := balanced_iff.mp hbal
  obtain ⟨before, hbody, hbefore⟩ := exists_append_plainEnd body
  rw [hbody] at hwithin hdepth
  exact .stray (by rw [← hbody]) hc hwithin hdepth (fun a => isPlain_of_mem_plainEnd) hbefore

/-- An opening bracket that nothing closes is at fault, and no later one stands at depth zero. -/
theorem atFault_unclosed (hbal : Balanced body) (ho : isOpener o)
    (hnone : untilClosed 0 rest = none) : AtFault (body ++ o :: rest) (trimEnd (o :: rest)) := by
  obtain ⟨hwithin, hdepth⟩ := balanced_iff.mp hbal
  have hrest : ClosesWithin 0 rest := untilClosed_eq_none_iff_closesWithin.mp hnone
  refine .unclosed rfl ho ?_ ?_ hdepth fun before' o' after' heq ho' hdepth' => ?_
  · rw [closesWithin_append, closesWithin_cons, hdepth, depth_opener ho]
    exact ⟨hwithin, by omega, hrest.mono (by omega)⟩
  · have hpos := hrest.le_depth
    rw [depth_append, depth_cons, hdepth, depth_opener ho]
    omega
  · rcases length_le_or_passes heq with hle | ⟨between, rfl, hbetween⟩
    · exact hle
    · -- behind the bracket the depth is at least one
      have hpos := hrest between hbetween
      rw [depth_append, depth_cons, hdepth, depth_opener ho] at hdepth'
      omega

/-- No prefix that closes only what it opens goes beyond a closing bracket that closes nothing. -/
theorem length_le_of_stray (heq : body ++ c :: rest = body' ++ c' :: rest') (hc : isCloser c)
    (hdepth : depth body = 0) (hwithin : ClosesWithin 0 body') : body'.length ≤ body.length := by
  rcases length_le_or_passes heq with hle | ⟨between, rfl, -⟩
  · exact hle
  · exact absurd hwithin (not_closesWithin_closer hdepth hc between)

/-- Brackets do not match where a fragment is at fault. -/
theorem AtFault.not_balanced {source fragment : Text} (h : AtFault source fragment) :
    ¬ Balanced source := by
  intro hbal
  cases h with
  | stray ht hc _ hdepth _ _ =>
    rw [ht] at hbal
    exact not_closesWithin_closer hdepth hc _ (balanced_iff.mp hbal).1
  | unclosed _ _ _ hopen _ _ =>
    rw [hbal.depth_eq] at hopen
    contradiction

/-- A program has one fragment at fault at most. -/
theorem AtFault.unique {source fragment fragment' : Text} (h : AtFault source fragment)
    (h' : AtFault source fragment') : fragment = fragment' := by
  cases h with
  | @stray before run after c ht hc hwithin hdepth hrun hbefore =>
    cases h' with
    | @stray before' run' after' c' ht' hc' hwithin' hdepth' hrun' hbefore' =>
      have heq := ht.symm.trans ht'
      have hlen := Nat.le_antisymm (length_le_of_stray heq.symm hc' hdepth' hwithin)
        (length_le_of_stray heq hc hdepth hwithin')
      obtain ⟨hbody, htail⟩ := List.append_inj heq hlen
      obtain ⟨rfl, -⟩ := List.cons.inj htail
      rw [← plainEnd_of_plain hrun hbefore, hbody, plainEnd_of_plain hrun' hbefore']
    | unclosed _ _ hwithin' _ _ _ =>
      rw [ht] at hwithin'
      exact absurd hwithin' (not_closesWithin_closer hdepth hc after)
  | @unclosed before after o ht ho hwithin _ hdepth hlast =>
    cases h' with
    | stray ht' hc' _ hdepth' _ _ =>
      rw [ht'] at hwithin
      exact absurd hwithin (not_closesWithin_closer hdepth' hc' _)
    | @unclosed before' after' o' ht' ho' _ _ hdepth' hlast' =>
      have hlen := Nat.le_antisymm (hlast' before o after ht ho hdepth)
        (hlast before' o' after' ht' ho' hdepth')
      rw [(List.append_inj (ht.symm.trans ht') hlen).2]

end Text

/-- The error of a program that is not cut quotes the fragment at fault. -/
theorem atFault_of_splitProgram {source : Text} {cause : SyntaxError}
    (h : splitProgram source = .error cause) :
    ∃ fragment, cause = .unbalanced fragment ∧ AtFault source fragment := by
  obtain ⟨body, tail, hs, hspread, hparts, hend⟩ := Level.exists_spread_scan source
  have hbal : Balanced body := hspread.balanced hparts
  rw [splitProgram] at h
  generalize (Level.scan source).ending = ending at *
  subst hs
  cases hend with
  | done => contradiction
  | @closed c rest hc =>
    simp only [take_before] at h
    exact ⟨_, (Except.error.inj h).symm, atFault_stray hbal hc⟩
  | @unclosed o rest ho hnone =>
    exact ⟨_, (Except.error.inj h).symm, atFault_unclosed hbal ho hnone⟩

theorem splitProgram_eq_unbalanced_iff {source fragment : Text} :
    splitProgram source = .error (.unbalanced fragment) ↔ AtFault source fragment := by
  constructor
  · intro h
    obtain ⟨_, hcause, hfault⟩ := atFault_of_splitProgram h
    rwa [SyntaxError.unbalanced.inj hcause]
  · intro h
    cases hsplit : splitProgram source with
    | ok parts => exact absurd (exists_splitProgram_iff.mp ⟨parts, hsplit⟩) h.not_balanced
    | error cause =>
      obtain ⟨_, rfl, hfault⟩ := atFault_of_splitProgram hsplit
      rw [h.unique hfault]

/-- A program is cut exactly when no prefix of it closes more brackets than it opens and the whole
closes as many as it opens. Then it is an arrangement of the parts, and every part is cut into
itself alone. The error of any other program quotes the fragment at fault. -/
theorem splitProgram_verdict (source : Text) :
    ((∃ parts, splitProgram source = .ok parts) ↔
      (∀ q, q <+: source → q.countP isCloser ≤ q.countP isOpener) ∧
        source.countP isCloser = source.countP isOpener) ∧
    (∀ parts, splitProgram source = .ok parts ↔
      ∃ a : Arrangement, a.parts = parts ∧ a.text = source) ∧
    (∀ parts, splitProgram source = .ok parts → ∀ e ∈ parts, splitProgram e = .ok [e]) ∧
    (∀ fragment, splitProgram source = .error (.unbalanced fragment) ↔ AtFault source fragment) ∧
    ∀ cause, splitProgram source = .error cause → ∃ fragment, cause = .unbalanced fragment := by
  refine ⟨?_, fun parts => splitProgram_eq_ok_iff_arrangement, fun parts h e he => ?_,
    fun fragment => splitProgram_eq_unbalanced_iff, fun cause => exists_unbalanced_of_splitProgram⟩
  · have hdepth (q : Text) : 0 ≤ 0 + depth q ↔ q.countP isCloser ≤ q.countP isOpener := by
      rw [depth]
      omega
    have hzero : depth source = 0 ↔ source.countP isCloser = source.countP isOpener := by
      rw [depth]
      omega
    simp only [exists_splitProgram_iff, balanced_iff, ClosesWithin, hdepth, hzero]
  · exact splitProgram_of_isPart ((splitProgram_eq_ok_iff.mp h).2 e he)

/-- A program with glued parts; and one with a closing bracket that closes nothing, touched by a
word, before an opening bracket that nothing closes. -/
theorem splitProgram_verdict_stray :
    splitProgram "a(b]\u00a0c".toList = .ok ["a".toList, "(b]".toList, "\u00a0c".toList] ∧
      splitProgram "\u00a0c".toList = .ok ["\u00a0c".toList] ∧
      splitProgram "(a) b] (c".toList = .error (.unbalanced "b]".toList) ∧
      AtFault "(a) b] (c".toList "b]".toList := by
  have hsplit : splitProgram "a(b]\u00a0c".toList =
      .ok ["a".toList, "(b]".toList, "\u00a0c".toList] := by decide +kernel
  have hfail : splitProgram "(a) b] (c".toList = .error (.unbalanced "b]".toList) := by
    decide +kernel
  exact ⟨hsplit, (splitProgram_verdict _).2.2.1 _ hsplit _ (by simp), hfail,
    ((splitProgram_verdict _).2.2.2.1 _).mp hfail⟩

end UnaryLisp
