import UnaryLisp.Proofs.Form.Bracketing

/-!
# Bracket depth

The depth of a text is how many more brackets it opens than it closes. The brackets of a text match
when no prefix of it closes more than it opens and the whole of it closes as many as it opens; a
group is a text that starts with an opening bracket and comes back to depth zero behind its last
character, and nowhere before.

The search for the bracket that closes an open one counts in natural numbers, where taking one off
zero would change nothing. It ends before it comes to that: what it counts is the depth of what it
has read.

## Main definitions

* `Text.depth`: how many more brackets a text opens than it closes.
* `Text.ClosesWithin`: a text that closes no more brackets than are open.
* `Text.ClosedAtEnd`: a text whose first bracket is closed by its last character.
* `Text.ComesTo`: the steps of the search for a closing bracket.

## Main results

* `Text.balanced_iff`: brackets match when the depth stays at least zero and ends with zero.
* `Text.isGroup_iff_closedAtEnd`: a group is closed at its end.
* `Text.ComesTo.exists_read`: the search counts the brackets that it has read.
-/

namespace UnaryLisp

namespace Text

/-- How many more brackets a text opens than it closes. -/
def depth (t : Text) : Int :=
  t.countP isOpener - t.countP isCloser

/-- Behind `k` open brackets, the text closes none that is not open. -/
def ClosesWithin (k : Int) (t : Text) : Prop :=
  ∀ q, q <+: t → 0 ≤ k + depth q

/-- The text starts with an opening bracket, and its depth is zero again behind its last character
and nowhere before. -/
structure ClosedAtEnd (p : Text) : Prop where
  opens : opens p
  depth_eq : depth p = 0
  depth_ne : ∀ q, q <+: p → q ≠ [] → q ≠ p → depth q ≠ 0

/-- The search for the bracket that closes the last of `d + 1` open ones comes from `t` to `rest`,
where `e + 1` are open. -/
inductive ComesTo (d : Nat) (t : Text) : Nat → Text → Prop
  | refl : ComesTo d t d t
  | next {e : Nat} {c : Char} {rest : Text} (h : ComesTo d t e (c :: rest))
      (hgo : ¬ (isCloser c ∧ e = 0)) : ComesTo d t (depthAfter e c) rest

/-! ### Counting brackets -/

@[simp] theorem depth_nil : depth [] = 0 := rfl

@[simp] theorem depth_append (a b : Text) : depth (a ++ b) = depth a + depth b := by
  simp only [depth, List.countP_append]
  omega

theorem depth_cons (c : Char) (t : Text) : depth (c :: t) = depth [c] + depth t :=
  depth_append [c] t

theorem depth_opener {c : Char} (h : isOpener c) : depth [c] = 1 := by
  simp [depth, h, (not_closer_of_isOpener h).1]

theorem depth_closer {c : Char} (h : isCloser c) : depth [c] = -1 := by
  simp [depth, h, (not_opener_of_isCloser h).1]

theorem depth_of_not_bracket {c : Char} (ho : isOpener c = false) (hc : isCloser c = false) :
    depth [c] = 0 := by
  simp [depth, ho, hc]

/-- Behind a character the depth is that of the character more, unless the count would go below
zero. -/
theorem depthAfter_eq {d : Nat} {c : Char} (h : ¬ (isCloser c ∧ d = 0)) :
    (depthAfter d c : Int) = d + depth [c] := by
  by_cases ho : isOpener c
  · simp [depthAfter, ho, depth_opener ho]
  · by_cases hc : isCloser c
    · have hd : d ≠ 0 := fun hd => h ⟨hc, hd⟩
      simp only [depthAfter, ho, hc, depth_closer hc]
      simp only [Bool.false_eq_true, if_false, if_true]
      omega
    · rw [depth_of_not_bracket (by simpa using ho) (by simpa using hc)]
      simp [depthAfter, ho, hc]

/-! ### Texts that close what is open -/

variable {k : Int} {a b t : Text} {c : Char}

theorem ClosesWithin.le_depth (h : ClosesWithin k t) : 0 ≤ k + depth t :=
  h t List.prefix_rfl

theorem ClosesWithin.mono {k' : Int} (h : ClosesWithin k t) (hk : k ≤ k') : ClosesWithin k' t := by
  intro q hq
  have := h q hq
  omega

@[simp] theorem closesWithin_nil : ClosesWithin k [] ↔ 0 ≤ k := by
  simp [ClosesWithin]

theorem closesWithin_cons :
    ClosesWithin k (c :: t) ↔ 0 ≤ k ∧ ClosesWithin (k + depth [c]) t := by
  constructor
  · intro h
    have hnil := h [] List.nil_prefix
    refine ⟨by simpa using hnil, fun q hq => ?_⟩
    have hcons := h (c :: q) (List.cons_prefix_cons.mpr ⟨rfl, hq⟩)
    rw [depth_cons] at hcons
    omega
  · rintro ⟨hk, ht⟩ q hq
    rcases List.prefix_cons_iff.mp hq with rfl | ⟨r, rfl, hr⟩
    · simpa using hk
    · have := ht r hr
      rw [depth_cons]
      omega

theorem closesWithin_append :
    ClosesWithin k (a ++ b) ↔ ClosesWithin k a ∧ ClosesWithin (k + depth a) b := by
  induction a generalizing k with
  | nil =>
    simp only [List.nil_append, closesWithin_nil, depth_nil, Int.add_zero]
    exact ⟨fun h => ⟨by simpa using h [] List.nil_prefix, h⟩, fun h => h.2⟩
  | cons c a ih =>
    rw [List.cons_append, closesWithin_cons, closesWithin_cons, ih, and_assoc, depth_cons c a,
      Int.add_assoc]

/-- A closing bracket at depth zero closes nothing. -/
theorem not_closesWithin_closer (ha : depth a = 0) (hc : isCloser c) (b : Text) :
    ¬ ClosesWithin 0 (a ++ c :: b) := by
  intro h
  have hneg := (closesWithin_cons.mp (closesWithin_append.mp h).2).2 [] List.nil_prefix
  rw [ha, depth_closer hc] at hneg
  simp at hneg

/-- Nothing is found to close the open brackets exactly when no more are closed than are open
behind the last of them. -/
theorem untilClosed_eq_none_iff_closesWithin {d : Nat} :
    untilClosed d t = none ↔ ClosesWithin d t := by
  induction t generalizing d with
  | nil => simp [untilClosed]
  | cons c t ih =>
    rw [untilClosed, closesWithin_cons]
    split
    · next hclose =>
      obtain ⟨hc, rfl⟩ := hclose
      refine ⟨fun h => by contradiction, fun h => ?_⟩
      exact absurd (closesWithin_cons.mpr h) (not_closesWithin_closer depth_nil hc t)
    · next hgo =>
      rw [Option.map_eq_none_iff, ih, depthAfter_eq hgo]
      exact ⟨fun h => ⟨Int.natCast_nonneg d, h⟩, fun h => h.2⟩

/-! ### Balanced texts -/

theorem Balanced.depth_eq (h : Balanced t) : depth t = 0 := by
  induction h with
  | nil => rfl
  | @char c t ho hc _ ih => rw [depth_cons, depth_of_not_bracket ho hc, ih, Int.add_zero]
  | @group o c inside t ho _ hc _ ihi iht =>
    rw [depth_cons, depth_append, depth_cons c, depth_opener ho, depth_closer hc, ihi, iht]
    rfl

theorem Balanced.closesWithin (h : Balanced t) (hk : 0 ≤ k) : ClosesWithin k t := by
  induction h generalizing k with
  | nil => exact closesWithin_nil.mpr hk
  | @char c t ho hc _ ih =>
    refine closesWithin_cons.mpr ⟨hk, ih ?_⟩
    rwa [depth_of_not_bracket ho hc, Int.add_zero]
  | @group o c inside t ho hi hc _ ihi iht =>
    refine closesWithin_cons.mpr ⟨hk, closesWithin_append.mpr ⟨ihi ?_, ?_⟩⟩
    · rw [depth_opener ho]
      omega
    · rw [hi.depth_eq, depth_opener ho, closesWithin_cons, depth_closer hc]
      exact ⟨by omega, iht (by omega)⟩

/-- Brackets match when no prefix closes more of them than it opens, and the whole text closes as
many as it opens. -/
theorem balanced_iff : Balanced t ↔ ClosesWithin 0 t ∧ depth t = 0 := by
  refine ⟨fun h => ⟨h.closesWithin (Int.le_refl 0), h.depth_eq⟩, ?_⟩
  rintro ⟨hwithin, hdepth⟩
  obtain ⟨body, tail, rfl, hspread, hparts, hend⟩ := Level.exists_spread_scan t
  have hbal : Balanced body := hspread.balanced hparts
  generalize (Level.scan (body ++ tail)).ending = ending at hend
  -- a scan that ends before the text does has found a bracket that matches nothing
  cases hend with
  | done => rwa [List.append_nil]
  | @closed c rest hc => exact absurd hwithin (not_closesWithin_closer hbal.depth_eq hc rest)
  | @unclosed o rest ho hnone =>
    have hrest : 0 ≤ 0 + depth rest := (untilClosed_eq_none_iff_closesWithin.mp hnone).le_depth
    rw [depth_append, hbal.depth_eq, depth_cons, depth_opener ho] at hdepth
    omega

/-! ### Groups -/

theorem IsGroup.closedAtEnd {p : Text} (h : IsGroup p) : ClosedAtEnd p := by
  obtain @⟨o, c, inside, ho, hi, hc⟩ := h
  refine ⟨ho, ?_, fun q hq hne hne' => ?_⟩
  · rw [depth_cons, depth_append, depth_opener ho, depth_closer hc, hi.depth_eq]
    rfl
  · rw [← List.cons_append] at hq hne'
    rcases List.prefix_cons_iff.mp ((List.prefix_concat_iff.mp hq).resolve_left hne') with
      rfl | ⟨r, rfl, hr⟩
    · contradiction
    · have := hi.closesWithin (Int.le_refl 0) r hr
      rw [depth_cons, depth_opener ho]
      omega

/-- Nothing closes a bracket exactly when the depth behind it never comes back to zero. -/
theorem untilClosed_eq_none_iff_depth_ne {o : Char} (ho : isOpener o) :
    untilClosed 0 t = none ↔ ∀ q, q <+: o :: t → q ≠ [] → depth q ≠ 0 := by
  constructor
  · intro h q hq hne
    rcases List.prefix_cons_iff.mp hq with rfl | ⟨r, rfl, hr⟩
    · contradiction
    · have hdepth : 0 ≤ 0 + depth r := untilClosed_eq_none_iff_closesWithin.mp h r hr
      rw [depth_cons, depth_opener ho]
      omega
  · intro h
    cases hclosed : untilClosed 0 t with
    | none => rfl
    | some found =>
      obtain ⟨inside, rest⟩ := found
      have hgroup : IsGroup (o :: inside) := isGroup_of_untilClosed ho hclosed
      exact absurd hgroup.closedAtEnd.depth_eq
        (h _ ⟨rest, (cons_eq_append_of_untilClosed hclosed).symm⟩ (List.cons_ne_nil _ _))

theorem ClosedAtEnd.isGroup {p : Text} (h : ClosedAtEnd p) : IsGroup p := by
  obtain ⟨ho, hdepth, hne⟩ := h
  cases p with
  | nil => contradiction
  | cons o t =>
    cases hclosed : untilClosed 0 t with
    | none =>
      exact absurd hdepth ((untilClosed_eq_none_iff_depth_ne ho).mp hclosed _ List.prefix_rfl
        (List.cons_ne_nil _ _))
    | some found =>
      obtain ⟨inside, rest⟩ := found
      have hgroup : IsGroup (o :: inside) := isGroup_of_untilClosed ho hclosed
      -- the group that the bracket opens comes back to depth zero, which only the whole text does
      by_contra hnot
      refine hne (o :: inside) ⟨rest, (cons_eq_append_of_untilClosed hclosed).symm⟩
        (List.cons_ne_nil _ _) (fun heq => ?_) hgroup.closedAtEnd.depth_eq
      exact hnot (heq ▸ hgroup)

/-- A group is a text whose first bracket is closed by its last character. -/
theorem isGroup_iff_closedAtEnd {p : Text} : IsGroup p ↔ ClosedAtEnd p :=
  ⟨IsGroup.closedAtEnd, ClosedAtEnd.isGroup⟩

/-! ### The count of the search -/

/-- Wherever the search for a closing bracket comes to, it goes on as it would from there, and its
count is the depth of what it has read. -/
theorem ComesTo.exists_read {d e : Nat} {rest : Text} (h : ComesTo d t e rest) :
    ∃ read, t = read ++ rest ∧ (e : Int) = d + depth read ∧
      untilClosed d t = (untilClosed e rest).map (Prod.map (read ++ ·) id) := by
  induction h with
  | refl => exact ⟨[], rfl, by simp, Option.map_id'.symm⟩
  | @next e c rest _ hgo ih =>
    obtain ⟨read, rfl, hdepth, hsearch⟩ := ih
    refine ⟨read ++ [c], by simp, ?_, ?_⟩
    · rw [depthAfter_eq hgo, hdepth, depth_append, Int.add_assoc]
    · rw [hsearch, untilClosed, if_neg hgo, Option.map_map]
      refine Option.map_congr ?_
      rintro ⟨inside, after⟩ -
      simp

end Text

end UnaryLisp
