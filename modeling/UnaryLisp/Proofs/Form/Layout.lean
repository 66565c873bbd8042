import UnaryLisp.Form.Split
import UnaryLisp.Proofs.Text.Trim

/-!
# The layout of a bracket level

A bracket level is laid out as its parts in order, with a gap of separators before, between and
behind them. A part is a word, which is a run of plain characters, or a group, which is a balanced
text in brackets. Gaps may be empty, except that nothing plain follows a word: two words have a
separator between them.

The scan of a level finds the parts of every such layout, and every balanced text has one, so a form
is cut into given parts exactly when it is laid out with them between its brackets. A scan lays a
text out with the parts it finds and stops where the layout ends: with the text, at a closing
bracket that closes nothing, or at an opening bracket that nothing closes.

## Main definitions

* `Text.IsGap`, `Text.IsWord`, `Text.IsGroup`, `Text.IsPart`: what a level consists of.
* `Text.Balanced`: a text whose brackets match.
* `Text.Spread`: a text that is laid out with given parts.
* `Text.Enclosed`: a text that is laid out with given parts between a bracket and a closing one.
* `Level.Ending.At`: what stands where a scan ends.

## Main results

* `Level.scan_append`: the scan of a level finds the parts it is laid out with.
* `Text.Balanced.exists_spread`: a balanced text is laid out with some parts.
* `splitForm_of_enclosed`, `enclosed_of_splitForm`: cutting a bracketed form finds its layout.
* `Level.exists_spread_scan`: the scan of a level lays out the text up to where it ends.
-/

namespace UnaryLisp

namespace Text

/-- A gap consists of separators. -/
def IsGap (t : Text) : Prop :=
  ∀ c ∈ t, isSeparator c

instance (t : Text) : Decidable (IsGap t) :=
  List.decidableBAll (fun c => isSeparator c = true) t

/-- A word is a run of plain characters. -/
def IsWord (t : Text) : Prop :=
  t ≠ [] ∧ ∀ c ∈ t, isPlain c

/-- Every closing bracket closes an opening one before it, and every opening one is closed. -/
inductive Balanced : Text → Prop
  | nil : Balanced []
  | char {c : Char} {t : Text} (ho : isOpener c = false) (hc : isCloser c = false)
      (ht : Balanced t) : Balanced (c :: t)
  | group {o c : Char} {inside t : Text} (ho : isOpener o) (hi : Balanced inside)
      (hc : isCloser c) (ht : Balanced t) : Balanced (o :: (inside ++ c :: t))

/-- A group is a balanced text in brackets. -/
inductive IsGroup : Text → Prop
  | mk {o c : Char} {inside : Text} (ho : isOpener o) (hi : Balanced inside) (hc : isCloser c) :
      IsGroup (o :: (inside ++ [c]))

/-- A part of a level is a word or a group. -/
def IsPart (t : Text) : Prop :=
  IsWord t ∨ IsGroup t

/-- The text starts with a plain character. -/
def StartsPlain (t : Text) : Prop :=
  ∃ c ∈ t.head?, isPlain c

/-- The text is laid out with the parts: they stand in it in order, with gaps around them, and
nothing plain follows a part that is not bracketed. -/
inductive Spread : List Text → Text → Prop
  | nil {gap : Text} (hg : IsGap gap) : Spread [] gap
  | cons {gap part rest : Text} {parts : List Text} (hg : IsGap gap)
      (happ : opens part ∨ ¬ StartsPlain rest) (hr : Spread parts rest) :
      Spread (part :: parts) (gap ++ part ++ rest)

/-- The text is laid out with the parts between the bracket `o` and a closing bracket. -/
inductive Enclosed (o : Char) (parts : List Text) : Text → Prop
  | mk {body : Text} {c : Char} (hb : Spread parts body) (hc : isCloser c) :
      Enclosed o parts (o :: (body ++ [c]))

/-! ### Characters -/

theorem isPlain_iff {c : Char} :
    isPlain c ↔ isOpener c = false ∧ isCloser c = false ∧ isSeparator c = false := by
  simp [isPlain, and_assoc]

theorem not_closer_of_isOpener {c : Char} (h : isOpener c) :
    isCloser c = false ∧ isSeparator c = false := by
  simp only [isOpener, Bool.or_eq_true, beq_iff_eq] at h
  rcases h with rfl | rfl <;> decide

theorem not_opener_of_isCloser {c : Char} (h : isCloser c) :
    isOpener c = false ∧ isSeparator c = false := by
  simp only [isCloser, Bool.or_eq_true, beq_iff_eq] at h
  rcases h with rfl | rfl <;> decide

theorem not_bracket_of_isSeparator {c : Char} (h : isSeparator c) :
    isOpener c = false ∧ isCloser c = false := by
  simp only [isSeparator, Bool.or_eq_true, beq_iff_eq] at h
  rcases h with ((rfl | rfl) | rfl) | rfl <;> decide

theorem startsPlain_iff {t : Text} : StartsPlain t ↔ t.head?.any isPlain := by
  cases t <;> simp [StartsPlain]

instance (t : Text) : Decidable (StartsPlain t) :=
  decidable_of_iff _ startsPlain_iff.symm

@[simp] theorem not_startsPlain_nil : ¬ StartsPlain [] := by
  simp [StartsPlain]

@[simp] theorem startsPlain_cons {c : Char} {t : Text} : StartsPlain (c :: t) ↔ isPlain c := by
  simp [StartsPlain]

theorem not_startsPlain_of_isGap {gap : Text} (hg : IsGap gap) : ¬ StartsPlain gap := by
  cases gap with
  | nil => simp
  | cons c gap => simp [isPlain, hg c (by simp)]

/-- Plain characters are cut off where no plain one follows. -/
theorem cut_plain_append {w t : Text} (hw : ∀ c ∈ w, isPlain c) (ht : ¬ StartsPlain t) :
    (w ++ t).takeWhile isPlain = w ∧ (w ++ t).dropWhile isPlain = t := by
  rw [List.takeWhile_append_of_pos hw, List.dropWhile_append_of_pos hw]
  cases t with
  | nil => simp
  | cons c t => simp_all

theorem isGap_nil : IsGap [] := by
  simp [IsGap]

/-- A part may stand at the very start. -/
theorem Spread.cons_part {part rest : Text} {parts : List Text}
    (happ : opens part ∨ ¬ StartsPlain rest) (hr : Spread parts rest) :
    Spread (part :: parts) (part ++ rest) :=
  .cons isGap_nil happ hr

theorem opens_of_isWord {w : Text} (hw : IsWord w) : opens w = false := by
  cases w with
  | nil => rfl
  | cons c w => exact (isPlain_iff.mp (hw.2 c (by simp))).1

theorem opens_of_isGroup {p : Text} (hp : IsGroup p) : opens p := by
  obtain ⟨ho, -, -⟩ := hp
  exact ho

theorem IsPart.ne_nil {t : Text} (h : IsPart t) : t ≠ [] := by
  rcases h with hword | ⟨-, -, -⟩
  · exact hword.1
  · exact List.cons_ne_nil _ _

/-! ### Balanced texts -/

theorem Balanced.append {a b : Text} (ha : Balanced a) (hb : Balanced b) : Balanced (a ++ b) := by
  induction ha with
  | nil => exact hb
  | char ho hc _ ih => exact .char ho hc ih
  | group ho hi hc _ _ ih =>
    rw [List.cons_append, List.append_assoc]
    exact .group ho hi hc ih

theorem balanced_of_forall {t : Text} (h : ∀ c ∈ t, isOpener c = false ∧ isCloser c = false) :
    Balanced t := by
  induction t with
  | nil => exact .nil
  | cons c t ih =>
    obtain ⟨ho, hc⟩ := h c (by simp)
    exact .char ho hc (ih fun a ha => h a (List.mem_cons_of_mem c ha))

theorem balanced_of_isGap {gap : Text} (hg : IsGap gap) : Balanced gap :=
  balanced_of_forall fun c hc => not_bracket_of_isSeparator (hg c hc)

theorem balanced_of_isPart {p : Text} (hp : IsPart p) : Balanced p := by
  rcases hp with hw | ⟨ho, hi, hc⟩
  · refine balanced_of_forall fun c hc => ?_
    obtain ⟨ho, hc, -⟩ := isPlain_iff.mp (hw.2 c hc)
    exact ⟨ho, hc⟩
  · exact .group ho hi hc .nil

/-- A text that is laid out with parts is balanced. -/
theorem Spread.balanced {parts : List Text} {t : Text} (h : Spread parts t)
    (hp : ∀ p ∈ parts, IsPart p) : Balanced t := by
  induction h with
  | nil hg => exact balanced_of_isGap hg
  | @cons gap part rest parts hg _ _ ih =>
    have hpart : Balanced part := balanced_of_isPart (hp part (by simp))
    have hrest : Balanced rest := ih fun p h => hp p (List.mem_cons_of_mem part h)
    exact ((balanced_of_isGap hg).append hpart).append hrest

theorem untilClosed_cons {depth : Nat} {c : Char} (h : isCloser c = false ∨ depth ≠ 0) (t : Text) :
    untilClosed depth (c :: t) =
      (untilClosed (depthAfter depth c) t).map fun (inside, rest) => (c :: inside, rest) := by
  rw [untilClosed, if_neg]
  rintro ⟨hc, rfl⟩
  simp [hc] at h

/-- Looking for the closing bracket passes over a balanced text. -/
theorem untilClosed_balanced_append {a : Text} (ha : Balanced a) (depth : Nat) (t : Text) :
    untilClosed depth (a ++ t) =
      (untilClosed depth t).map fun (inside, rest) => (a ++ inside, rest) := by
  induction ha generalizing depth t with
  | nil => simp
  | @char c a ho hc _ ih =>
    have hd : depthAfter depth c = depth := by simp [depthAfter, ho, hc]
    rw [List.cons_append, untilClosed_cons (.inl hc), hd, ih, Option.map_map]
    rfl
  | @group o c inside a ho _ hc _ ihi iha =>
    have hoc := (not_closer_of_isOpener ho).1
    have hdo : depthAfter depth o = depth + 1 := by simp [depthAfter, ho]
    have hdc : depthAfter (depth + 1) c = depth := by
      simp [depthAfter, hc, (not_opener_of_isCloser hc).1]
    rw [List.cons_append, List.append_assoc, untilClosed_cons (.inl hoc), hdo, ihi,
      List.cons_append, untilClosed_cons (.inr (Nat.succ_ne_zero depth)), hdc, iha]
    simp [Option.map_map, Function.comp_def]

/-- The bracket behind a balanced text is the one that closes. -/
theorem untilClosed_of_balanced {body : Text} {c : Char} (hb : Balanced body) (hc : isCloser c)
    (rest : Text) : untilClosed 0 (body ++ c :: rest) = some (body ++ [c], rest) := by
  rw [untilClosed_balanced_append hb, untilClosed, if_pos ⟨hc, rfl⟩]
  rfl

/-- What stands before the first closing bracket that is found is balanced; behind it the search
goes on for the remaining brackets. -/
theorem exists_balanced_of_untilClosed {depth : Nat} {t inside rest : Text}
    (h : untilClosed depth t = some (inside, rest)) :
    ∃ body c more, inside = body ++ c :: more ∧ Balanced body ∧ isCloser c ∧
      (depth = 0 → more = []) ∧
      ∀ outer, depth = outer + 1 → untilClosed outer (more ++ rest) = some (more, rest) := by
  induction hn : t.length using Nat.strong_induction_on generalizing depth t inside with
  | _ n ih =>
  subst hn
  cases t with
  | nil => simp [untilClosed] at h
  | cons c t =>
    rw [untilClosed] at h
    split at h
    · next hcd =>
      obtain ⟨rfl, rfl⟩ := Prod.mk.inj (Option.some.inj h)
      exact ⟨[], c, [], rfl, .nil, hcd.1, fun _ => rfl, by omega⟩
    · next hcd =>
      obtain ⟨⟨a, b⟩, hab, he⟩ := Option.map_eq_some_iff.mp h
      obtain ⟨rfl, rfl⟩ := Prod.mk.inj he
      by_cases hc : isCloser c
      · have hd : depthAfter depth c = depth - 1 := by
          simp [depthAfter, hc, (not_opener_of_isCloser hc).1]
        refine ⟨[], c, a, rfl, .nil, hc, fun h0 => absurd ⟨hc, h0⟩ hcd, fun outer ho => ?_⟩
        rw [hd, ho, Nat.add_sub_cancel] at hab
        rw [append_of_untilClosed hab, hab]
      · rw [Bool.not_eq_true] at hc
        obtain ⟨body, c', more, rfl, hbal, hc', hmore, hrest⟩ := ih t.length (by simp) hab rfl
        by_cases ho : isOpener c
        · -- the bracket found first closes `c`; a second search finds the one that was meant
          have hd : depthAfter depth c = depth + 1 := by simp [depthAfter, ho]
          have hnext := hrest depth hd
          have hlt : (more ++ b).length < (c :: t).length := by
            rw [← append_of_untilClosed hab]
            simp
            omega
          obtain ⟨body', c'', more', rfl, hbal', hc'', hmore', hrest'⟩ := ih _ hlt hnext rfl
          exact ⟨c :: (body ++ c' :: body'), c'', more', by simp, .group ho hbal hc' hbal', hc'',
            hmore', hrest'⟩
        · rw [Bool.not_eq_true] at ho
          have hd : depthAfter depth c = depth := by simp [depthAfter, ho, hc]
          rw [hd] at hmore hrest
          exact ⟨c :: body, c', more, rfl, .char ho hc hbal, hc', hmore, hrest⟩

/-! ### Balanced texts are laid out with parts -/

/-- A plain character before a text that is laid out with parts starts a word of its own or goes
with the first of them. -/
theorem Spread.exists_cons_plain {c : Char} {parts : List Text} {t : Text} (hc : isPlain c)
    (h : Spread parts t) (hp : ∀ p ∈ parts, IsPart p) :
    ∃ parts', Spread parts' (c :: t) ∧ ∀ p ∈ parts', IsPart p := by
  by_cases ht : StartsPlain t
  · cases h with
    | nil hg => exact absurd ht (not_startsPlain_of_isGap hg)
    | @cons gap part rest parts hg happ hr =>
      obtain rfl : gap = [] := by
        cases gap with
        | nil => rfl
        | cons a gap => simp [isPlain, hg a (by simp)] at ht
      rcases hp part (by simp) with hw | hgroup
      · have hw' : IsWord (c :: part) := by
          refine ⟨by simp, fun a ha => ?_⟩
          rcases List.mem_cons.mp ha with rfl | ha
          · exact hc
          · exact hw.2 a ha
        refine ⟨(c :: part) :: parts, ?_, ?_⟩
        · refine Spread.cons_part (.inr ?_) hr
          simpa [opens_of_isWord hw] using happ
        · intro p hpm
          rcases List.mem_cons.mp hpm with rfl | hpm
          · exact .inl hw'
          · exact hp p (List.mem_cons_of_mem part hpm)
      · obtain ⟨ho, -, -⟩ := hgroup
        simp [isPlain, ho] at ht
  · refine ⟨[c] :: parts, .cons_part (.inr ht) h, ?_⟩
    intro p hpm
    rcases List.mem_cons.mp hpm with rfl | hpm
    · exact .inl ⟨by simp, by simpa using hc⟩
    · exact hp p hpm

theorem Spread.cons_separator {c : Char} {parts : List Text} {t : Text} (hc : isSeparator c)
    (h : Spread parts t) : Spread parts (c :: t) := by
  have hgap : ∀ {gap : Text}, IsGap gap → IsGap (c :: gap) := by
    intro gap hg a ha
    rcases List.mem_cons.mp ha with rfl | ha
    · exact hc
    · exact hg a ha
  cases h with
  | nil hg => exact .nil (hgap hg)
  | cons hg happ hr => exact .cons (hgap hg) happ hr

/-- A balanced text is laid out with some parts. -/
theorem Balanced.exists_spread {t : Text} (h : Balanced t) :
    ∃ parts, Spread parts t ∧ ∀ p ∈ parts, IsPart p := by
  induction h with
  | nil => exact ⟨[], .nil isGap_nil, by simp⟩
  | @char c t ho hc _ ih =>
    obtain ⟨parts, hs, hp⟩ := ih
    by_cases hsep : isSeparator c
    · exact ⟨parts, hs.cons_separator hsep, hp⟩
    · exact hs.exists_cons_plain (isPlain_iff.mpr ⟨ho, hc, by simpa using hsep⟩) hp
  | @group o c inside t ho hi hc _ _ ih =>
    obtain ⟨parts, hs, hp⟩ := ih
    refine ⟨(o :: (inside ++ [c])) :: parts, ?_, ?_⟩
    · have happ : o :: (inside ++ c :: t) = (o :: (inside ++ [c])) ++ t := by simp
      rw [happ]
      exact .cons_part (.inl ho) hs
    · intro p hpm
      rcases List.mem_cons.mp hpm with rfl | hpm
      · exact .inr ⟨ho, hi, hc⟩
      · exact hp p hpm

/-! ### Parts stand in the text -/

theorem Spread.isInfix {parts : List Text} {t p : Text} (h : Spread parts t) (hp : p ∈ parts) :
    p <:+: t := by
  induction h with
  | nil => contradiction
  | @cons gap part rest parts _ _ _ ih =>
    rcases List.mem_cons.mp hp with rfl | hp
    · exact ⟨gap, rest, rfl⟩
    · exact (ih hp).trans (List.suffix_append _ rest).isInfix

theorem Enclosed.isInfix {o : Char} {parts : List Text} {t p : Text} (h : Enclosed o parts t)
    (hp : p ∈ parts) : p <:+: t := by
  obtain @⟨body, c, hb, -⟩ := h
  exact (hb.isInfix hp).trans ⟨[o], [c], rfl⟩

end Text

/-! ### The scan of a level -/

namespace Level

open Text

theorem scan_gap_append {gap : Text} (hg : IsGap gap) (t : Text) : scan (gap ++ t) = scan t := by
  induction gap with
  | nil => rfl
  | cons c gap ih =>
    rw [List.cons_append, scan, if_pos (hg c (by simp))]
    exact ih fun a ha => hg a (List.mem_cons_of_mem c ha)

theorem scan_word_append {w t : Text} (hw : IsWord w) (ht : ¬ StartsPlain t) :
    scan (w ++ t) = (scan t).cons w := by
  obtain ⟨hne, hall⟩ := hw
  cases w with
  | nil => contradiction
  | cons c w =>
    obtain ⟨ho, hc, hs⟩ := isPlain_iff.mp (hall c (by simp))
    have hw : ∀ a ∈ w, isPlain a := fun a ha => hall a (List.mem_cons_of_mem c ha)
    obtain ⟨htake, hdrop⟩ := cut_plain_append hw ht
    rw [List.cons_append, scan, if_neg (by simp [hs]), if_neg (by simp [hc]), if_neg (by simp [ho]),
      hdrop, htake]

theorem scan_group_append {p : Text} (hp : IsGroup p) (t : Text) :
    scan (p ++ t) = (scan t).cons p := by
  obtain @⟨o, c, inside, ho, hi, hc⟩ := hp
  obtain ⟨hoc, hos⟩ := not_closer_of_isOpener ho
  have happ : (o :: (inside ++ [c])) ++ t = o :: (inside ++ c :: t) := by simp
  rw [happ, scan, if_neg (by simp [hos]), if_neg (by simp [hoc]), if_pos ho]
  have hclosed := untilClosed_of_balanced hi hc t
  split
  · next hn => simp [hclosed] at hn
  · next inside' rest hs =>
    rw [hclosed] at hs
    obtain ⟨rfl, rfl⟩ := Prod.mk.inj (Option.some.inj hs)
    rfl

/-- The scan of a level finds the parts it is laid out with, and goes on behind them. -/
theorem scan_append {parts : List Text} {body tail : Text} (h : Spread parts body)
    (hp : ∀ p ∈ parts, IsPart p) (ht : ¬ StartsPlain tail) :
    scan (body ++ tail) = ⟨parts ++ (scan tail).parts, (scan tail).ending⟩ := by
  induction h with
  | nil hg => exact scan_gap_append hg tail
  | @cons gap part rest parts hg happ _ ih =>
    have ih := ih fun p h => hp p (List.mem_cons_of_mem part h)
    rw [List.append_assoc, List.append_assoc, scan_gap_append hg]
    rcases hp part (by simp) with hw | hgroup
    · have hrest : ¬ StartsPlain (rest ++ tail) := by
        have hr : ¬ StartsPlain rest := by simpa [opens_of_isWord hw] using happ
        cases rest with
        | nil => exact ht
        | cons c rest => simpa using hr
      rw [scan_word_append hw hrest, ih]
      rfl
    · rw [scan_group_append hgroup, ih]
      rfl

theorem parts_scan_append_closer {parts : List Text} {body : Text} {c : Char}
    (h : Spread parts body) (hp : ∀ p ∈ parts, IsPart p) (hc : isCloser c) :
    (scan (body ++ [c])).parts = parts := by
  obtain ⟨hco, hcs⟩ := not_opener_of_isCloser hc
  have hend : scan [c] = ⟨[], .closed c []⟩ := by
    rw [scan, if_neg (by simp [hcs]), if_pos hc]
  rw [scan_append h hp (by simp [isPlain, hc]), hend]
  simp

end Level

/-! ### Cutting a form -/

open Text

theorem splitForm_trim (text : Text) : splitForm (trim text) = splitForm text := by
  rw [splitForm, splitForm, trim_trim]

/-- A text that starts with a bracket is cut as the group that it opens. -/
theorem splitForm_of_opener {text cs : Text} {o : Char} (ht : trim text = o :: cs)
    (ho : isOpener o) : splitForm text = splitGroup o cs := by
  rw [splitForm, ht]
  exact if_pos ho

theorem bare_of_enclosed {o : Char} {parts : List Text} {t : Text} (ho : isOpener o)
    (h : Enclosed o parts t) : Bare t := by
  obtain ⟨_, hc⟩ := h
  exact bare_of_brackets ho hc _

theorem isGroup_of_enclosed {o : Char} {parts : List Text} {t : Text} (ho : isOpener o)
    (h : Enclosed o parts t) (hp : ∀ p ∈ parts, IsPart p) : IsGroup t := by
  obtain ⟨hb, hc⟩ := h
  exact ⟨ho, hb.balanced hp, hc⟩

/-- A form is cut into the parts that it is laid out with between its brackets. -/
theorem splitForm_of_enclosed {o : Char} {parts : List Text} {t : Text} (ho : isOpener o)
    (h : Enclosed o parts t) (hp : ∀ p ∈ parts, IsPart p) : splitForm t = .ok parts := by
  have hbare := bare_of_enclosed ho h
  obtain @⟨body, c, hb, hc⟩ := h
  rw [splitForm_of_opener (trim_eq_self hbare) ho, splitGroup,
    untilClosed_of_balanced (hb.balanced hp) hc []]
  simp only [trimStart_nil, Level.parts_scan_append_closer hb hp hc]

/-- A bracketed form that is cut into parts is laid out with them between its brackets. -/
theorem enclosed_of_splitForm {o : Char} {parts : List Text} {text : Text} (ho : isOpener o)
    (hhead : (trim text).head? = some o) (h : splitForm text = .ok parts) :
    Enclosed o parts (trim text) ∧ ∀ p ∈ parts, IsPart p := by
  have hbare := bare_trim text
  rw [splitForm] at h
  generalize trim text = t at *
  cases t with
  | nil => simp at hhead
  | cons a t =>
    obtain rfl := Option.some.inj hhead
    simp only [if_pos ho, splitGroup] at h
    split at h
    · contradiction
    · next inside rest hclosed =>
      split at h
      · next hrest =>
        obtain rfl := Except.ok.inj h
        obtain ⟨body, c, more, rfl, hbal, hc, hmore, -⟩ := exists_balanced_of_untilClosed hclosed
        obtain rfl := hmore rfl
        obtain ⟨parts, hs, hp⟩ := hbal.exists_spread
        rw [Level.parts_scan_append_closer hs hp hc]
        -- nothing stands behind the closing bracket, as the text ends with no blank
        rw [← append_of_untilClosed hclosed, ← List.cons_append] at hbare
        obtain rfl := hbare.eq_nil_of_isBlank (List.dropWhile_eq_nil_iff.mp hrest)
        rw [← append_of_untilClosed hclosed, List.append_nil]
        exact ⟨⟨hs, hc⟩, hp⟩
      · contradiction

/-- A text that does not start with a bracket is cut, if at all, into itself. -/
theorem isWord_of_splitWord {t : Text} {parts : List Text} (hne : t ≠ [])
    (h : splitWord t = .ok parts) : IsWord t ∧ parts = [t] := by
  simp only [splitWord] at h
  split at h
  · next hplain =>
    exact ⟨⟨hne, List.dropWhile_eq_nil_iff.mp hplain⟩, (Except.ok.inj h).symm⟩
  · split at h <;> contradiction

/-- A form is cut into words and groups, and these stand in it. -/
theorem isPart_of_splitForm {text p : Text} {parts : List Text} (h : splitForm text = .ok parts)
    (hp : p ∈ parts) : IsPart p ∧ p <:+: text := by
  cases htrim : trim text with
  | nil => simp [splitForm, htrim] at h
  | cons c cs =>
    by_cases ho : isOpener c
    · obtain ⟨henc, hparts⟩ := enclosed_of_splitForm ho (by rw [htrim]; rfl) h
      exact ⟨hparts p hp, (henc.isInfix hp).trans (trim_isInfix text)⟩
    · rw [splitForm, htrim] at h
      simp only [if_neg ho] at h
      obtain ⟨hword, rfl⟩ := isWord_of_splitWord (List.cons_ne_nil c cs) h
      obtain rfl := List.mem_singleton.mp hp
      exact ⟨.inl hword, htrim ▸ trim_isInfix text⟩

/-- A group can be cut. -/
theorem exists_splitForm_of_isGroup {t : Text} (h : IsGroup t) :
    ∃ parts, splitForm t = .ok parts := by
  obtain ⟨ho, hi, hc⟩ := h
  obtain ⟨parts, hspread, hparts⟩ := hi.exists_spread
  exact ⟨parts, splitForm_of_enclosed ho ⟨hspread, hc⟩ hparts⟩

/-- Nothing is wrong with a part but that it may consist of blanks. -/
theorem eq_empty_of_splitForm {t : Text} {cause : SyntaxError} (ht : IsPart t)
    (h : splitForm t = .error cause) : cause = .empty := by
  rcases ht with hword | hgroup
  · cases htrim : trim t with
    | nil =>
      rw [splitForm, htrim] at h
      exact (Except.error.inj h).symm
    | cons c cs =>
      have hplain (a) (ha : a ∈ c :: cs) : isPlain a := hword.2 a (mem_of_mem_trim (htrim ▸ ha))
      have hopener : ¬ isOpener c := by simp [(isPlain_iff.mp (hplain c List.mem_cons_self)).1]
      rw [splitForm, htrim] at h
      simp only [if_neg hopener, splitWord, List.dropWhile_eq_nil_iff.mpr hplain] at h
      contradiction
  · obtain ⟨parts, hs⟩ := exists_splitForm_of_isGroup hgroup
    rw [hs] at h
    contradiction

/-! ### Where the scan of a level ends -/

/-- The text is what stands where the scan of a level ends. -/
inductive Level.Ending.At : Level.Ending → Text → Prop
  | done : At .done []
  | closed {c : Char} {rest : Text} (hc : isCloser c) : At (.closed c rest) (c :: rest)
  | unclosed {o : Char} {rest : Text} (ho : isOpener o) (h : untilClosed 0 rest = none) :
      At (.unclosed (o :: rest)) (o :: rest)

theorem Text.isGroup_of_untilClosed {o : Char} {t inside rest : Text} (ho : isOpener o)
    (h : untilClosed 0 t = some (inside, rest)) : IsGroup (o :: inside) := by
  obtain ⟨body, c, more, rfl, hbal, hc, hmore, -⟩ := exists_balanced_of_untilClosed h
  obtain rfl := hmore rfl
  exact ⟨ho, hbal, hc⟩

theorem Text.cons_eq_append_of_untilClosed {o : Char} {t inside rest : Text}
    (h : untilClosed 0 t = some (inside, rest)) : o :: t = (o :: inside) ++ rest := by
  rw [List.cons_append, append_of_untilClosed h]

/-- What follows the plain characters at the start of a text does not start with one. -/
theorem Text.not_startsPlain_of_dropWhile {t body tail : Text}
    (h : t.dropWhile isPlain = body ++ tail) : ¬ StartsPlain body := by
  rintro ⟨a, ha, hplain⟩
  have hhead : (t.dropWhile isPlain).head? = some a := by
    rw [h, List.head?_append, Option.mem_def.mp ha]
    rfl
  have hnot := List.head?_dropWhile_not isPlain t
  simp [hhead, hplain] at hnot

/-- A plain character starts a word, and what follows the word does not go on with it. -/
theorem Text.isWord_cons_takeWhile {c : Char} (cs : Text) (hs : ¬ isSeparator c) (ho : ¬ isOpener c)
    (hc : ¬ isCloser c) :
    IsWord (c :: cs.takeWhile isPlain) ∧ ¬ StartsPlain (cs.dropWhile isPlain) ∧
      c :: cs = (c :: cs.takeWhile isPlain) ++ cs.dropWhile isPlain := by
  have hplain : isPlain c :=
    isPlain_iff.mpr ⟨by simpa using ho, by simpa using hc, by simpa using hs⟩
  refine ⟨⟨List.cons_ne_nil _ _, ?_⟩, ?_, ?_⟩
  · exact List.forall_mem_cons.mpr ⟨hplain, fun a ha => List.mem_takeWhile_imp ha⟩
  · exact not_startsPlain_of_dropWhile (List.append_nil _).symm
  · rw [List.cons_append, List.takeWhile_append_dropWhile]

/-- The scan of a level lays out the text with the parts it finds, up to where it ends. -/
theorem Level.exists_spread_scan (t : Text) :
    ∃ body tail, t = body ++ tail ∧ Spread (scan t).parts body ∧
      (∀ p ∈ (scan t).parts, IsPart p) ∧ (scan t).ending.At tail := by
  fun_induction scan t with
  | case1 => exact ⟨[], [], rfl, .nil isGap_nil, by simp, .done⟩
  | case2 c cs hsep ih =>
    obtain ⟨body, tail, rfl, hspread, hparts, hend⟩ := ih
    exact ⟨c :: body, tail, rfl, hspread.cons_separator hsep, hparts, hend⟩
  | case3 c cs _ hc => exact ⟨[], c :: cs, rfl, .nil isGap_nil, by simp, .closed hc⟩
  | case4 c cs _ _ ho hnone => exact ⟨[], c :: cs, rfl, .nil isGap_nil, by simp, .unclosed ho hnone⟩
  | case5 c cs _ _ ho inside rest hclosed ih =>
    obtain ⟨body, tail, hrest, hspread, hparts, hend⟩ := ih
    refine ⟨(c :: inside) ++ body, tail, ?_, .cons_part (.inl ho) hspread, ?_, hend⟩
    · rw [← append_of_untilClosed hclosed, hrest]
      simp
    · exact List.forall_mem_cons.mpr ⟨.inr (isGroup_of_untilClosed ho hclosed), hparts⟩
  | case6 c cs hsep hc ho ih =>
    obtain ⟨body, tail, hrest, hspread, hparts, hend⟩ := ih
    obtain ⟨hword, -, hcut⟩ := isWord_cons_takeWhile cs hsep ho hc
    have hnot : ¬ StartsPlain body := not_startsPlain_of_dropWhile hrest
    refine ⟨(c :: cs.takeWhile isPlain) ++ body, tail, ?_, .cons_part (.inr hnot) hspread, ?_, hend⟩
    · rw [List.append_assoc, ← hrest, ← hcut]
    · exact List.forall_mem_cons.mpr ⟨.inl hword, hparts⟩

end UnaryLisp
