import Mathlib.Data.List.Chain
import UnaryLisp.Proofs.Form.Depth
import UnaryLisp.Proofs.Form.Sequence

/-!
# Arrangements of parts

An arrangement is all that stands at one bracket level: the parts and, before, between and behind
them, the gaps. Its text is what these give when they are put one behind the other, and no other
arrangement has the same text. Cutting a bracketed form finds the arrangement between its brackets,
so nothing but separators and the two brackets is left out of the parts, and the parts stand in the
form as they are.

## Main definitions

* `Arrangement`: parts with the gaps around them.
* `Arrangement.parts`, `Arrangement.text`: the parts alone, and all of it one behind the other.

## Main results

* `Arrangement.spread`, `Text.Spread.exists_arrangement`: a text is laid out with given parts when
  it is that of an arrangement of them.
* `Arrangement.eq_of_text_eq`: a text has one arrangement at most.
* `splitForm_eq_ok_iff_arrangement`: a form is cut into the parts that are arranged between its
  brackets.
-/

namespace UnaryLisp

open Text

/-- The parts of a bracket level in order, with the gaps before, between and behind them. A part is
a word or is closed at its end; two words have a separator between them. -/
@[ext] structure Arrangement where
  /-- The gap before the first part. -/
  lead : Text
  /-- The parts, each with the gap behind it. -/
  items : List (Text × Text)
  lead_isGap : IsGap lead
  isGap : ∀ item ∈ items, IsGap item.2
  isPart : ∀ item ∈ items, IsWord item.1 ∨ ClosedAtEnd item.1
  apart : items.IsChain fun item next => IsWord item.1 → IsWord next.1 → item.2 ≠ []

/-- Parts and the gaps behind them, put one behind the other. -/
def Text.ofItems (items : List (Text × Text)) : Text :=
  items.flatMap fun item => item.1 ++ item.2

namespace Arrangement

/-- The parts of an arrangement. -/
def parts (a : Arrangement) : List Text :=
  a.items.map Prod.fst

/-- The text that is arranged. -/
def text (a : Arrangement) : Text :=
  a.lead ++ ofItems a.items

end Arrangement

/-! ### Where parts and gaps begin -/

namespace Text

variable {gap gap' s s' p : Text}

/-- No part starts with a separator. -/
theorem isSeparator_of_isPart (hp : IsPart p) (t : Text) :
    ∀ c ∈ (p ++ t).head?, isSeparator c = false := by
  intro c hc
  rcases hp with ⟨hne, hplain⟩ | ⟨ho, -, -⟩
  · cases p with
    | nil => contradiction
    | cons a p =>
      obtain rfl := Option.some.inj hc
      exact (isPlain_iff.mp (hplain a List.mem_cons_self)).2.2
  · obtain rfl := Option.some.inj hc
    exact (not_closer_of_isOpener ho).2

/-- A gap ends where something else begins. -/
theorem takeWhile_gap_append (hg : IsGap gap) (hs : ∀ c ∈ s.head?, isSeparator c = false) :
    (gap ++ s).takeWhile isSeparator = gap := by
  rw [List.takeWhile_append_of_pos hg]
  cases s with
  | nil => simp
  | cons c s => simp [hs c rfl]

theorem gap_append_inj (hg : IsGap gap) (hg' : IsGap gap')
    (hs : ∀ c ∈ s.head?, isSeparator c = false) (hs' : ∀ c ∈ s'.head?, isSeparator c = false)
    (h : gap ++ s = gap' ++ s') : gap = gap' ∧ s = s' := by
  have hgap : gap = gap' := by
    rw [← takeWhile_gap_append hg hs, h, takeWhile_gap_append hg' hs']
  subst hgap
  exact ⟨rfl, List.append_cancel_left h⟩

theorem isPart_iff : IsPart p ↔ IsWord p ∨ ClosedAtEnd p :=
  or_congr_right isGroup_iff_closedAtEnd

@[simp] theorem ofItems_nil : ofItems [] = [] := rfl

@[simp] theorem ofItems_cons (item : Text × Text) (items : List (Text × Text)) :
    ofItems (item :: items) = item.1 ++ (item.2 ++ ofItems items) := by
  simp [ofItems]

theorem not_startsPlain_of_opens (hp : opens p) (t : Text) : ¬ StartsPlain (p ++ t) := by
  cases p with
  | nil => contradiction
  | cons o p =>
    rw [opens_cons] at hp
    simp [isPlain, hp]

theorem startsPlain_of_isWord (hp : IsWord p) (t : Text) : StartsPlain (p ++ t) := by
  obtain ⟨hne, hplain⟩ := hp
  cases p with
  | nil => contradiction
  | cons c p => exact startsPlain_cons.mpr (hplain c List.mem_cons_self)

/-- Nothing plain follows the gap behind a word. -/
theorem not_startsPlain_ofItems {items : List (Text × Text)} (hg : IsGap gap)
    (hp : ∀ item ∈ items, IsWord item.1 ∨ ClosedAtEnd item.1)
    (hne : ∀ next ∈ items.head?, IsWord next.1 → gap ≠ []) :
    ¬ StartsPlain (gap ++ ofItems items) := by
  by_cases hgap : gap = []
  · subst hgap
    cases items with
    | nil => simp
    | cons next items =>
      have hclosed := (hp next List.mem_cons_self).resolve_left fun hw => hne next rfl hw rfl
      rw [List.nil_append, ofItems_cons]
      exact not_startsPlain_of_opens hclosed.opens _
  · exact not_startsPlain_gap_append hg hgap _

end Text

/-! ### Arrangements and layouts -/

namespace Arrangement

theorem isPart_of_mem_parts {a : Arrangement} {p : Text} (hp : p ∈ a.parts) : IsPart p := by
  obtain ⟨item, hitem, rfl⟩ := List.mem_map.mp hp
  exact isPart_iff.mpr (a.isPart item hitem)

/-- The text of an arrangement is laid out with its parts. -/
theorem spread (a : Arrangement) : Spread a.parts a.text := by
  obtain ⟨lead, items, hlead, hgap, hpart, hapart⟩ := a
  change Spread (items.map Prod.fst) (lead ++ ofItems items)
  induction items generalizing lead with
  | nil =>
    rw [ofItems_nil, List.append_nil]
    exact .nil hlead
  | cons item items ih =>
    obtain ⟨hnext, hapart⟩ := List.isChain_cons.mp hapart
    have hrest : ∀ next ∈ items, IsWord next.1 ∨ ClosedAtEnd next.1 :=
      fun next h => hpart next (List.mem_cons_of_mem item h)
    have hitem : IsGap item.2 := hgap item List.mem_cons_self
    rw [List.map_cons, ofItems_cons, ← List.append_assoc]
    refine .cons hlead ?_
      (ih item.2 hitem (fun next h => hgap next (List.mem_cons_of_mem item h)) hrest hapart)
    rcases hpart item List.mem_cons_self with hword | hclosed
    · exact .inr (not_startsPlain_ofItems hitem hrest fun next h hw => hnext next h hword hw)
    · exact .inl hclosed.opens

end Arrangement

/-- A text that is laid out with parts is that of an arrangement of them. -/
theorem Text.Spread.exists_arrangement {parts : List Text} {t : Text} (h : Spread parts t)
    (hp : ∀ p ∈ parts, IsPart p) : ∃ a : Arrangement, a.parts = parts ∧ a.text = t := by
  induction h with
  | @nil gap hg =>
    exact ⟨⟨gap, [], hg, by simp, by simp, .nil⟩, rfl, List.append_nil gap⟩
  | @cons gap part rest parts hg happ _ ih =>
    obtain ⟨a, rfl, rfl⟩ := ih fun p h => hp p (List.mem_cons_of_mem part h)
    have hpart : IsPart part := hp part List.mem_cons_self
    refine ⟨⟨gap, (part, a.lead) :: a.items, hg, ?_, ?_, ?_⟩, rfl, ?_⟩
    · exact List.forall_mem_cons.mpr ⟨a.lead_isGap, a.isGap⟩
    · exact List.forall_mem_cons.mpr ⟨isPart_iff.mp hpart, a.isPart⟩
    · refine List.isChain_cons.mpr ⟨fun next hnext hword hword' hlead => ?_, a.apart⟩
      -- without a gap the next word would go on with this one
      change a.lead = [] at hlead
      have hnot : ¬ StartsPlain a.text := happ.resolve_left (by simp [opens_of_isWord hword])
      obtain ⟨items, hitems⟩ := List.head?_eq_some_iff.mp hnext
      rw [Arrangement.text, hlead, hitems, List.nil_append, ofItems_cons] at hnot
      exact hnot (startsPlain_of_isWord hword' _)
    · simp [Arrangement.text]

namespace Arrangement

/-- The same parts with other gaps around them give another text. -/
theorem items_eq_of_append_eq {lead lead' : Text} {items items' : List (Text × Text)}
    (hlead : IsGap lead) (hlead' : IsGap lead') (hgap : ∀ item ∈ items, IsGap item.2)
    (hgap' : ∀ item ∈ items', IsGap item.2) (hpart : ∀ item ∈ items, IsPart item.1)
    (hfst : items.map Prod.fst = items'.map Prod.fst)
    (h : lead ++ ofItems items = lead' ++ ofItems items') : lead = lead' ∧ items = items' := by
  induction items generalizing lead lead' items' with
  | nil =>
    obtain rfl : items' = [] := List.map_eq_nil_iff.mp hfst.symm
    exact ⟨by simpa using h, rfl⟩
  | cons item items ih =>
    obtain ⟨item', items', rfl, hpart', hfst⟩ := List.map_eq_cons_iff.mp hfst.symm
    have hitem : IsPart item.1 := hpart item List.mem_cons_self
    rw [ofItems_cons, ofItems_cons, hpart'] at h
    obtain ⟨rfl, hrest⟩ := gap_append_inj hlead hlead' (isSeparator_of_isPart hitem _)
      (isSeparator_of_isPart hitem _) h
    obtain ⟨hsnd, rfl⟩ := ih (hgap item List.mem_cons_self) (hgap' item' List.mem_cons_self)
      (fun next h => hgap next (List.mem_cons_of_mem item h))
      (fun next h => hgap' next (List.mem_cons_of_mem item' h))
      (fun next h => hpart next (List.mem_cons_of_mem item h)) hfst.symm
      (List.append_cancel_left hrest)
    exact ⟨rfl, congrArg (· :: items) (Prod.ext hpart'.symm hsnd)⟩

/-- A text has one arrangement at most. -/
theorem eq_of_text_eq {a b : Arrangement} (h : a.text = b.text) : a = b := by
  have hcut (a : Arrangement) : splitProgram a.text = .ok a.parts :=
    splitProgram_eq_ok_iff.mpr ⟨a.spread, fun p => isPart_of_mem_parts⟩
  have hparts : a.parts = b.parts := by
    have ha := hcut a
    rw [h, hcut b] at ha
    exact (Except.ok.inj ha).symm
  obtain ⟨hlead, hitems⟩ := items_eq_of_append_eq a.lead_isGap b.lead_isGap a.isGap b.isGap
    (fun item hitem => isPart_iff.mpr (a.isPart item hitem)) hparts h
  exact Arrangement.ext hlead hitems

end Arrangement

/-! ### Cutting a form -/

/-- A bracketed form is cut into given parts exactly when it consists of an opening bracket, an
arrangement of the parts and a closing bracket; and there is only one way in which it does. -/
theorem splitForm_eq_ok_iff_arrangement {text : Text} (ho : opens (trim text)) :
    (∀ parts, splitForm text = .ok parts ↔
      ∃ (o c : Char) (a : Arrangement), isOpener o ∧ isCloser c ∧ a.parts = parts ∧
        trim text = o :: (a.text ++ [c])) ∧
    ∀ (o o' c c' : Char) (a a' : Arrangement), trim text = o :: (a.text ++ [c]) →
      trim text = o' :: (a'.text ++ [c']) → o = o' ∧ c = c' ∧ a = a' := by
  refine ⟨fun parts => ⟨fun h => ?_, ?_⟩, fun o o' c c' a a' h h' => ?_⟩
  · obtain ⟨o, hhead, ho⟩ : ∃ o, (trim text).head? = some o ∧ isOpener o := by
      simpa [opens, Option.any_eq_true] using ho
    obtain ⟨henc, hp⟩ := enclosed_of_splitForm ho hhead h
    generalize trim text = t at *
    obtain @⟨body, c, hspread, hc⟩ := henc
    obtain ⟨a, hparts, rfl⟩ := hspread.exists_arrangement hp
    exact ⟨o, c, a, ho, hc, hparts, rfl⟩
  · rintro ⟨o, c, a, ho, hc, rfl, htrim⟩
    rw [← splitForm_trim, htrim]
    exact splitForm_of_enclosed ho ⟨a.spread, hc⟩ fun p => Arrangement.isPart_of_mem_parts
  · rw [h] at h'
    obtain ⟨rfl, hrest⟩ := List.cons.inj h'
    obtain ⟨htext, hlast⟩ := List.append_inj' hrest rfl
    exact ⟨rfl, (List.cons.inj hlast).1, Arrangement.eq_of_text_eq htext⟩

/-- A form with blanks around it, glued parts, a blank that separates nothing and mixed brackets. -/
theorem splitForm_eq_ok_iff_arrangement_glued :
    opens (trim "\u2003[ a(b]\u00a0c \n[(d) ]) ".toList) ∧
      ∃ (o c : Char) (a : Arrangement), isOpener o ∧ isCloser c ∧
        a.parts = ["a".toList, "(b]".toList, "\u00a0c".toList, "[(d) ]".toList] ∧
        trim "\u2003[ a(b]\u00a0c \n[(d) ]) ".toList = o :: (a.text ++ [c]) := by
  have ho : opens (trim "\u2003[ a(b]\u00a0c \n[(d) ]) ".toList) := by decide +kernel
  have hsplit : splitForm "\u2003[ a(b]\u00a0c \n[(d) ]) ".toList =
      .ok ["a".toList, "(b]".toList, "\u00a0c".toList, "[(d) ]".toList] := by decide +kernel
  exact ⟨ho, ((splitForm_eq_ok_iff_arrangement ho).1 _).mp hsplit⟩

end UnaryLisp
