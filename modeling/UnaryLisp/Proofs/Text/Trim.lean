import Mathlib.Data.List.DropRight
import UnaryLisp.Text.Bracket

/-!
# Trimming

Trimming a text takes off the longest runs of blanks at its two ends. A text that is bare, with no
blank at either end, is left as it is, blanks put around a text are taken off again, and what is
taken off are blanks.

## Main definitions

* `Text.Bare`: a text with no blank at either end.

## Main results

* `Text.trim_eq_self`, `Text.bare_trim`: exactly the bare texts are trimmed.
* `Text.trim_append_append`: blanks around a text do not change what trimming leaves.
* `Text.exists_eq_append_trim_append`: trimming takes off nothing but blanks.
-/

namespace UnaryLisp

namespace Text

/-- A text with no blank at either end. -/
def Bare (t : Text) : Prop :=
  (∀ c ∈ t.head?, isBlank c = false) ∧ ∀ c ∈ t.getLast?, isBlank c = false

theorem trimEnd_eq_rdropWhile (t : Text) : trimEnd t = t.rdropWhile isBlank := rfl

theorem trimStart_eq_self {t : Text} (h : ∀ c ∈ t.head?, isBlank c = false) : trimStart t = t := by
  cases t with
  | nil => rfl
  | cons c t => simp [trimStart, h c rfl]

theorem trimEnd_eq_self {t : Text} (h : ∀ c ∈ t.getLast?, isBlank c = false) : trimEnd t = t := by
  rw [trimEnd_eq_rdropWhile, List.rdropWhile_eq_self_iff]
  intro hne
  simp [h _ (List.getLast?_eq_some_getLast hne)]

/-- A bare text is left as it is. -/
theorem trim_eq_self {t : Text} (h : Bare t) : trim t = t := by
  rw [trim, trimStart_eq_self h.1, trimEnd_eq_self h.2]

theorem head?_trimStart {t : Text} {c : Char} (h : c ∈ (trimStart t).head?) :
    isBlank c = false := by
  have hn := List.head?_dropWhile_not isBlank t
  rw [trimStart, Option.mem_def] at h
  simpa [h] using hn

/-- What trimming leaves is bare. -/
theorem bare_trim (t : Text) : Bare (trim t) := by
  refine ⟨fun c hc => ?_, fun c hc => ?_⟩
  · obtain ⟨post, hpost⟩ := List.rdropWhile_prefix isBlank (trimStart t)
    have hc' : c ∈ (trimStart t).head? := by
      rw [← hpost, ← trimEnd_eq_rdropWhile, ← trim, List.head?_append]
      simp [Option.mem_def.mp hc]
    exact head?_trimStart hc'
  · have hne : (trimStart t).rdropWhile isBlank ≠ [] := by
      intro h
      simp [trim, trimEnd_eq_rdropWhile, h] at hc
    have hlast := List.rdropWhile_last_not isBlank (trimStart t) hne
    rw [trim, trimEnd_eq_rdropWhile, List.getLast?_eq_some_getLast hne] at hc
    obtain rfl := Option.some.inj hc
    simpa using hlast

@[simp] theorem trim_trim (t : Text) : trim (trim t) = trim t :=
  trim_eq_self (bare_trim t)

theorem trim_append_left {pre : Text} (h : ∀ c ∈ pre, isBlank c) (t : Text) :
    trim (pre ++ t) = trim t := by
  rw [trim, trimStart, List.dropWhile_append_of_pos h, trim, trimStart]

theorem trimEnd_append_right {post : Text} (h : ∀ c ∈ post, isBlank c) (t : Text) :
    trimEnd (t ++ post) = trimEnd t := by
  have hrev : ∀ c ∈ post.reverse, isBlank c := fun c hc => h c (List.mem_reverse.mp hc)
  rw [trimEnd, List.reverse_append, List.dropWhile_append_of_pos hrev, trimEnd]

theorem trim_append_right {post : Text} (h : ∀ c ∈ post, isBlank c) (t : Text) :
    trim (t ++ post) = trim t := by
  rw [trim, trimStart, List.dropWhile_append]
  split
  · next hall =>
    rw [List.dropWhile_eq_nil_iff.mpr h, trim, trimStart, List.isEmpty_iff.mp hall]
  · rw [trimEnd_append_right h, trim, trimStart]

/-- Blanks around a text do not change what trimming leaves. -/
theorem trim_append_append {pre post : Text} (hpre : ∀ c ∈ pre, isBlank c)
    (hpost : ∀ c ∈ post, isBlank c) (t : Text) : trim (pre ++ t ++ post) = trim t := by
  rw [trim_append_right hpost, trim_append_left hpre]

/-- Trimming takes off nothing but blanks. -/
theorem exists_eq_append_trim_append (t : Text) :
    ∃ pre post : Text, (∀ c ∈ pre, isBlank c) ∧ (∀ c ∈ post, isBlank c) ∧
      t = pre ++ trim t ++ post := by
  refine ⟨t.takeWhile isBlank, (trimStart t).rtakeWhile isBlank,
    fun c hc => List.mem_takeWhile_imp hc, fun c hc => List.mem_rtakeWhile_imp hc, ?_⟩
  rw [List.append_assoc, trim, trimEnd_eq_rdropWhile, List.rdropWhile_append_rtakeWhile,
    trimStart, List.takeWhile_append_dropWhile]

/-- What trimming leaves stood in the text as it is. -/
theorem trim_isInfix (t : Text) : trim t <:+: t := by
  obtain ⟨pre, post, -, -, ht⟩ := exists_eq_append_trim_append t
  exact ⟨pre, post, ht.symm⟩

/-- A character that trimming leaves stood in the text. -/
theorem mem_of_mem_trim {t : Text} {c : Char} (h : c ∈ trim t) : c ∈ t :=
  (trim_isInfix t).subset h

/-- No blanks stand at the end of a bare text. -/
theorem Bare.eq_nil_of_isBlank {pre rest : Text} (h : Bare (pre ++ rest))
    (hr : ∀ c ∈ rest, isBlank c) : rest = [] := by
  by_contra hne
  have hlast : rest.getLast hne ∈ (pre ++ rest).getLast? := by
    rw [List.getLast?_append, List.getLast?_eq_some_getLast hne]
    rfl
  have hblank := hr _ (List.getLast_mem hne)
  rw [h.2 _ hlast] at hblank
  contradiction

theorem Bare.not_isSeparator {c : Char} {cs : Text} (h : Bare (c :: cs)) : ¬ isSeparator c := by
  intro hs
  have hblank := isBlank_of_isSeparator hs
  rw [h.1 c rfl] at hblank
  contradiction

/-- No closing bracket is a blank. -/
theorem isBlank_of_isCloser {c : Char} (h : isCloser c) : isBlank c = false := by
  simp only [isCloser, Bool.or_eq_true, beq_iff_eq] at h
  rcases h with rfl | rfl <;> decide

/-- A text between brackets is bare. -/
theorem bare_of_brackets {o c : Char} (ho : isOpener o) (hc : isCloser c) (body : Text) :
    Bare (o :: (body ++ [c])) := by
  refine ⟨fun a ha => ?_, fun a ha => ?_⟩
  · obtain rfl := Option.some.inj ha
    exact isBlank_of_isOpener ho
  · rw [← List.cons_append, List.getLast?_concat] at ha
    obtain rfl := Option.some.inj ha
    exact isBlank_of_isCloser hc

end Text

end UnaryLisp
