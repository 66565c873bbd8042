/-!
# Ranges of code points

A property of characters is given by the ranges of code points that have it, in increasing order.
The order lets a search stop at the first range that starts behind the code point.

## Main definitions

* `Ranges`: ranges of code points, with both ends included.
* `Ranges.contains`: the code points in the ranges.
* `Ranges.ordered`: ranges in increasing order.

## Main statements

* `Ranges.contains_iff`: in ordered ranges, the search finds what is there.
-/

namespace UnaryLisp

/-- Ranges of code points, with both ends included. -/
abbrev Ranges := List (Nat × Nat)

namespace Ranges

/-- A code point is in one of the ranges, which are in increasing order. -/
def contains : Ranges → Nat → Bool
  | [], _ => false
  | (first, last) :: ranges, n =>
    if n < first then false else n ≤ last || contains ranges n

/-- The ranges start at `bound` or behind it and are in increasing order. -/
def orderedFrom (bound : Nat) : Ranges → Bool
  | [] => true
  | (first, last) :: ranges => bound ≤ first && first ≤ last && orderedFrom (last + 1) ranges

/-- The ranges are in increasing order. -/
def ordered (ranges : Ranges) : Bool :=
  orderedFrom 0 ranges

theorem le_of_mem_of_orderedFrom {bound : Nat} {ranges : Ranges} {r : Nat × Nat}
    (h : orderedFrom bound ranges) (hr : r ∈ ranges) : bound ≤ r.1 := by
  induction ranges generalizing bound with
  | nil => contradiction
  | cons s ranges ih =>
    simp only [orderedFrom, Bool.and_eq_true, decide_eq_true_eq] at h
    rcases List.mem_cons.mp hr with rfl | hr
    · exact h.1.1
    · have := ih h.2 hr
      omega

private theorem contains_iff_of_orderedFrom {bound : Nat} {ranges : Ranges}
    (h : orderedFrom bound ranges) (n : Nat) :
    ranges.contains n ↔ ∃ r ∈ ranges, r.1 ≤ n ∧ n ≤ r.2 := by
  induction ranges generalizing bound with
  | nil => simp [contains]
  | cons s ranges ih =>
    obtain ⟨first, last⟩ := s
    simp only [orderedFrom, Bool.and_eq_true, decide_eq_true_eq] at h
    rw [contains]
    split
    · next hn =>
      refine ⟨fun hc => by contradiction, fun ⟨r, hr, hl, _⟩ => ?_⟩
      rcases List.mem_cons.mp hr with rfl | hr
      · simp only at hl
        omega
      · have := le_of_mem_of_orderedFrom h.2 hr
        omega
    · next hn =>
      rw [Bool.or_eq_true, decide_eq_true_eq, ih h.2]
      constructor
      · rintro (hl | ⟨r, hr, hn⟩)
        · exact ⟨(first, last), List.mem_cons_self, Nat.le_of_not_lt hn, hl⟩
        · exact ⟨r, List.mem_cons_of_mem _ hr, hn⟩
      · rintro ⟨r, hr, hn⟩
        rcases List.mem_cons.mp hr with rfl | hr
        · exact Or.inl hn.2
        · exact Or.inr ⟨r, hr, hn⟩

/-- In ordered ranges, the search finds what is there. -/
theorem contains_iff {ranges : Ranges} (h : ranges.ordered) (n : Nat) :
    ranges.contains n ↔ ∃ r ∈ ranges, r.1 ≤ n ∧ n ≤ r.2 :=
  contains_iff_of_orderedFrom h n

end Ranges

end UnaryLisp
