import UnaryLisp.Text.Ranges

/-!
# Texts and blanks

A text is a list of characters. The blanks are the characters with the Unicode property
`White_Space`; trimming takes them off the ends of a text and leaves the inside alone.

## Main definitions

* `Text`: a list of characters.
* `Text.isBlank`: the Unicode white space characters.
* `Text.trimStart`, `Text.trimEnd`, `Text.trim`: a text without the blanks at its ends.

## Main statements

* `Text.length_trim_le`: trimming does not lengthen a text.
-/

namespace UnaryLisp

/-- A text is a list of characters. -/
abbrev Text := List Char

namespace Text

/-- The ranges of code points with the Unicode property `White_Space`. -/
def blankRanges : Ranges :=
  [(0x09, 0x0D), (0x20, 0x20), (0x85, 0x85), (0xA0, 0xA0), (0x1680, 0x1680), (0x2000, 0x200A),
    (0x2028, 0x2029), (0x202F, 0x202F), (0x205F, 0x205F), (0x3000, 0x3000)]

/-- A blank is a character with the Unicode property `White_Space`. -/
def isBlank (c : Char) : Bool :=
  blankRanges.contains c.toNat

/-- The text without the blanks at its start. -/
def trimStart (t : Text) : Text :=
  t.dropWhile isBlank

/-- The text without the blanks at its end. -/
def trimEnd (t : Text) : Text :=
  (t.reverse.dropWhile isBlank).reverse

/-- The text without the blanks at either end. -/
def trim (t : Text) : Text :=
  trimEnd (trimStart t)

@[simp] theorem trimStart_nil : trimStart [] = [] := rfl

@[simp] theorem trimEnd_nil : trimEnd [] = [] := rfl

@[simp] theorem trim_nil : trim [] = [] := rfl

theorem length_trimStart_le (t : Text) : (trimStart t).length ≤ t.length :=
  (List.dropWhile_suffix isBlank).length_le

theorem length_trimEnd_le (t : Text) : (trimEnd t).length ≤ t.length := by
  have h := (List.dropWhile_suffix (l := t.reverse) isBlank).length_le
  simpa [trimEnd] using h

/-- Trimming does not lengthen a text. -/
theorem length_trim_le (t : Text) : (trim t).length ≤ t.length :=
  Nat.le_trans (length_trimEnd_le _) (length_trimStart_le t)

/-- A text that starts with no blank keeps its first character. -/
theorem trim_cons {c : Char} (h : isBlank c = false) (cs : Text) :
    trim (c :: cs) = c :: trimEnd cs := by
  simp only [trim, trimStart, trimEnd, List.dropWhile_cons, h, Bool.false_eq_true, if_false,
    List.reverse_cons, List.dropWhile_append]
  split
  · next he => simp [List.isEmpty_iff.mp he]
  · simp

end Text

end UnaryLisp
