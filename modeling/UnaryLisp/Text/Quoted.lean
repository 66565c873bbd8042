import UnaryLisp.Text.Blank
import UnaryLisp.Text.Extender
import UnaryLisp.Text.Unassigned

/-!
# Quoted texts

A quoted text stands between double quotes on one line. A backslash goes before a double quote and
before a backslash, four control characters have a letter or a digit of their own, and every other
character that leaves no mark of its own on the line is written as its code point in hexadecimal
digits.

## Main definitions

* `Quoted.isMarkless`: the characters that leave no mark of their own.
* `Quoted.escape`: how one character is written between the quotes.
* `Quoted.encode`: the quoted form of a text.

## Main statements

* `Quoted.isMarkless_iff`: the characters that leave no mark are those of the tables, without the
  space; no search stops before it has found what is there.
-/

namespace UnaryLisp

namespace Quoted

open Text

/-- The ranges of control characters. -/
def controlRanges : Ranges :=
  [(0x0, 0x1F), (0x7F, 0x9F)]

/-- The ranges of format characters, which steer the layout of the characters around them. -/
def formatRanges : Ranges :=
  [(0xAD, 0xAD), (0x600, 0x605), (0x61C, 0x61C), (0x6DD, 0x6DD), (0x70F, 0x70F), (0x890, 0x891),
    (0x8E2, 0x8E2), (0x180E, 0x180E), (0x200B, 0x200F), (0x202A, 0x202E), (0x2060, 0x2064),
    (0x2066, 0x206F), (0xFEFF, 0xFEFF), (0xFFF9, 0xFFFB), (0x110BD, 0x110BD), (0x110CD, 0x110CD),
    (0x13430, 0x1343F), (0x1BCA0, 0x1BCA3), (0x1D173, 0x1D17A), (0xE0001, 0xE0001),
    (0xE0020, 0xE007F)]

/-- The ranges of code points for private use. -/
def privateRanges : Ranges :=
  [(0xE000, 0xF8FF), (0xF0000, 0xFFFFD), (0x100000, 0x10FFFD)]

/-- The ranges of fillers, which are letters with nothing to see. -/
def fillerRanges : Ranges :=
  [(0x115F, 0x1160), (0x3164, 0x3164), (0xFFA0, 0xFFA0)]

/-- A character that leaves no mark of its own on a line: a control or format character, a blank
other than the space, a filler, a mark on the character before it, or a code point that the standard
gives no meaning. -/
def isMarkless (c : Char) : Bool :=
  controlRanges.contains c.toNat || (isBlank c && c != ' ') || formatRanges.contains c.toNat ||
    fillerRanges.contains c.toNat || extenderRanges.contains c.toNat ||
    privateRanges.contains c.toNat || unassignedRanges.contains c.toNat

/-- The characters that leave no mark are the characters of the tables, without the space. -/
theorem isMarkless_iff (c : Char) :
    isMarkless c ↔ c ≠ ' ' ∧ ∃ ranges ∈ [controlRanges, blankRanges, formatRanges, fillerRanges,
      extenderRanges, privateRanges, unassignedRanges], ∃ r ∈ ranges,
        r.1 ≤ c.toNat ∧ c.toNat ≤ r.2 := by
  by_cases hc : c = ' '
  · subst hc
    have hspace : isMarkless ' ' = false := by decide +kernel
    simp [hspace]
  · have hordered : ∀ ranges ∈ [controlRanges, blankRanges, formatRanges, fillerRanges,
        extenderRanges, privateRanges, unassignedRanges], ranges.ordered := by
      simp only [List.forall_mem_cons]
      exact ⟨by decide, by decide, by decide, by decide, ordered_extenderRanges, by decide,
        ordered_unassignedRanges, by simp⟩
    rw [and_iff_right hc, exists_congr fun ranges => and_congr_right fun h =>
      (Ranges.contains_iff (hordered ranges h) c.toNat).symm]
    simp [isMarkless, isBlank, hc, or_assoc]

/-- How a character is written between double quotes. -/
def escape (c : Char) : Text :=
  if c = '"' then ['\\', '"']
  else if c = '\\' then ['\\', '\\']
  else if c = '\n' then ['\\', 'n']
  else if c = '\t' then ['\\', 't']
  else if c = '\r' then ['\\', 'r']
  else if c = '\x00' then ['\\', '0']
  else if isMarkless c then ['\\', 'u', '\x7b'] ++ Nat.toDigits 16 c.toNat ++ ['\x7d']
  else [c]

/-- The quoted form of a text. -/
def encode (t : Text) : Text :=
  '"' :: t.flatMap escape ++ ['"']

end Quoted

end UnaryLisp
