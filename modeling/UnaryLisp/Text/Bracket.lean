import UnaryLisp.Text.Blank

/-!
# Brackets and separators

Round and square brackets group the parts of a form, and either kind may close either kind. Parts
that are not bracketed end at a bracket or at one of four separators. There are more blanks than
separators: a blank that is not a separator stands inside a part like any other character.

## Main definitions

* `Text.isOpener`, `Text.isCloser`, `Text.isSeparator`: the characters that end an unbracketed part.
* `Text.isPlain`: all other characters.
* `Text.opens`: a text whose first character is an opening bracket.
* `Text.depthAfter`: how a character changes the number of open brackets.
-/

namespace UnaryLisp

namespace Text

/-- An opening bracket, round or square. -/
def isOpener (c : Char) : Bool :=
  c == '(' || c == '['

/-- A closing bracket, round or square. -/
def isCloser (c : Char) : Bool :=
  c == ')' || c == ']'

/-- A separator: a space, a tab, a line feed or a carriage return. -/
def isSeparator (c : Char) : Bool :=
  c == ' ' || c == '\t' || c == '\n' || c == '\r'

/-- A plain character is neither a bracket nor a separator. -/
def isPlain (c : Char) : Bool :=
  !(isOpener c || isCloser c || isSeparator c)

/-- The text starts with an opening bracket. -/
def opens (t : Text) : Bool :=
  t.head?.any isOpener

/-- How many brackets are open behind a character, if `depth` are open before it. -/
def depthAfter (depth : Nat) (c : Char) : Nat :=
  if isOpener c then depth + 1 else if isCloser c then depth - 1 else depth

@[simp] theorem opens_nil : opens [] = false := rfl

@[simp] theorem opens_cons (c : Char) (cs : Text) : opens (c :: cs) = isOpener c := rfl

/-- Every separator is a blank. -/
theorem isBlank_of_isSeparator {c : Char} (h : isSeparator c) : isBlank c := by
  simp only [isSeparator, Bool.or_eq_true, beq_iff_eq] at h
  rcases h with ((rfl | rfl) | rfl) | rfl <;> decide

/-- No opening bracket is a blank. -/
theorem isBlank_of_isOpener {c : Char} (h : isOpener c) : isBlank c = false := by
  simp only [isOpener, Bool.or_eq_true, beq_iff_eq] at h
  rcases h with rfl | rfl <;> decide

end Text

end UnaryLisp
