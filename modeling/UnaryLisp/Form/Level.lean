import UnaryLisp.Text.Bracket

/-!
# One bracket level of a text

The parts of a text at one bracket level are its bracketed groups and its maximal runs of plain
characters. A group is one part whatever it holds and whatever touches it; separators stand between
parts and belong to none. The scan of a level ends with the text, at a closing bracket that belongs
to the level around, or at an opening bracket that nothing closes.

## Main definitions

* `Text.untilClosed`: the text up to the bracket that closes the open ones.
* `Level`, `Level.Ending`: the parts of a level, and how its scan ends.
* `Level.scan`: the level at the start of a text.

## Main statements

* `Text.append_of_untilClosed`: cutting at the closing bracket loses nothing.
* `Level.length_le_of_mem_parts_scan`: a part is no longer than the text.
-/

namespace UnaryLisp

namespace Text

/-- Cuts a text behind the bracket that closes the last of `depth + 1` open brackets. -/
def untilClosed : Nat → Text → Option (Text × Text)
  | _, [] => none
  | depth, c :: cs =>
    if isCloser c ∧ depth = 0 then some ([c], cs)
    else (untilClosed (depthAfter depth c) cs).map fun (inside, rest) => (c :: inside, rest)

/-- Cutting at the closing bracket loses nothing. -/
theorem append_of_untilClosed {depth : Nat} {t inside rest : Text}
    (h : untilClosed depth t = some (inside, rest)) : inside ++ rest = t := by
  induction t generalizing depth inside rest with
  | nil => simp [untilClosed] at h
  | cons c cs ih =>
    rw [untilClosed] at h
    split at h
    · obtain ⟨rfl, rfl⟩ := Prod.mk.inj (Option.some.inj h)
      rfl
    · obtain ⟨⟨a, b⟩, hab, he⟩ := Option.map_eq_some_iff.mp h
      obtain ⟨rfl, rfl⟩ := Prod.mk.inj he
      rw [List.cons_append, ih hab]

/-- The plain characters at the end of a text. -/
def plainEnd (t : Text) : Text :=
  (t.reverse.takeWhile isPlain).reverse

end Text

/-- How the scan of a bracket level ends. -/
inductive Level.Ending where
  /-- The text is at its end. -/
  | done
  /-- The closing bracket belongs to the level around; `rest` stands behind it. -/
  | closed (bracket : Char) (rest : Text)
  /-- Nothing closes the bracket that opens `rest`. -/
  | unclosed (rest : Text)
deriving DecidableEq

/-- The parts of a bracket level, in order, and how its scan ends. -/
structure Level where
  parts : List Text
  ending : Level.Ending
deriving DecidableEq

namespace Level

open Text

/-- Puts a part before those of a level. -/
def cons (part : Text) (level : Level) : Level :=
  { level with parts := part :: level.parts }

@[simp] theorem parts_cons (part : Text) (level : Level) :
    (level.cons part).parts = part :: level.parts := rfl

@[simp] theorem ending_cons (part : Text) (level : Level) :
    (level.cons part).ending = level.ending := rfl

/-- The bracket level at the start of a text. -/
def scan : Text → Level
  | [] => ⟨[], .done⟩
  | c :: cs =>
    if isSeparator c then scan cs
    else if isCloser c then ⟨[], .closed c cs⟩
    else if isOpener c then
      match _ : untilClosed 0 cs with
      | none => ⟨[], .unclosed (c :: cs)⟩
      | some (inside, rest) => (scan rest).cons (c :: inside)
    else (scan (cs.dropWhile isPlain)).cons (c :: cs.takeWhile isPlain)
termination_by t => t.length
decreasing_by
  · simp
  · have := congrArg List.length
      (append_of_untilClosed ‹untilClosed 0 cs = some (inside, rest)›)
    simp only [List.length_append] at this
    simp only [List.length_cons]
    omega
  · have := (List.dropWhile_suffix (l := cs) isPlain).length_le
    simp only [List.length_cons]
    omega

/-- A part is no longer than the text. -/
theorem length_le_of_mem_parts_scan {t part : Text} (h : part ∈ (scan t).parts) :
    part.length ≤ t.length := by
  fun_induction scan t with
  | case1 | case3 | case4 => simp at h
  | case2 c cs _ ih => exact Nat.le_succ_of_le (ih h)
  | case5 c cs _ _ _ inside rest hc ih =>
    have hl := congrArg List.length (append_of_untilClosed hc)
    simp only [List.length_append] at hl
    simp only [List.length_cons]
    rcases List.mem_cons.mp h with rfl | h
    · simp only [List.length_cons]
      omega
    · have := ih h
      omega
  | case6 c cs _ _ _ ih =>
    simp only [List.length_cons]
    rcases List.mem_cons.mp h with rfl | h
    · have := (List.takeWhile_prefix (l := cs) isPlain).length_le
      simp only [List.length_cons]
      omega
    · have := (List.dropWhile_suffix (l := cs) isPlain).length_le
      have := ih h
      omega

end Level

end UnaryLisp
