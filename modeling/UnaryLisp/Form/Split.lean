import UnaryLisp.Form.Level
import UnaryLisp.SyntaxError

/-!
# Cutting forms and programs

A form is one expression: a bracketed group, cut into the parts between its brackets, or a single
word. A program is a sequence of expressions, cut at bracket level zero.

## Main definitions

* `splitForm`: the parts of a text that holds one form.
* `splitProgram`: the top-level expressions of a text.

## Main statements

* `length_le_of_mem_splitForm`: a part of a form is no longer than the form.
* `length_lt_of_mem_splitForm`: a part of a bracketed form is shorter than the form.
-/

namespace UnaryLisp

open Text

/-- The only part of a text that does not start with a bracket is the text itself. -/
def splitWord (t : Text) : Except SyntaxError (List Text) :=
  match t.dropWhile isPlain with
  | [] => .ok [t]
  | c :: rest =>
    if isCloser c then .error (.unbalanced t)
    else .error (.trailingInput (t.takeWhile isPlain) (trimStart (c :: rest)))

/-- The parts of the group that `opener` opens and that `t` goes on with. -/
def splitGroup (opener : Char) (t : Text) : Except SyntaxError (List Text) :=
  match untilClosed 0 t with
  | none => .error (.unbalanced (opener :: t))
  | some (inside, rest) =>
    match trimStart rest with
    | [] => .ok (Level.scan inside).parts
    | c :: cs => .error (.trailingInput (opener :: inside) (c :: cs))

/-- The parts of a text that holds one form, blanks around it aside. -/
def splitForm (text : Text) : Except SyntaxError (List Text) :=
  match trim text with
  | [] => .error .empty
  | c :: cs => if isOpener c then splitGroup c cs else splitWord (c :: cs)

/-- The top-level expressions of a text. A closing bracket that closes nothing is at fault together
with the plain characters that touch it; a bracket that nothing closes, with all that follows it. -/
def splitProgram (source : Text) : Except SyntaxError (List Text) :=
  let level := Level.scan source
  match level.ending with
  | .done => .ok level.parts
  | .closed bracket rest =>
    let before := source.take (source.length - (rest.length + 1))
    .error (.unbalanced (plainEnd before ++ [bracket]))
  | .unclosed rest => .error (.unbalanced (trimEnd rest))

/-- A part of a group is shorter than the group. -/
theorem length_le_of_mem_splitGroup {opener : Char} {t part : Text} {parts : List Text}
    (h : splitGroup opener t = .ok parts) (hp : part ∈ parts) : part.length ≤ t.length := by
  simp only [splitGroup] at h
  split at h
  · contradiction
  · next inside rest hc =>
    split at h
    · obtain rfl := Except.ok.inj h
      have hl := congrArg List.length (append_of_untilClosed hc)
      have := Level.length_le_of_mem_parts_scan hp
      simp only [List.length_append] at hl
      omega
    · contradiction

/-- The part of a word is the word. -/
theorem eq_of_mem_splitWord {t part : Text} {parts : List Text}
    (h : splitWord t = .ok parts) (hp : part ∈ parts) : part = t := by
  simp only [splitWord] at h
  split at h
  · obtain rfl := Except.ok.inj h
    exact List.mem_singleton.mp hp
  · split at h <;> contradiction

/-- A part of a form is no longer than the form. -/
theorem length_le_of_mem_splitForm {text part : Text} {parts : List Text}
    (h : splitForm text = .ok parts) (hp : part ∈ parts) : part.length ≤ text.length := by
  simp only [splitForm] at h
  split at h
  · contradiction
  · next c cs ht =>
    have hl := length_trim_le text
    rw [ht, List.length_cons] at hl
    split at h
    · have := length_le_of_mem_splitGroup h hp
      omega
    · rw [eq_of_mem_splitWord h hp, List.length_cons]
      exact hl

/-- A part of a bracketed form is shorter than the form. -/
theorem length_lt_of_mem_splitForm {form part : Text} {parts : List Text}
    (h : splitForm form = .ok parts) (ho : opens form) (hp : part ∈ parts) :
    part.length < form.length := by
  cases form with
  | nil => contradiction
  | cons c cs =>
    rw [opens_cons] at ho
    simp only [splitForm, trim_cons (isBlank_of_isOpener ho), if_pos ho] at h
    have := length_le_of_mem_splitGroup h hp
    have := length_trimEnd_le cs
    rw [List.length_cons]
    omega

end UnaryLisp
