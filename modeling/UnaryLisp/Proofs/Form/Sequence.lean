import UnaryLisp.Proofs.Form.Bracketing

/-!
# Programs as sequences of parts

A program is cut into given expressions exactly when it is laid out with them. Behind a program that
can be cut, a gap puts the scan back to where it starts: what follows is cut as if it stood alone,
and what is at fault in it is the same fragment.

## Main results

* `splitProgram_eq_ok_iff`: a program is cut into the parts that it is laid out with.
* `exists_unbalanced_of_splitProgram`: a program that cannot be cut has a bracket at fault.
* `splitProgram_append`: a program behind another one is cut as if it stood alone.
-/

namespace UnaryLisp

open Text

/-! ### The layout of a program -/

/-- A program is cut into parts exactly when it is laid out with them. -/
theorem splitProgram_eq_ok_iff {source : Text} {parts : List Text} :
    splitProgram source = .ok parts ↔ Spread parts source ∧ ∀ p ∈ parts, IsPart p := by
  constructor
  · intro h
    obtain ⟨body, tail, hs, hspread, hparts, hend⟩ := Level.exists_spread_scan source
    rw [splitProgram] at h
    generalize (Level.scan source).parts = found at *
    generalize (Level.scan source).ending = ending at *
    cases hend with
    | done =>
      obtain rfl : source = body := hs.trans (List.append_nil body)
      obtain rfl := Except.ok.inj h
      exact ⟨hspread, hparts⟩
    | closed => contradiction
    | unclosed => contradiction
  · rintro ⟨hspread, hparts⟩
    have hscan := Level.scan_append hspread hparts not_startsPlain_nil
    simp only [List.append_nil, Level.scan] at hscan
    simp only [splitProgram, hscan]

/-- A program that cannot be cut has a bracket at fault. -/
theorem exists_unbalanced_of_splitProgram {source : Text} {cause : SyntaxError}
    (h : splitProgram source = .error cause) : ∃ fragment, cause = .unbalanced fragment := by
  simp only [splitProgram] at h
  split at h
  · contradiction
  · exact ⟨_, (Except.error.inj h).symm⟩
  · exact ⟨_, (Except.error.inj h).symm⟩

/-! ### One program behind another -/

theorem Text.not_startsPlain_gap_append {gap : Text} (hg : IsGap gap) (hne : gap ≠ []) (t : Text) :
    ¬ StartsPlain (gap ++ t) := by
  cases gap with
  | nil => contradiction
  | cons c gap => simp [isPlain, hg c (by simp)]

theorem Text.plainEnd_concat (t : Text) (c : Char) :
    plainEnd (t ++ [c]) = if isPlain c then plainEnd t ++ [c] else [] :=
  List.rtakeWhile_concat isPlain t c

/-- The plain characters at the end of a text do not reach beyond a gap. -/
theorem Text.plainEnd_append {gap : Text} (hg : IsGap gap) (hne : gap ≠ []) (t body : Text) :
    plainEnd (t ++ gap ++ body) = plainEnd body := by
  induction body using List.reverseRecOn with
  | nil =>
    have hlast : isSeparator (gap.getLast hne) := hg _ (List.getLast_mem hne)
    rw [List.append_nil, ← List.dropLast_append_getLast hne, ← List.append_assoc, plainEnd_concat,
      if_neg (by simp [isPlain, hlast])]
    rfl
  | append_singleton body c ih => rw [← List.append_assoc, plainEnd_concat, plainEnd_concat, ih]

theorem Level.scan_program_append {a gap : Text} {forms : List Text}
    (ha : splitProgram a = .ok forms) (hg : IsGap gap) (hne : gap ≠ []) (b : Text) :
    scan (a ++ gap ++ b) = ⟨forms ++ (scan b).parts, (scan b).ending⟩ := by
  obtain ⟨hspread, hparts⟩ := splitProgram_eq_ok_iff.mp ha
  rw [List.append_assoc, scan_append hspread hparts (not_startsPlain_gap_append hg hne b),
    scan_gap_append hg]

/-- A program behind another one and a gap is cut as if it stood alone. -/
theorem splitProgram_append {a gap : Text} {forms : List Text} (ha : splitProgram a = .ok forms)
    (hg : IsGap gap) (hne : gap ≠ []) (b : Text) :
    splitProgram (a ++ gap ++ b) = (splitProgram b).map (forms ++ ·) := by
  obtain ⟨body, tail, hb, -, -, hend⟩ := Level.exists_spread_scan b
  rw [splitProgram, splitProgram, Level.scan_program_append ha hg hne]
  generalize (Level.scan b).parts = found
  generalize (Level.scan b).ending = ending at *
  cases hend with
  | done => rfl
  | @closed c rest hc =>
    -- what stands before the bracket is the first program, the gap and what stands before it in `b`
    subst hb
    have happ : a ++ gap ++ (body ++ c :: rest) = (a ++ gap ++ body) ++ c :: rest := by simp
    simp only [happ, take_before, plainEnd_append hg hne]
    rfl
  | unclosed => rfl

end UnaryLisp
