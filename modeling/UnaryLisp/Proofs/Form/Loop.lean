import UnaryLisp.Proofs.Form.Layout

/-!
# Cutting in one pass

A form and a program can be cut in one pass over their characters, which counts the open brackets
and keeps in mind where the part that is being read starts. The two passes are told apart by the
depth at which parts are completed, by where they end, and by what they report. Taking a bracket off
where none is open would be a fault of the pass over a form. It does not come to that: the pass ends
at the bracket that closes the first one.

## Main definitions

* `Cursor`: what a pass keeps in mind.
* `formLoop`, `cutForm`: the pass over a form, with a check before a bracket is taken off.
* `programLoop`, `cutProgram`: the pass over a program.

## Main results

* `cutForm_eq_splitForm`: the pass over a form cuts it as it is cut level by level, and the check
  never fails.
* `cutProgram_eq_splitProgram`: the pass over a program cuts it as it is cut level by level.
-/

namespace UnaryLisp

open Text

/-! ### The two passes -/

/-- The characters of a text from `start` on, up to `stop`. -/
def Text.slice (t : Text) (start stop : Nat) : Text :=
  (t.take stop).drop start

/-- What a pass over a text keeps in mind: the number of open brackets, the start of the part that
is being read, and the parts that are complete. -/
structure Cursor where
  depth : Nat
  start : Option Nat
  parts : List Text

namespace Cursor

/-- The parts, with the one that is being read up to `stop`. -/
def flushed (cursor : Cursor) (text : Text) (stop : Nat) : List Text :=
  cursor.parts ++ (cursor.start.map fun start => text.slice start stop).toList

/-- A part starts at `i` unless one is being read. -/
def begun (cursor : Cursor) (i : Nat) : Cursor :=
  { cursor with start := cursor.start.or (some i) }

end Cursor

/-- The pass over a form, from the character at `i` on. It has no result if a bracket is to be taken
off where none is open. -/
def formLoop (form : Text) : Nat → Text → Cursor → Option (Except SyntaxError (List Text))
  | _, [], _ => some (.error (.unbalanced form))
  | i, c :: rest, cursor =>
    if isOpener c then
      if cursor.depth = 1 then
        formLoop form (i + 1) rest ⟨cursor.depth + 1, some i, cursor.flushed form i⟩
      else formLoop form (i + 1) rest { cursor with depth := cursor.depth + 1 }
    else if isCloser c then
      match cursor.depth with
      | 0 => none
      | depth + 1 =>
        if depth = 1 then formLoop form (i + 1) rest ⟨depth, none, cursor.flushed form (i + 1)⟩
        else if depth = 0 then
          match trimStart rest with
          | [] => some (.ok (cursor.flushed form i))
          | a :: trailing => some (.error (.trailingInput (form.take (i + 1)) (a :: trailing)))
        else formLoop form (i + 1) rest { cursor with depth }
    else if cursor.depth = 1 ∧ isSeparator c then
      formLoop form (i + 1) rest ⟨cursor.depth, none, cursor.flushed form i⟩
    else formLoop form (i + 1) rest (cursor.begun i)

/-- A form, cut in one pass. -/
def cutForm (text : Text) : Option (Except SyntaxError (List Text)) :=
  match trim text with
  | [] => some (.error .empty)
  | c :: cs =>
    if isOpener c then formLoop (c :: cs) 0 (c :: cs) ⟨0, none, []⟩ else some (splitWord (c :: cs))

/-- The pass over a program, from the character at `i` on. -/
def programLoop (source : Text) : Nat → Text → Cursor → Except SyntaxError (List Text)
  | _, [], cursor =>
    match cursor.start with
    | some start =>
      if 0 < cursor.depth then .error (.unbalanced (trimEnd (source.drop start)))
      else .ok (cursor.parts ++ [source.drop start])
    | none => .ok cursor.parts
  | i, c :: rest, cursor =>
    if isOpener c then
      if cursor.depth = 0 then
        programLoop source (i + 1) rest ⟨cursor.depth + 1, some i, cursor.flushed source i⟩
      else programLoop source (i + 1) rest { cursor with depth := cursor.depth + 1 }
    else if isCloser c then
      if cursor.depth = 0 then
        .error (.unbalanced (source.slice (cursor.start.getD i) (i + 1)))
      else if cursor.depth = 1 then
        programLoop source (i + 1) rest ⟨0, none, cursor.flushed source (i + 1)⟩
      else programLoop source (i + 1) rest { cursor with depth := cursor.depth - 1 }
    else if cursor.depth = 0 ∧ isSeparator c then
      programLoop source (i + 1) rest ⟨cursor.depth, none, cursor.flushed source i⟩
    else programLoop source (i + 1) rest (cursor.begun i)

/-- A program, cut in one pass. -/
def cutProgram (source : Text) : Except SyntaxError (List Text) :=
  programLoop source 0 source ⟨0, none, []⟩

/-! ### Parts that are being read -/

/-- What has been read since a place is what stands behind it. -/
theorem Text.slice_append (before t after : Text) :
    (before ++ (t ++ after)).slice before.length (before.length + t.length) = t := by
  rw [slice, ← List.append_assoc, ← List.length_append, List.take_left, List.drop_left]

/-- A pass that goes on inside of a group until the bracket that closes it. -/
theorem Text.eq_elim_untilClosed {α : Type} (loop : Nat → Text → Nat → α) (done : Nat → Text → α)
    {fail : α} (hnil : ∀ i d, loop i [] d = fail)
    (hclose : ∀ i c t, isCloser c → loop i (c :: t) 0 = done (i + 1) t)
    (hgo : ∀ i c t d, ¬ (isCloser c ∧ d = 0) →
      loop i (c :: t) d = loop (i + 1) t (depthAfter d c)) (i : Nat) (t : Text) (d : Nat) :
    loop i t d = (untilClosed d t).elim fail fun found => done (i + found.1.length) found.2 := by
  induction t generalizing i d with
  | nil => exact hnil i d
  | cons c t ih =>
    rw [untilClosed]
    split
    · next hc =>
      obtain ⟨hc, rfl⟩ := hc
      exact hclose i c t hc
    · next hc =>
      rw [hgo i c t d hc, ih, Option.elim_map]
      refine congrArg (fun next => (untilClosed (depthAfter d c) t).elim fail next) ?_
      funext found
      simp only [Function.comp_apply, List.length_cons]
      rw [Nat.add_assoc, Nat.add_comm 1]

section

variable {form source : Text} {start : Nat} {parts : List Text}

/-- A part of a form that is a group ends at the bracket that closes it. -/
theorem formLoop_group (i : Nat) (t : Text) (d : Nat) :
    formLoop form i t ⟨d + 2, some start, parts⟩ =
      (untilClosed d t).elim (some (.error (.unbalanced form))) fun found =>
        formLoop form (i + found.1.length) found.2
          ⟨1, none, parts ++ [form.slice start (i + found.1.length)]⟩ := by
  refine eq_elim_untilClosed (fun i t d => formLoop form i t ⟨d + 2, some start, parts⟩)
    (fun i t => formLoop form i t ⟨1, none, parts ++ [form.slice start i]⟩)
    (fun i d => by simp only [formLoop]) (fun i c t hc => ?_) (fun i c t d hgo => ?_) i t d
  · simp [formLoop, hc, (not_opener_of_isCloser hc).1, Cursor.flushed]
  · by_cases ho : isOpener c
    · simp [formLoop, depthAfter, ho]
    · by_cases hc : isCloser c
      · obtain ⟨e, rfl⟩ := Nat.exists_eq_succ_of_ne_zero fun hd => hgo ⟨hc, hd⟩
        simp [formLoop, depthAfter, ho, hc]
      · simp [formLoop, depthAfter, ho, hc, Cursor.begun]

/-- An expression of a program that is a group ends at the bracket that closes it. -/
theorem programLoop_group (i : Nat) (t : Text) (d : Nat) :
    programLoop source i t ⟨d + 1, some start, parts⟩ =
      (untilClosed d t).elim (.error (.unbalanced (trimEnd (source.drop start)))) fun found =>
        programLoop source (i + found.1.length) found.2
          ⟨0, none, parts ++ [source.slice start (i + found.1.length)]⟩ := by
  refine eq_elim_untilClosed (fun i t d => programLoop source i t ⟨d + 1, some start, parts⟩)
    (fun i t => programLoop source i t ⟨0, none, parts ++ [source.slice start i]⟩)
    (fun i d => by simp [programLoop]) (fun i c t hc => ?_) (fun i c t d hgo => ?_) i t d
  · simp [programLoop, hc, (not_opener_of_isCloser hc).1, Cursor.flushed]
  · by_cases ho : isOpener c
    · simp [programLoop, depthAfter, ho]
    · by_cases hc : isCloser c
      · have hd : d ≠ 0 := fun hd => hgo ⟨hc, hd⟩
        simp [programLoop, depthAfter, ho, hc, hd, Nat.sub_add_cancel (Nat.pos_of_ne_zero hd)]
      · simp [programLoop, depthAfter, ho, hc, Cursor.begun]

end

/-! ### Passes over a level -/

/-- At depth `k` a pass over the text reads a level: a separator completes the part that is being
read, a plain character goes with it or starts one, and a group is a part of its own. A group that
nothing closes decides the pass. -/
structure LevelPass {α : Type} (text : Text) (k : Nat) (loop : Nat → Text → Cursor → α)
    (fail : Nat → α) : Prop where
  separator : ∀ {c : Char}, isSeparator c → ∀ i t start parts,
    loop i (c :: t) ⟨k, start, parts⟩ =
      loop (i + 1) t ⟨k, none, Cursor.flushed ⟨k, start, parts⟩ text i⟩
  plain : ∀ {c : Char}, isPlain c → ∀ i t start parts,
    loop i (c :: t) ⟨k, start, parts⟩ = loop (i + 1) t ⟨k, start.or (some i), parts⟩
  group : ∀ {c : Char}, isOpener c → ∀ i t start parts,
    loop i (c :: t) ⟨k, start, parts⟩ = (untilClosed 0 t).elim (fail i) fun found =>
      loop (i + 1 + found.1.length) found.2
        ⟨k, none, Cursor.flushed ⟨k, start, parts⟩ text i ++
          [text.slice i (i + 1 + found.1.length)]⟩

/-- Behind its first bracket a form is read as a level. -/
theorem formLoop_levelPass (form : Text) :
    LevelPass form 1 (formLoop form) fun _ => some (.error (.unbalanced form)) where
  separator := by
    intro c hs i t start parts
    obtain ⟨ho, hc⟩ := not_bracket_of_isSeparator hs
    simp [formLoop, ho, hc, hs]
  plain := by
    intro c hplain i t start parts
    obtain ⟨ho, hc, hs⟩ := isPlain_iff.mp hplain
    simp [formLoop, ho, hc, hs, Cursor.begun]
  group := by
    intro c ho i t start parts
    rw [formLoop, if_pos ho, if_pos rfl]
    exact formLoop_group (i + 1) t 0

/-- A program is read as a level. -/
theorem programLoop_levelPass (source : Text) :
    LevelPass source 0 (programLoop source) fun i =>
      .error (.unbalanced (trimEnd (source.drop i))) where
  separator := by
    intro c hs i t start parts
    obtain ⟨ho, hc⟩ := not_bracket_of_isSeparator hs
    simp [programLoop, ho, hc, hs]
  plain := by
    intro c hplain i t start parts
    obtain ⟨ho, hc, hs⟩ := isPlain_iff.mp hplain
    simp [programLoop, ho, hc, hs, Cursor.begun]
  group := by
    intro c ho i t start parts
    rw [programLoop, if_pos ho, if_pos rfl]
    exact programLoop_group (i + 1) t 0

/-- A balanced text starts with an opening bracket or a separator if it does not start with a plain
character. -/
theorem Text.Balanced.opener_or_separator {c : Char} {t : Text} (h : Balanced (c :: t))
    (ht : ¬ StartsPlain (c :: t)) : isOpener c ∨ isSeparator c := by
  cases h with
  | char ho hc =>
    rw [startsPlain_cons, isPlain_iff] at ht
    exact .inr (by simpa [ho, hc] using ht)
  | group ho => exact .inl ho

namespace LevelPass

variable {α : Type} {text : Text} {k : Nat} {loop : Nat → Text → Cursor → α} {fail : Nat → α}
  {read t : Text} {parts : List Text}

/-- Separators in front of a part are passed over. -/
theorem gap_append (h : LevelPass text k loop fail) {gap : Text} (hg : IsGap gap) (i : Nat) :
    loop i (gap ++ t) ⟨k, none, parts⟩ = loop (i + gap.length) t ⟨k, none, parts⟩ := by
  induction gap generalizing i with
  | nil => rfl
  | cons c gap ih =>
    obtain ⟨hc, hg⟩ := List.forall_mem_cons.mp hg
    have hflushed : Cursor.flushed ⟨k, none, parts⟩ text i = parts := List.append_nil parts
    rw [List.cons_append, h.separator hc, hflushed, ih hg, List.length_cons, Nat.add_assoc,
      Nat.add_comm 1]

/-- Plain characters go with the part that is being read. -/
theorem plain_append (h : LevelPass text k loop fail) {w : Text} (hw : ∀ a ∈ w, isPlain a)
    (i start : Nat) :
    loop i (w ++ t) ⟨k, some start, parts⟩ = loop (i + w.length) t ⟨k, some start, parts⟩ := by
  induction w generalizing i with
  | nil => rfl
  | cons c w ih =>
    obtain ⟨hc, hw⟩ := List.forall_mem_cons.mp hw
    rw [List.cons_append, h.plain hc, Option.some_or, ih hw, List.length_cons, Nat.add_assoc,
      Nat.add_comm 1]

/-- A word is being read from its first character on. -/
theorem word_append (h : LevelPass text k loop fail) {w : Text} (hw : IsWord w) (i : Nat) :
    loop i (w ++ t) ⟨k, none, parts⟩ = loop (i + w.length) t ⟨k, some i, parts⟩ := by
  obtain ⟨hne, hplain⟩ := hw
  cases w with
  | nil => contradiction
  | cons c w =>
    obtain ⟨hc, hw⟩ := List.forall_mem_cons.mp hplain
    rw [List.cons_append, h.plain hc, Option.none_or, h.plain_append hw, List.length_cons,
      Nat.add_assoc, Nat.add_comm 1]

/-- A word is a part once the pass completes it. -/
theorem word_append_of_flush (h : LevelPass text k loop fail) {w : Text} (hw : IsWord w)
    (htext : text = read ++ (w ++ t))
    (hflush : ∀ start parts, loop (read.length + w.length) t ⟨k, some start, parts⟩ =
      loop (read.length + w.length) t
        ⟨k, none, parts ++ [text.slice start (read.length + w.length)]⟩) :
    loop read.length (w ++ t) ⟨k, none, parts⟩ =
      loop (read.length + w.length) t ⟨k, none, parts ++ [w]⟩ := by
  have hslice : text.slice read.length (read.length + w.length) = w := by
    rw [htext, slice_append]
  rw [h.word_append hw, hflush, hslice]

/-- A group is a part of its own. -/
theorem group_append (h : LevelPass text k loop fail) {p : Text} (hp : IsGroup p)
    (htext : text = read ++ (p ++ t)) :
    loop read.length (p ++ t) ⟨k, none, parts⟩ =
      loop (read.length + p.length) t ⟨k, none, parts ++ [p]⟩ := by
  have hslice : text.slice read.length (read.length + p.length) = p := by
    rw [htext, slice_append]
  obtain @⟨o, c, inside, ho, hi, hc⟩ := hp
  have happ : (o :: (inside ++ [c])) ++ t = o :: (inside ++ c :: t) := by simp
  have hlen : read.length + 1 + (inside ++ [c]).length =
      read.length + (o :: (inside ++ [c])).length := by
    rw [List.length_cons, Nat.add_assoc, Nat.add_comm 1]
  have hflushed : Cursor.flushed ⟨k, none, parts⟩ text read.length = parts := List.append_nil parts
  rw [happ, h.group ho, untilClosed_of_balanced hi hc, Option.elim_some, hflushed]
  simp only [hlen, hslice]

/-- An opening bracket or a separator completes the part that is being read. -/
theorem flush_cons (h : LevelPass text k loop fail) {c : Char} (hc : isOpener c ∨ isSeparator c)
    (i start : Nat) : loop i (c :: t) ⟨k, some start, parts⟩ =
      loop i (c :: t) ⟨k, none, parts ++ [text.slice start i]⟩ := by
  have hflushed : Cursor.flushed ⟨k, none, parts ++ [text.slice start i]⟩ text i =
      Cursor.flushed ⟨k, some start, parts⟩ text i := List.append_nil _
  rcases hc with ho | hs
  · rw [h.group ho, h.group ho, hflushed]
  · rw [h.separator hs, h.separator hs, hflushed]

/-- A pass over a level reads the parts that it is laid out with. If a word is at the end, the pass
has to complete it there. -/
theorem spread_append (h : LevelPass text k loop fail) {body : Text} {found : List Text}
    (hspread : Spread found body) (hparts : ∀ p ∈ found, IsPart p)
    (htext : text = read ++ (body ++ t))
    (hcut : (∀ a ∈ body.getLast?, isPlain a = false) ∨ ∀ start parts,
      loop (read ++ body).length t ⟨k, some start, parts⟩ =
        loop (read ++ body).length t
          ⟨k, none, parts ++ [text.slice start (read ++ body).length]⟩) (parts : List Text) :
    loop read.length (body ++ t) ⟨k, none, parts⟩ =
      loop (read ++ body).length t ⟨k, none, parts ++ found⟩ := by
  induction hspread generalizing read parts with
  | @nil gap hg => rw [h.gap_append hg, List.append_nil, List.length_append]
  | @cons gap part rest found hg happ hr ih =>
    obtain ⟨hpart, hrest⟩ := List.forall_mem_cons.mp hparts
    have happend : read ++ (gap ++ part ++ rest) = read ++ gap ++ part ++ rest := by simp
    rw [happend] at hcut ⊢
    have htext : text = read ++ gap ++ part ++ (rest ++ t) := by rw [htext]; simp
    have hlast : (∀ a ∈ rest.getLast?, isPlain a = false) ∨ _ := hcut.imp_left fun hplain a ha =>
      hplain a (by rw [List.getLast?_append, Option.mem_def.mp ha]; rfl)
    have hgo : loop (read ++ gap ++ part).length (rest ++ t) ⟨k, none, parts ++ [part]⟩ =
        loop (read ++ gap ++ part ++ rest).length t ⟨k, none, parts ++ [part] ++ found⟩ :=
      ih hrest htext hlast _
    have hcons : parts ++ part :: found = parts ++ [part] ++ found := List.append_cons _ _ _
    have hstart : read.length + gap.length = (read ++ gap).length := List.length_append.symm
    have hend : (read ++ gap ++ part).length = (read ++ gap).length + part.length :=
      List.length_append
    have htext := htext.trans (List.append_assoc _ _ _)
    rw [hcons, ← hgo, List.append_assoc, List.append_assoc, h.gap_append hg, hstart, hend]
    rcases hpart with hword | hgroup
    · refine h.word_append_of_flush hword htext fun start parts => ?_
      cases rest with
      | nil =>
        -- the word is at the end, so the pass completes it
        have hlast : part.getLast hword.1 ∈ (gap ++ part ++ []).getLast? := by
          rw [List.append_nil, List.getLast?_append, List.getLast?_eq_some_getLast hword.1]
          rfl
        have hplain : isPlain (part.getLast hword.1) := hword.2 _ (List.getLast_mem hword.1)
        have hflush := hcut.resolve_left fun hnone => by simp [hnone _ hlast] at hplain
        rw [List.append_nil, hend] at hflush
        exact hflush start parts
      | cons c rest =>
        have hnot : ¬ StartsPlain (c :: rest) := by simpa [opens_of_isWord hword] using happ
        exact h.flush_cons ((hr.balanced hrest).opener_or_separator hnot) _ start
    · exact h.group_append hgroup htext

end LevelPass

/-! ### What the passes come to -/

theorem Level.Ending.At.not_startsPlain {ending : Level.Ending} {t : Text} (h : ending.At t) :
    ¬ StartsPlain t := by
  cases h with
  | done => exact not_startsPlain_nil
  | closed hc => simp [isPlain, hc]
  | unclosed ho => simp [isPlain, ho]

/-- Where no plain character follows, a word of a form is complete. -/
theorem formLoop_flush {form t : Text} (ht : ¬ StartsPlain t) (i start : Nat) (parts : List Text) :
    formLoop form i t ⟨1, some start, parts⟩ =
      formLoop form i t ⟨1, none, parts ++ [form.slice start i]⟩ := by
  cases t with
  | nil => rfl
  | cons c t =>
    by_cases hc : isCloser c
    · simp [formLoop, hc, (not_opener_of_isCloser hc).1, Cursor.flushed]
    · rw [startsPlain_cons, isPlain_iff] at ht
      refine (formLoop_levelPass form).flush_cons ?_ i start
      by_cases ho : isOpener c
      · exact .inl ho
      · exact .inr (by simpa [ho, hc] using ht)

/-- Behind a balanced text, a bracket that nothing closes leaves a bracket before it open. -/
theorem Text.untilClosed_of_unclosed {body rest : Text} {o : Char} (hbal : Balanced body)
    (ho : isOpener o) (hnone : untilClosed 0 rest = none) :
    untilClosed 0 (body ++ o :: rest) = none := by
  have hd : depthAfter 0 o = 1 := by simp [depthAfter, ho]
  have hrest : untilClosed 1 rest = none := by
    by_contra hsome
    obtain ⟨⟨inside, after⟩, hclosed⟩ := Option.ne_none_iff_exists'.mp hsome
    obtain ⟨body, c, more, rfl, hbal, hc, -, -⟩ := exists_balanced_of_untilClosed hclosed
    rw [← append_of_untilClosed hclosed, List.append_assoc, List.cons_append,
      untilClosed_of_balanced hbal hc] at hnone
    contradiction
  rw [untilClosed_balanced_append hbal, untilClosed_cons (.inl (not_closer_of_isOpener ho).1), hd,
    hrest]
  rfl

/-- At the bracket that closes a form, the pass over it looks at what stands behind. -/
theorem formLoop_closer {o c : Char} {body rest : Text} (hc : isCloser c) (parts : List Text) :
    formLoop (o :: (body ++ c :: rest)) ([o] ++ body).length (c :: rest) ⟨1, none, parts⟩ =
      some (if trimStart rest = [] then .ok parts
        else .error (.trailingInput (o :: (body ++ [c])) (trimStart rest))) := by
  have htake : (o :: (body ++ c :: rest)).take (([o] ++ body).length + 1) = o :: (body ++ [c]) := by
    have happ : o :: (body ++ c :: rest) = (o :: (body ++ [c])) ++ rest := by simp
    have hlen : ([o] ++ body).length + 1 = (o :: (body ++ [c])).length := by simp
    rw [happ, hlen, List.take_left]
  simp only [formLoop, (not_opener_of_isCloser hc).1, hc, htake, Cursor.flushed]
  cases trimStart rest <;> simp

/-- The pass over a form cuts it as it is cut level by level, and never takes a bracket off where
none is open. -/
theorem cutForm_eq_splitForm (text : Text) : cutForm text = some (splitForm text) := by
  rw [cutForm, splitForm]
  cases trim text with
  | nil => rfl
  | cons o cs =>
    by_cases ho : isOpener o
    · obtain ⟨body, tail, rfl, hspread, hparts, hend⟩ := Level.exists_spread_scan cs
      have hbal := hspread.balanced hparts
      have hpass := formLoop_levelPass (o :: (body ++ tail))
      have htext : o :: (body ++ tail) = [o] ++ (body ++ tail) := rfl
      have hread := hpass.spread_append hspread hparts htext
        (.inr fun start parts => formLoop_flush hend.not_startsPlain _ start parts) []
      simp only [if_pos ho]
      rw [formLoop, if_pos ho, if_neg (by decide)]
      refine hread.trans ?_
      rw [splitGroup]
      generalize (Level.scan (body ++ tail)).parts = found at *
      generalize (Level.scan (body ++ tail)).ending = ending at *
      cases hend with
      | done =>
        rw [untilClosed_balanced_append hbal]
        rfl
      | @closed c rest hc =>
        rw [formLoop_closer hc, untilClosed_of_balanced hbal hc]
        simp only [Level.parts_scan_append_closer hspread hparts hc, List.nil_append]
        cases trimStart rest <;> simp
      | unclosed hb hnone =>
        rw [hpass.group hb, hnone, untilClosed_of_unclosed hbal hb hnone]
        rfl
    · simp only [if_neg ho]

/-- What stands before a character, found by the length of what stands behind it. -/
theorem Text.take_before (before : Text) (c : Char) (rest : Text) :
    (before ++ c :: rest).take ((before ++ c :: rest).length - (rest.length + 1)) = before := by
  have hlen : (before ++ c :: rest).length - (rest.length + 1) = before.length := by
    simp only [List.length_append, List.length_cons]
    omega
  rw [hlen, List.take_left]

/-- A text ends with its plain end, and no plain character stands before that. -/
theorem Text.exists_append_plainEnd (t : Text) :
    ∃ before, t = before ++ plainEnd t ∧ ∀ a ∈ before.getLast?, isPlain a = false := by
  refine ⟨t.rdropWhile isPlain, List.rdropWhile_append_rtakeWhile.symm, fun a ha => ?_⟩
  have hne : t.rdropWhile isPlain ≠ [] := by
    intro hnil
    simp [hnil] at ha
  have hlast := List.rdropWhile_last_not isPlain t hne
  rw [List.getLast?_eq_some_getLast hne] at ha
  obtain rfl := Option.some.inj ha
  simpa using hlast

theorem Text.isPlain_of_mem_plainEnd {t : Text} {a : Char} (ha : a ∈ plainEnd t) : isPlain a :=
  List.mem_rtakeWhile_imp ha

theorem Text.plainEnd_of_plain {before run : Text} (hrun : ∀ a ∈ run, isPlain a)
    (hbefore : ∀ a ∈ before.getLast?, isPlain a = false) : plainEnd (before ++ run) = run := by
  have hrev : ∀ a ∈ run.reverse, isPlain a := fun a ha => hrun a (List.mem_reverse.mp ha)
  have hnone : ¬ StartsPlain before.reverse := by
    rintro ⟨a, ha, hplain⟩
    rw [List.head?_reverse] at ha
    simp [hbefore a ha] at hplain
  rw [plainEnd, List.reverse_append, (cut_plain_append hrev hnone).1, List.reverse_reverse]

theorem Text.Balanced.of_concat {t : Text} {c : Char} (h : Balanced (t ++ [c]))
    (hc : isCloser c = false) : Balanced t := by
  generalize hs : t ++ [c] = s at h
  induction h generalizing t with
  | nil => simp at hs
  | @char a s ho ha _ ih =>
    cases t with
    | nil => exact .nil
    | cons b t =>
      obtain ⟨rfl, htail⟩ := List.cons.inj hs
      exact .char ho ha (ih htail)
  | @group o b inside s ho hi hb _ _ ih =>
    rcases List.eq_nil_or_concat s with rfl | ⟨s, a, rfl⟩
    · rw [← List.cons_append] at hs
      obtain ⟨-, heq⟩ := List.append_inj' hs rfl
      simp [(List.cons.inj heq).1, hb] at hc
    · have hsplit : o :: (inside ++ b :: s.concat a) = (o :: (inside ++ b :: s)) ++ [a] := by simp
      rw [hsplit] at hs
      obtain ⟨rfl, heq⟩ := List.append_inj' hs rfl
      exact .group ho hi hb (ih (by rw [heq, List.concat_eq_append]))

/-- Without plain characters at its end a text is still balanced. -/
theorem Text.Balanced.of_append_plain {t run : Text} (h : Balanced (t ++ run))
    (hrun : ∀ a ∈ run, isPlain a) : Balanced t := by
  induction run using List.reverseRecOn with
  | nil => rwa [List.append_nil] at h
  | append_singleton run a ih =>
    obtain ⟨hrun, ha⟩ := List.forall_mem_append.mp hrun
    rw [← List.append_assoc] at h
    exact ih (h.of_concat (isPlain_iff.mp (ha a (by simp))).2.1) hrun

/-- The pass over a program reports a closing bracket that closes nothing with the word before
it. -/
theorem cutProgram_stray {body rest : Text} {c : Char} (hbal : Balanced body) (hc : isCloser c) :
    cutProgram (body ++ c :: rest) = .error (.unbalanced (plainEnd body ++ [c])) := by
  obtain ⟨before, hbody, hbefore⟩ := exists_append_plainEnd body
  have hplain : ∀ a ∈ plainEnd body, isPlain a := fun a => isPlain_of_mem_plainEnd
  generalize plainEnd body = run at *
  subst hbody
  have hsource : before ++ run ++ c :: rest = before ++ ((run ++ [c]) ++ rest) := by simp
  have hpass := programLoop_levelPass (before ++ run ++ c :: rest)
  -- the pass has read what stands before the word, and then the word
  obtain ⟨found, hspread, hparts⟩ := (hbal.of_append_plain hplain).exists_spread
  have hread := hpass.spread_append hspread hparts
    ((List.append_assoc _ _ _).trans (List.nil_append _).symm) (.inl hbefore) []
  have hstray (start : Option Nat) (parts : List Text)
      (hstart : start.getD (before.length + run.length) = before.length) :
      programLoop (before ++ run ++ c :: rest) (before.length + run.length) (c :: rest)
        ⟨0, start, parts⟩ = .error (.unbalanced (run ++ [c])) := by
    have hlen : before.length + run.length + 1 = before.length + (run ++ [c]).length := by
      simp [Nat.add_assoc]
    simp only [programLoop, hc, (not_opener_of_isCloser hc).1, hstart]
    rw [hsource, hlen, slice_append]
    rfl
  rw [cutProgram]
  nth_rewrite 2 [List.append_assoc]
  refine hread.trans ?_
  cases run with
  | nil => exact hstray none _ rfl
  | cons a run =>
    rw [hpass.word_append ⟨List.cons_ne_nil a run, hplain⟩]
    exact hstray (some _) _ rfl

/-- The pass over a program cuts it as it is cut level by level. -/
theorem cutProgram_eq_splitProgram (source : Text) : cutProgram source = splitProgram source := by
  obtain ⟨body, tail, hs, hspread, hparts, hend⟩ := Level.exists_spread_scan source
  have hbal := hspread.balanced hparts
  have hpass := programLoop_levelPass source
  rw [splitProgram, cutProgram]
  generalize (Level.scan source).parts = found at *
  generalize (Level.scan source).ending = ending at *
  cases hend with
  | done =>
    obtain rfl : source = body := hs.trans (List.append_nil body)
    have htext : source = [] ++ (source ++ []) := (List.append_nil source).symm
    have hread := hpass.spread_append hspread hparts htext (.inr fun start parts => by
      simp [programLoop, slice]) []
    rw [List.append_nil] at hread
    exact hread
  | @closed c rest hc =>
    subst hs
    simp only [take_before]
    exact cutProgram_stray hbal hc
  | @unclosed o rest ho hnone =>
    have htext : source = [] ++ (body ++ o :: rest) := hs
    have hread := hpass.spread_append hspread hparts htext
      (.inr fun start parts => hpass.flush_cons (.inl ho) _ start) []
    rw [hpass.group ho, hnone] at hread
    rw [hs] at hread ⊢
    refine hread.trans ?_
    simp

end UnaryLisp
