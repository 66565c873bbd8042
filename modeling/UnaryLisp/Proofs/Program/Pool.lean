import Mathlib.Data.Finset.Card
import Mathlib.Data.Set.Finite.List
import UnaryLisp.Proofs.Expr.Reading
import UnaryLisp.Proofs.Program.Evaluation

/-!
# Parallel runs

A pool of workers evaluates the expressions of a program: a worker takes up an expression that no
other one has, and at some later time ends its evaluation. Nothing is said of the order in which
expressions are taken up, or of the order in which their evaluations end, or of how many are under
way at a time. Closures have identities of their own in whatever evaluation they are made.

Whatever the workers do, they come to an end if all evaluations do, and what they end with is the
result of the evaluation in order: the same values, the identities of closures aside, or the failure
of the earliest expression that fails.

## Main definitions

* `Pool.State`, `Pool.Step`: workers in the middle of a run, and what may happen next.
* `Pool.Reachable`, `Pool.State.Over`: the states that occur, and those in which all is done.
* `Pool.Complete`: a schedule lets every expression come to its turn once.
* `Program.Returns`, `Program.Terminates`: what a run of a program ends with, and programs all of
  whose evaluations end.
* `Program.Earliest`: the earliest failure of a program.

## Main results

* `Pool.State.Sound.step`, `Pool.Reachable.sound`: what workers keep, in one step and in a run.
* `Pool.Step.wellFounded`, `Pool.State.Sound.exists_step`: workers go on until all is done.
* `Pool.State.Sound.exists_separate`: what they end with is the result of separate evaluations.
* `Pool.exists_over_of_inTurn`: evaluation by turns is something that workers may do.
* `Program.parallel_alike_sequential`: a parallel run returns what the run in order returns.
-/

namespace UnaryLisp

open Program

namespace Pool

/-! ### Workers -/

/-- Workers in the middle of a parallel run. An expression is given by its place in the program. -/
structure State where
  /-- The expressions that no worker has taken up. -/
  waiting : Finset Nat
  /-- The expressions that workers are evaluating. -/
  started : Finset Nat
  /-- The evaluations that have ended, the latest last. -/
  ended : List (Nat × Turn)

/-- No worker has taken up an expression. -/
def State.initial (count : Nat) : State :=
  ⟨Finset.range count, ∅, []⟩

/-- A worker takes up an expression or ends an evaluation. The evaluation numbers its closures with
numbers that no evaluation that has ended uses. -/
inductive Step (maxDepth : Option Nat) (forms : List Text) : State → State → Prop
  | start {s : State} {index : Nat} (h : index ∈ s.waiting) :
      Step maxDepth forms s
        ⟨s.waiting.erase index, insert index s.started, s.ended⟩
  | finish {s : State} {index : Nat} {form : Text} {turn : Turn} (h : index ∈ s.started)
      (hform : forms[index]? = some form) (hturn : turn.Of maxDepth form)
      (hapart : ∀ p ∈ s.ended, p.2.Apart turn) :
      Step maxDepth forms s
        ⟨s.waiting, s.started.erase index, s.ended ++ [(index, turn)]⟩

/-- The state occurs in a parallel run. -/
def Reachable (maxDepth : Option Nat) (forms : List Text) (s : State) : Prop :=
  Relation.ReflTransGen (Step maxDepth forms) (.initial forms.length) s

namespace State

/-- All expressions have been evaluated. -/
def Over (s : State) : Prop :=
  s.waiting = ∅ ∧ s.started = ∅

/-- The evaluations that have ended, with the places of their expressions. -/
def evaluations (s : State) : List (Nat × Evaluation) :=
  s.ended.map fun p => (p.1, p.2.evaluation)

/-- The result that the workers end with: what `count` evaluations give in the order of the
text. -/
def outcome (s : State) (count : Nat) : Except Failure (List Value) :=
  (collect count s.evaluations).mapM Evaluation.result

/-! ### What workers keep -/

/-- Every expression of the program is waiting, started or evaluated, the evaluations are those of
their expressions, and no two of them use the same number. -/
structure Sound (maxDepth : Option Nat) (forms : List Text) (s : State) : Prop where
  lt : ∀ index, index ∈ s.waiting ∨ index ∈ s.started → index < forms.length
  covered : ∀ index < forms.length,
    index ∈ s.waiting ∨ index ∈ s.started ∨ ∃ turn, (index, turn) ∈ s.ended
  evaluated : ∀ p ∈ s.ended, ∃ form, forms[p.1]? = some form ∧ p.2.Of maxDepth form
  apart : s.ended.Pairwise fun p q => p.2.Apart q.2

variable {maxDepth : Option Nat} {forms : List Text} {s s' : State}

theorem sound_initial (maxDepth : Option Nat) (forms : List Text) :
    (initial forms.length).Sound maxDepth forms where
  lt index h := by simpa [initial] using h
  covered index h := .inl (Finset.mem_range.mpr h)
  evaluated := by simp [initial]
  apart := List.Pairwise.nil

theorem Sound.step (h : s.Sound maxDepth forms) (hstep : Step maxDepth forms s s') :
    s'.Sound maxDepth forms := by
  cases hstep with
  | @start taken htaken =>
    refine ⟨fun index hindex => ?_, fun index hindex => ?_, h.evaluated, h.apart⟩
    · rcases hindex with hw | hs
      · exact h.lt index (.inl (Finset.mem_of_mem_erase hw))
      · rcases Finset.mem_insert.mp hs with rfl | hs
        · exact h.lt index (.inl htaken)
        · exact h.lt index (.inr hs)
    · by_cases heq : index = taken
      · exact .inr (.inl (heq ▸ Finset.mem_insert_self taken s.started))
      · exact (h.covered index hindex).imp (Finset.mem_erase_of_ne_of_mem heq)
          (Or.imp_left Finset.mem_insert_of_mem)
  | @finish done form turn hdone hform hturn hapart =>
    refine ⟨fun index hindex => ?_, fun index hindex => ?_, fun p hp => ?_, ?_⟩
    · exact h.lt index (hindex.imp_right Finset.mem_of_mem_erase)
    · by_cases heq : index = done
      · exact .inr (.inr ⟨turn, heq ▸ List.mem_append_right _ (List.mem_singleton_self _)⟩)
      · refine (h.covered index hindex).imp_right (Or.imp (Finset.mem_erase_of_ne_of_mem heq) ?_)
        exact fun ⟨other, hother⟩ => ⟨other, List.mem_append_left _ hother⟩
    · rcases List.mem_append.mp hp with hp | hp
      · exact h.evaluated p hp
      · obtain rfl := List.mem_singleton.mp hp
        exact ⟨form, hform, hturn⟩
    · refine List.pairwise_append.mpr ⟨h.apart, List.pairwise_singleton _ _, fun p hp q hq => ?_⟩
      obtain rfl := List.mem_singleton.mp hq
      exact hapart p hp

end State

variable {maxDepth : Option Nat} {forms : List Text} {s s' : State}

theorem Reachable.sound (h : Reachable maxDepth forms s) : s.Sound maxDepth forms := by
  induction h with
  | refl => exact State.sound_initial maxDepth forms
  | tail _ hstep ih => exact ih.step hstep

/-! ### Workers come to an end -/

/-- The number of steps that are left. -/
def State.remaining (s : State) : Nat :=
  2 * s.waiting.card + s.started.card

/-- Every step leaves fewer. -/
theorem Step.remaining_lt (h : Step maxDepth forms s s') : s'.remaining < s.remaining := by
  cases h with
  | @start index h =>
    have hwaiting := Finset.card_erase_add_one h
    have hstarted := Finset.card_insert_le index s.started
    simp only [State.remaining]
    omega
  | finish h =>
    have hstarted := Finset.card_erase_add_one h
    simp only [State.remaining]
    omega

/-- Whatever the workers do, they cannot go on for ever. -/
theorem Step.wellFounded (maxDepth : Option Nat) (forms : List Text) :
    WellFounded fun s' s => Step maxDepth forms s s' :=
  Subrelation.wf Step.remaining_lt (measure State.remaining).wf

/-- As long as not all is done, a worker can go on. -/
theorem State.Sound.exists_step (h : s.Sound maxDepth forms)
    (hhalts : ∀ form ∈ forms, Halts maxDepth form) (hover : ¬ s.Over) :
    ∃ s', Step maxDepth forms s s' := by
  rcases s.waiting.eq_empty_or_nonempty with hwaiting | ⟨index, hindex⟩
  · rcases s.started.eq_empty_or_nonempty with hstarted | ⟨index, hindex⟩
    · exact absurd ⟨hwaiting, hstarted⟩ hover
    · have hlt := h.lt index (.inr hindex)
      obtain ⟨room, evaluation₀, heval₀⟩ := hhalts _ (List.getElem_mem hlt)
      -- count on from a number that no evaluation has reached
      obtain ⟨bound, hbound⟩ :=
        (List.finite_toSet (s.ended.map fun p => p.2.evaluation.fresh)).bddAbove
      obtain ⟨evaluation, count, heval, -⟩ := evaluate_shift heval₀ bound
      have hapart (p) (hp : p ∈ s.ended) : p.2.Apart ⟨bound, evaluation⟩ :=
        Turn.apart_of_le (hbound (List.mem_map.mpr ⟨p, hp, rfl⟩))
      exact ⟨_, .finish hindex (List.getElem?_eq_getElem hlt) ⟨room, heval⟩ hapart⟩
  · exact ⟨_, .start hindex⟩

/-! ### What workers end with -/

theorem lookup_evaluations (index : Nat) (ended : List (Nat × Turn)) :
    (ended.map fun p => (p.1, p.2.evaluation)).lookup index =
      (ended.lookup index).map Turn.evaluation := by
  induction ended with
  | nil => rfl
  | cons p ended ih =>
    obtain ⟨other, turn⟩ := p
    rw [List.map_cons, List.lookup_cons, List.lookup_cons]
    cases index == other with
    | false => exact ih
    | true => rfl

theorem collect_eq_map {count : Nat} {done : List (Nat × Evaluation)}
    {evaluation : Fin count → Evaluation}
    (h : ∀ i : Fin count, done.lookup i.val = some (evaluation i)) :
    collect count done = (List.finRange count).map evaluation := by
  rw [collect, ← List.map_coe_finRange_eq_range, List.filterMap_map, ← List.filterMap_eq_map]
  exact List.filterMap_congr fun i _ => h i

/-- When all is done, every expression has been evaluated. -/
theorem State.Sound.exists_lookup (h : s.Sound maxDepth forms) (hover : s.Over)
    (i : Fin forms.length) :
    ∃ turn, s.ended.lookup i.val = some turn ∧ (i.val, turn) ∈ s.ended := by
  rcases h.covered i i.isLt with hwaiting | hstarted | ⟨turn, hturn⟩
  · simp [hover.1] at hwaiting
  · simp [hover.2] at hstarted
  · obtain ⟨found, hfound⟩ := Option.isSome_iff_exists.mp
      (List.lookup_isSome_iff.mpr ⟨_, hturn, beq_self_eq_true i.val⟩)
    obtain ⟨before, after, heq, -⟩ := List.lookup_eq_some_iff.mp hfound
    exact ⟨found, hfound, heq ▸ List.mem_append_right _ List.mem_cons_self⟩

/-- When all is done, the workers end with the result that the evaluations of all expressions have
together. -/
theorem State.Sound.exists_separate (h : s.Sound maxDepth forms) (hover : s.Over) :
    ∃ turn : Fin forms.length → Turn, Separate maxDepth forms turn ∧
      s.outcome forms.length = Turn.outcome turn := by
  choose turn hfound hmem using h.exists_lookup hover
  refine ⟨turn, ⟨fun i => ?_, fun i j hij => ?_⟩, ?_⟩
  · obtain ⟨form, hform, hof⟩ := h.evaluated _ (hmem i)
    obtain rfl : forms.get i = form := by
      rw [List.getElem?_eq_getElem i.isLt] at hform
      exact Option.some.inj hform
    exact hof
  · have hsymm : Std.Symm fun p q : Nat × Turn => p.2.Apart q.2 := ⟨fun _ _ => Turn.Apart.symm⟩
    refine h.apart.forall (hmem i) (hmem j) fun heq => hij (Fin.ext ?_)
    exact congrArg Prod.fst heq
  · have hcollect : collect forms.length s.evaluations =
        (List.finRange forms.length).map fun i => (turn i).evaluation := by
      refine collect_eq_map fun i => ?_
      rw [State.evaluations, lookup_evaluations, hfound, Option.map_some]
    rw [State.outcome, hcollect, List.mapM_map, Turn.outcome]
    rfl

/-! ### Evaluation by turns -/

theorem exists_inTurn {room : Nat}
    (h : ∀ form ∈ forms, ∀ first, ∃ evaluation,
      evaluate room maxDepth first form = some evaluation) (first : Nat) (order : List Nat) :
    ∃ done, inTurn room maxDepth forms first order = some done := by
  induction order generalizing first with
  | nil => exact ⟨[], rfl⟩
  | cons index order ih =>
    rw [inTurn]
    cases hform : forms[index]? with
    | none => exact ih first
    | some form =>
      obtain ⟨evaluation, heval⟩ := h form (List.mem_of_getElem? hform) first
      obtain ⟨done, hdone⟩ := ih evaluation.fresh
      exact ⟨(index, evaluation) :: done, by simp only [heval, hdone, Option.map_some]⟩

/-- A worker takes up an expression and ends its evaluation, with nothing in between. -/
theorem turn_steps {waiting : Finset Nat} {ended : List (Nat × Turn)} {index : Nat} {form : Text}
    {turn : Turn} (hindex : index ∈ waiting) (hform : forms[index]? = some form)
    (hturn : turn.Of maxDepth form) (hapart : ∀ p ∈ ended, p.2.Apart turn) :
    Relation.ReflTransGen (Step maxDepth forms) ⟨waiting, ∅, ended⟩
      ⟨waiting.erase index, ∅, ended ++ [(index, turn)]⟩ := by
  have hstart : Step maxDepth forms ⟨waiting, ∅, ended⟩
      ⟨waiting.erase index, insert index ∅, ended⟩ := .start hindex
  have hfinish : Step maxDepth forms ⟨waiting.erase index, insert index ∅, ended⟩
      ⟨waiting.erase index, (insert index ∅ : Finset Nat).erase index, ended ++ [(index, turn)]⟩ :=
    .finish (Finset.mem_insert_self index ∅) hform hturn hapart
  rw [Finset.erase_insert (Finset.notMem_empty index)] at hfinish
  exact .head hstart (.single hfinish)

/-- Evaluation by turns is what a single worker does. The number that it counts on from is ahead of
all evaluations that have ended. -/
theorem steps_of_inTurn {room first : Nat} {order : List Nat} {done : List (Nat × Evaluation)}
    {ended : List (Nat × Turn)} (h : inTurn room maxDepth forms first order = some done)
    (hnodup : order.Nodup) (hlt : ∀ index ∈ order, index < forms.length)
    (hfirst : ∀ p ∈ ended, p.2.evaluation.fresh ≤ first) :
    ∃ added, Relation.ReflTransGen (Step maxDepth forms) ⟨order.toFinset, ∅, ended⟩
        ⟨∅, ∅, ended ++ added⟩ ∧
      done = added.map fun p => (p.1, p.2.evaluation) := by
  induction order generalizing first done ended with
  | nil =>
    obtain rfl := Option.some.inj h
    exact ⟨[], by rw [List.append_nil]; exact .refl, rfl⟩
  | cons index order ih =>
    rw [List.nodup_cons] at hnodup
    rw [List.forall_mem_cons] at hlt
    have hform := List.getElem?_eq_getElem hlt.1
    rw [inTurn, hform] at h
    dsimp only at h
    split at h
    · contradiction
    · next evaluation heval =>
      obtain ⟨rest, hrest, rfl⟩ := Option.map_eq_some_iff.mp h
      obtain ⟨_, count, -, hcount, -⟩ := evaluate_shift heval first
      have hindex : index ∈ (index :: order).toFinset := List.mem_toFinset.mpr List.mem_cons_self
      have herase : (index :: order).toFinset.erase index = order.toFinset := by
        rw [List.toFinset_cons, Finset.erase_insert (mt List.mem_toFinset.mp hnodup.1)]
      let turn : Turn := ⟨first, evaluation⟩
      have hapart (p) (hp : p ∈ ended) : p.2.Apart turn := Turn.apart_of_le (hfirst p hp)
      have hturn := turn_steps hindex hform ⟨room, heval⟩ hapart
      have hfirst' : ∀ p ∈ ended ++ [(index, turn)], p.2.evaluation.fresh ≤ evaluation.fresh := by
        rw [List.forall_mem_append, List.forall_mem_singleton]
        exact ⟨fun p hp => (hfirst p hp).trans (hcount ▸ Nat.le_add_right first count), le_rfl⟩
      obtain ⟨added, hsteps, rfl⟩ := ih hrest hnodup.2 hlt.2 hfirst'
      rw [List.append_assoc, List.singleton_append] at hsteps
      exact ⟨(index, turn) :: added, .trans (herase ▸ hturn) hsteps, rfl⟩

/-- The schedule lets every expression come to its turn once. -/
def Complete : Pool → Prop
  | .unavailable => True
  | .scheduled order => ∀ count, (order count).Perm (List.range count)

/-- Evaluation by turns is something that workers may do. -/
theorem exists_over_of_inTurn {room : Nat} {order : List Nat} {done : List (Nat × Evaluation)}
    (h : inTurn room maxDepth forms 0 order = some done)
    (horder : order.Perm (List.range forms.length)) :
    ∃ s, Reachable maxDepth forms s ∧ s.Over ∧ s.evaluations = done := by
  have hlt : ∀ index ∈ order, index < forms.length :=
    fun index hindex => List.mem_range.mp (horder.mem_iff.mp hindex)
  obtain ⟨added, hsteps, rfl⟩ :=
    steps_of_inTurn h (horder.nodup_iff.mpr List.nodup_range) hlt (List.forall_mem_nil _)
  have hwaiting : order.toFinset = Finset.range forms.length := by
    ext index
    rw [List.mem_toFinset, horder.mem_iff, List.mem_range, Finset.mem_range]
  rw [hwaiting, List.nil_append] at hsteps
  exact ⟨⟨∅, ∅, added⟩, hsteps, ⟨rfl, rfl⟩, rfl⟩

end Pool

namespace Program

variable {pool : Pool} {maxDepth : Option Nat} {forms : List Text}

/-! ### Both ways of evaluation -/

theorem exists_inParallel (hhalts : ∀ form ∈ forms, Halts maxDepth form) (pool : Pool) :
    ∃ room evaluations, inParallel pool room maxDepth forms = some evaluations := by
  obtain ⟨room, hroom⟩ := exists_room hhalts
  refine ⟨room, ?_⟩
  cases pool with
  | unavailable => exact exists_inOrder hroom 0
  | scheduled order =>
    obtain ⟨done, hdone⟩ := Pool.exists_inTurn hroom 0 (order forms.length)
    exact ⟨collect forms.length done, by rw [inParallel, hdone, Option.map_some]⟩

/-- All workers that come to an end, and all complete schedules, give the result of an evaluation in
order. -/
theorem exists_outcome (hhalts : ∀ form ∈ forms, Halts maxDepth form) :
    ∃ outcome,
      (∀ room evaluations, inOrder room maxDepth 0 forms = some evaluations →
        evaluations.mapM Evaluation.result = outcome) ∧
      (∀ s, Pool.Reachable maxDepth forms s → s.Over → Alike outcome (s.outcome forms.length)) ∧
      ∀ pool room evaluations, pool.Complete →
        inParallel pool room maxDepth forms = some evaluations →
          Alike outcome (evaluations.mapM Evaluation.result) := by
  obtain ⟨turn, hturn, -, hresult⟩ := exists_separate hhalts 0
  have hover (s) (hs : Pool.Reachable maxDepth forms s) (hover : s.Over) :
      Alike (Turn.outcome turn) (s.outcome forms.length) := by
    obtain ⟨turn', hturn', houtcome⟩ := hs.sound.exists_separate hover
    exact houtcome ▸ hturn.alike hturn'
  refine ⟨Turn.outcome turn, hresult, hover, fun pool room evaluations hpool hrun => ?_⟩
  cases pool with
  | unavailable => exact hresult room evaluations hrun ▸ hturn.alike hturn
  | scheduled order =>
    obtain ⟨done, hdone, rfl⟩ := Option.map_eq_some_iff.mp hrun
    obtain ⟨s, hs, hend, rfl⟩ := Pool.exists_over_of_inTurn hdone (hpool forms.length)
    exact hover s hs hend

/-! ### Programs -/

/-- The program is run to the result. -/
def Returns (pool : Pool) (config : Config) (source : Text)
    (outcome : Except Failure (List Value)) : Prop :=
  ∃ room, runWith pool room config source = some outcome

/-- The evaluation of every expression of the program ends. -/
def Terminates (maxDepth : Option Nat) (source : Text) : Prop :=
  ∀ forms, splitProgram source = .ok forms → ∀ form ∈ forms, Halts maxDepth form

/-- The earliest failure of a program: its brackets do not match, or an expression fails after
others that do not. -/
inductive Earliest (maxDepth : Option Nat) (source : Text) : Failure → Prop
  | split {cause : SyntaxError} (h : splitProgram source = .error cause) :
      Earliest maxDepth source (.malformed cause)
  | form {before : List Text} {form : Text} {after : List Text} {failure : Failure}
      (h : splitProgram source = .ok (before ++ form :: after))
      (hbefore : ∀ earlier ∈ before, ∃ v, Gives maxDepth earlier (.ok v))
      (hform : Gives maxDepth form (.error failure)) : Earliest maxDepth source failure

theorem returns_of_error {config : Config} {source : Text} {cause : SyntaxError}
    {outcome : Except Failure (List Value)} (h : splitProgram source = .error cause) :
    Returns pool config source outcome ↔ outcome = .error (.malformed cause) := by
  simp [Returns, runWith, reportWith, h, Except.bind, eq_comm]

theorem returns_inOrder {source : Text} {outcome : Except Failure (List Value)}
    (h : splitProgram source = .ok forms) :
    Returns pool ⟨false, maxDepth⟩ source outcome ↔
      ∃ room evaluations, inOrder room maxDepth 0 forms = some evaluations ∧
        evaluations.mapM Evaluation.result = outcome := by
  simp [Returns, runWith, reportWith, h, Except.bind, Report.result]

theorem returns_inParallel {source : Text} {outcome : Except Failure (List Value)}
    (h : splitProgram source = .ok forms) :
    Returns pool ⟨true, maxDepth⟩ source outcome ↔
      ∃ room evaluations, inParallel pool room maxDepth forms = some evaluations ∧
        evaluations.mapM Evaluation.result = outcome := by
  simp [Returns, runWith, reportWith, h, Except.bind, Report.result]

theorem earliest_of_returns {source : Text} {failure : Failure}
    (h : Returns pool ⟨false, maxDepth⟩ source (.error failure)) :
    Earliest maxDepth source failure := by
  cases hsplit : splitProgram source with
  | error cause =>
    obtain rfl := Except.error.inj ((returns_of_error hsplit).mp h)
    exact .split hsplit
  | ok forms =>
    obtain ⟨room, evaluations, hrun, hfail⟩ := (returns_inOrder hsplit).mp h
    obtain ⟨before, form, after, rfl, hform, hbefore⟩ := earliest_of_inOrder hrun hfail
    exact .form hsplit hbefore hform

/-- A run in order ends with one result, and a failure that it ends with is the earliest. A parallel
run ends with the same result, the identities of closures aside, whatever its schedule, and also if
there is no pool. So do workers that take up expressions and end evaluations in any order: they
neither go on for ever nor get stuck before all is done. Without a ceiling, all evaluations are
assumed to end. -/
theorem parallel_alike_sequential {pool : Pool} {maxDepth : Option Nat} {source : Text}
    (hpool : pool.Complete) (hends : maxDepth = none → Terminates none source) :
    ∃ outcome,
      (∀ other, Returns pool ⟨false, maxDepth⟩ source other ↔ other = outcome) ∧
      (∀ failure, outcome = .error failure → Earliest maxDepth source failure) ∧
      (∃ other, Returns pool ⟨true, maxDepth⟩ source other) ∧
      (∀ other, Returns pool ⟨true, maxDepth⟩ source other → Alike outcome other) ∧
      ∀ forms, splitProgram source = .ok forms →
        WellFounded (fun s' s => Pool.Step maxDepth forms s s') ∧
        ∀ s, Pool.Reachable maxDepth forms s →
          (¬ s.Over → ∃ s', Pool.Step maxDepth forms s s') ∧
          (s.Over → Alike outcome (s.outcome forms.length)) := by
  have hhalts : Terminates maxDepth source := by
    cases maxDepth with
    | none => exact hends rfl
    | some max => exact fun _ _ form _ => halts_some max form
  cases hsplit : splitProgram source with
  | error cause =>
    have hseq (config other) := @returns_of_error pool config source cause other hsplit
    refine ⟨.error (.malformed cause), hseq _, fun failure h => ?_, ⟨_, (hseq _ _).mpr rfl⟩,
      fun other h => ?_, fun forms h => ?_⟩
    · exact earliest_of_returns ((hseq _ _).mpr h.symm)
    · exact (hseq _ _).mp h ▸ alike_error _
    · contradiction
  | ok forms =>
    have hforms := hhalts forms hsplit
    obtain ⟨outcome, houtcome, hover, hpar⟩ := exists_outcome hforms
    have hseq (other) : Returns pool ⟨false, maxDepth⟩ source other ↔ other = outcome := by
      rw [returns_inOrder hsplit]
      constructor
      · rintro ⟨room, evaluations, hrun, rfl⟩
        exact houtcome room evaluations hrun
      · rintro rfl
        obtain ⟨room, hroom⟩ := exists_room hforms
        obtain ⟨evaluations, hrun⟩ := exists_inOrder hroom 0
        exact ⟨room, evaluations, hrun, houtcome room evaluations hrun⟩
    refine ⟨outcome, hseq, fun failure h => ?_, ?_, fun other h => ?_, fun forms' h => ?_⟩
    · exact earliest_of_returns ((hseq _).mpr h.symm)
    · obtain ⟨room, evaluations, hrun⟩ := exists_inParallel hforms pool
      exact ⟨_, (returns_inParallel hsplit).mpr ⟨room, evaluations, hrun, rfl⟩⟩
    · obtain ⟨room, evaluations, hrun, rfl⟩ := (returns_inParallel hsplit).mp h
      exact hpar pool room evaluations hpool hrun
    · obtain rfl := Except.ok.inj h
      exact ⟨Pool.Step.wellFounded maxDepth forms, fun s hs =>
        ⟨hs.sound.exists_step hforms, hover s hs⟩⟩

/-- Both expressions of this program fail, and the later one is evaluated first. -/
theorem parallel_alike_sequential_reversed :
    Pool.Complete (.scheduled fun count => (List.range count).reverse) ∧
      Terminates none ['y', ' ', 'z'] ∧
      Returns (.scheduled fun count => (List.range count).reverse) ⟨true, none⟩
        ['y', ' ', 'z'] (.error (.undefined (.unboundVariable ['y']))) := by
  have hsplit : splitProgram ['y', ' ', 'z'] = .ok [['y'], ['z']] := by decide +kernel
  have hy : evaluate 1 none 0 ['y'] =
      some ⟨.error (.undefined (.unboundVariable ['y'])), 0, []⟩ := by
    rw [evaluate, Expr.parse_of_read rfl]
    rfl
  have hz : evaluate 1 none 0 ['z'] =
      some ⟨.error (.undefined (.unboundVariable ['z'])), 0, []⟩ := by
    rw [evaluate, Expr.parse_of_read rfl]
    rfl
  have hpool : Pool.Complete (.scheduled fun count => (List.range count).reverse) :=
    fun count => List.reverse_perm _
  have hends : Terminates none ['y', ' ', 'z'] := by
    intro forms h
    obtain rfl := Except.ok.inj (hsplit.symm.trans h)
    exact List.forall_mem_cons.mpr ⟨⟨1, _, hy⟩, List.forall_mem_singleton.mpr ⟨1, _, hz⟩⟩
  refine ⟨hpool, hends, ?_⟩
  obtain ⟨outcome, hseq, -, ⟨other, hother⟩, halike, -⟩ :=
    parallel_alike_sequential hpool fun _ => hends
  obtain rfl := (hseq (.error (.undefined (.unboundVariable ['y'])))).mp
    ((returns_inOrder hsplit).mpr ⟨1, _, by rw [inOrder, hy], rfl⟩)
  obtain ⟨π, rfl⟩ := halike other hother
  exact hother

end Program

end UnaryLisp
