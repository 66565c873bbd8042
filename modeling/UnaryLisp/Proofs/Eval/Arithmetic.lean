import UnaryLisp.Proofs.Eval.Adequacy

/-!
# Exact arithmetic

An arithmetic expression is put together by `+`, `-`, `*` and `/` from numbers, and perhaps from
truth values and procedures, which are not what these operators take. Its exact value is an integer
of any size. Evaluation gives this value if no operator inside fails, and otherwise the error of the
operator that fails first, where operands come before their operator and left before right. So
numbers are never rounded or wrapped, and of several operators that fail it is known which one is
reported.

## Main definitions

* `Expr.IsArithmetic`: the arithmetic expressions.
* `Expr.HasValue`: the exact value of an expression.
* `Expr.postorder`: the subexpressions in post-order.
* `Expr.Calculable`: every subexpression has an exact value that 64 bits hold.
* `Expr.Fails`: an operator fails at its operands, and with which error.
* `Expr.FirstFault`: the error of the first operator that fails.

## Main results

* `Expr.Verdict.binary`: what an operator gives is the verdict on the expression.
* `Expr.exists_bigStep`: an arithmetic expression is evaluated to what the verdict says.
* `Operator.Exact.eq_of_overflow`: a quotient overflows for one pair of operands only.
* `Expr.ends_arithmetic`: arithmetic is exact, or fails at the first operator that does.
-/

namespace UnaryLisp

/-! ### Integers of 64 bits -/

/-- 64 bits hold the integer. -/
def Number.Holds (i : Int) : Prop :=
  -9223372036854775808 ≤ i ∧ i ≤ 9223372036854775807

theorem Number.holds_toInt (n : Number) : Holds n.toInt :=
  ⟨n.minValue_le_toInt, n.toInt_le⟩

theorem Number.not_holds_iff {i : Int} :
    ¬ Holds i ↔ i < Int64.minValue.toInt ∨ Int64.maxValue.toInt < i := by
  rw [Holds, Int64.toInt_minValue, Int64.toInt_maxValue]
  omega

namespace Operator.Exact

variable {op : Operator} {a b i j : Int}

theorem unique (h : op.Exact a b i) (h' : op.Exact a b j) : i = j := by
  cases h <;> cases h' <;> rfl

/-- A quotient of numbers that 64 bits do not hold is that of the least number by minus one. -/
theorem eq_of_overflow {a b : Number} (h : Operator.div.Exact a.toInt b.toInt i)
    (hi : ¬ Number.Holds i) : a = Int64.minValue ∧ b = -1 := by
  have ha : Number.Holds a.toInt := a.holds_toInt
  cases h with
  | div _ hb =>
    have habs : (a.toInt.tdiv b.toInt).natAbs = a.toInt.natAbs / b.toInt.natAbs :=
      Int.natAbs_tdiv a.toInt b.toInt
    have hunit : b.toInt = 1 ∨ b.toInt = -1 := by
      -- by a larger divisor, the quotient is at most half as large as the dividend
      by_contra hne
      have hhalf : a.toInt.natAbs / b.toInt.natAbs ≤ a.toInt.natAbs / 2 :=
        Nat.div_le_div_left (by omega) (by decide)
      rw [Number.Holds] at ha hi
      omega
    rcases hunit with hone | hone
    · rw [hone, Int.tdiv_one] at hi
      contradiction
    · rw [hone, Int.tdiv_neg, Int.tdiv_one] at hi
      rw [Number.Holds] at ha hi
      have hmin : a.toInt = Int64.minValue.toInt := by
        rw [Int64.toInt_minValue]
        omega
      exact ⟨Int64.toInt_inj.mp hmin, Int64.toInt_inj.mp hone⟩

end Operator.Exact

namespace Expr

/-! ### Arithmetic expressions -/

/-- The inner nodes of the expression are operators of arithmetic, and its leaves are numbers, truth
values and procedures. -/
inductive IsArithmetic : Expr → Prop
  | number (n : Number) : IsArithmetic (.number n)
  | bool (b : Bool) : IsArithmetic (.bool b)
  | lambda (x : Name) (body : Expr) : IsArithmetic (.lambda x body)
  | binary {op : Operator} {left right : Expr} (hop : op ≠ .eq) (hl : left.IsArithmetic)
      (hr : right.IsArithmetic) : IsArithmetic (.binary op left right)

/-- The exact value of the expression is the integer, however large. -/
inductive HasValue : Expr → Int → Prop
  | number (n : Number) : HasValue (.number n) n.toInt
  | binary {op : Operator} {left right : Expr} {a b i : Int} (hl : left.HasValue a)
      (hr : right.HasValue b) (h : op.Exact a b i) : HasValue (.binary op left right) i

/-- The leaves of the expression, from left to right. -/
def leaves : Expr → List Expr
  | .binary _ left right => left.leaves ++ right.leaves
  | e => [e]

/-- The subexpressions of the expression, operands before their operator and left before right. -/
def postorder : Expr → List Expr
  | .binary op left right => left.postorder ++ right.postorder ++ [.binary op left right]
  | e => [e]

/-- All leaves are numbers, and every subexpression has an exact value that 64 bits hold. -/
structure Calculable (e : Expr) : Prop where
  leaves : ∀ leaf ∈ e.leaves, ∃ n, leaf = .number n
  values : ∀ part ∈ e.postorder, ∃ i, part.HasValue i ∧ Number.Holds i

/-- The expression is a leaf that is no number, but of the kind. -/
inductive Stray : Expr → Kind → Prop
  | bool (b : Bool) : Stray (.bool b) .boolean
  | lambda (x : Name) (body : Expr) : Stray (.lambda x body) .procedure

/-- The operator at the root of the expression fails with the error, at operands that have exact
values or are leaves. -/
inductive Fails : Expr → EvalError → Prop
  | left {op : Operator} {left right : Expr} {kind : Kind} (hl : left.Stray kind) :
      Fails (.binary op left right) (.typeMismatch (.operand op) kind)
  | right {op : Operator} {left right : Expr} {a : Number} {kind : Kind}
      (hl : left.HasValue a.toInt) (hr : right.Stray kind) :
      Fails (.binary op left right) (.typeMismatch (.operand op) kind)
  | divisionByZero {left right : Expr} {a : Number} (hl : left.HasValue a.toInt)
      (hr : right.HasValue 0) : Fails (.binary .div left right) (.divisionByZero a)
  | overflow {op : Operator} {left right : Expr} {a b : Number} {i : Int}
      (hl : left.HasValue a.toInt) (hr : right.HasValue b.toInt)
      (h : op.Exact a.toInt b.toInt i) (hi : ¬ Number.Holds i) :
      Fails (.binary op left right) (.integerOverflow op a b)

/-- The error is that of the first operator in post-order that fails. -/
def FirstFault (e : Expr) (err : EvalError) : Prop :=
  ∃ before node after, e.postorder = before ++ node :: after ∧
    (∀ earlier ∈ before, ∀ err', ¬ earlier.Fails err') ∧ node.Fails err

/-- What is to be expected of the evaluation: the exact value, a leaf that is no number, or the
first fault. -/
inductive Verdict : Expr → Outcome → Prop
  | number {e : Expr} {n : Number} (hc : e.Calculable) (hn : e.HasValue n.toInt) :
      Verdict e (.ok (.number n))
  | stray {e : Expr} {v : Value} (h : e.Stray v.kind) : Verdict e (.ok v)
  | fault {e : Expr} {err : EvalError} (h : e.FirstFault err) : Verdict e (.error err)

/-! ### Values and faults -/

section

variable {e left right : Expr} {op : Operator} {kind : Kind} {err : EvalError} {i j : Int}

theorem HasValue.unique (h : e.HasValue i) (h' : e.HasValue j) : i = j := by
  induction h generalizing j with
  | number n =>
    cases h'
    rfl
  | binary _ _ h ihl ihr =>
    cases h' with
    | binary hl' hr' h' =>
      obtain rfl := ihl hl'
      obtain rfl := ihr hr'
      exact h.unique h'

theorem Stray.not_hasValue (h : e.Stray kind) : ¬ e.HasValue i := by
  intro hi
  cases h <;> cases hi

theorem Stray.not_fails (h : e.Stray kind) : ¬ e.Fails err := by
  intro hfails
  cases h <;> cases hfails

theorem Stray.postorder_eq (h : e.Stray kind) : e.postorder = [e] := by
  cases h <;> rfl

/-- An expression whose operator fails has no exact value that 64 bits hold. -/
theorem Fails.not_holds (h : e.Fails err) (hi : e.HasValue i) : ¬ Number.Holds i := by
  cases hi with
  | number => cases h
  | binary hl hr hop =>
    cases h with
    | left hkind => exact absurd hl hkind.not_hasValue
    | right _ hkind => exact absurd hr hkind.not_hasValue
    | divisionByZero _ hzero =>
      obtain rfl := hr.unique hzero
      cases hop with
      | div _ hb => contradiction
    | overflow hl' hr' hop' hover =>
      obtain rfl := hl.unique hl'
      obtain rfl := hr.unique hr'
      exact hop.unique hop' ▸ hover

theorem Calculable.not_fails (h : e.Calculable) {part : Expr} (hpart : part ∈ e.postorder) :
    ¬ part.Fails err := by
  intro hfails
  obtain ⟨i, hi, hholds⟩ := h.values part hpart
  exact hfails.not_holds hi hholds

theorem FirstFault.not_calculable (h : e.FirstFault err) : ¬ e.Calculable := by
  obtain ⟨before, node, after, heq, -, hnode⟩ := h
  intro hc
  exact hc.not_fails (heq ▸ List.mem_append_right before List.mem_cons_self) hnode

theorem Verdict.not_fails {v : Value} (h : e.Verdict (.ok v)) :
    ∀ part ∈ e.postorder, ∀ err, ¬ part.Fails err := by
  intro part hpart err
  cases h with
  | number hc _ => exact hc.not_fails hpart
  | stray hkind =>
    rw [hkind.postorder_eq] at hpart
    obtain rfl := List.mem_singleton.mp hpart
    exact hkind.not_fails

/-! ### One operator -/

theorem Calculable.number (n : Number) : (number n).Calculable where
  leaves := List.forall_mem_singleton.mpr ⟨n, rfl⟩
  values := List.forall_mem_singleton.mpr ⟨n.toInt, .number n, n.holds_toInt⟩

theorem Calculable.binary (hl : left.Calculable) (hr : right.Calculable)
    (hi : (binary op left right).HasValue i) (hholds : Number.Holds i) :
    (binary op left right).Calculable where
  leaves := List.forall_mem_append.mpr ⟨hl.leaves, hr.leaves⟩
  values := List.forall_mem_append.mpr ⟨List.forall_mem_append.mpr ⟨hl.values, hr.values⟩,
    List.forall_mem_singleton.mpr ⟨i, hi, hholds⟩⟩

theorem FirstFault.of_left (h : left.FirstFault err) :
    (Expr.binary op left right).FirstFault err := by
  obtain ⟨before, node, after, heq, hbefore, hnode⟩ := h
  refine ⟨before, node, after ++ right.postorder ++ [.binary op left right], ?_, hbefore, hnode⟩
  rw [postorder, heq]
  simp

/-- A fault of the right operand is the first one if there is none on the left. -/
theorem FirstFault.of_right {v : Value} (hl : left.Verdict (.ok v)) (h : right.FirstFault err) :
    (Expr.binary op left right).FirstFault err := by
  obtain ⟨before, node, after, heq, hbefore, hnode⟩ := h
  refine ⟨left.postorder ++ before, node, after ++ [.binary op left right], ?_,
    List.forall_mem_append.mpr ⟨hl.not_fails, hbefore⟩, hnode⟩
  rw [postorder, heq]
  simp

/-- The operator is the first to fail if nothing in its operands does. -/
theorem FirstFault.of_node {v w : Value} (hl : left.Verdict (.ok v)) (hr : right.Verdict (.ok w))
    (h : (Expr.binary op left right).Fails err) : (Expr.binary op left right).FirstFault err :=
  ⟨left.postorder ++ right.postorder, _, [], rfl,
    List.forall_mem_append.mpr ⟨hl.not_fails, hr.not_fails⟩, h⟩

theorem Verdict.hasValue {n : Number} (h : e.Verdict (.ok (.number n))) :
    e.Calculable ∧ e.HasValue n.toInt := by
  cases h with
  | number hc hn => exact ⟨hc, hn⟩
  | stray hkind => cases hkind

theorem Verdict.isStray {v : Value} (h : e.Verdict (.ok v)) (hv : v.kind ≠ .number) :
    e.Stray v.kind := by
  cases h with
  | number => contradiction
  | stray hkind => exact hkind

/-- What an operator gives on the values of its operands is the verdict on the expression. -/
theorem Verdict.binary {v w : Value} {r : Outcome} (hop : op ≠ .eq) (hl : left.Verdict (.ok v))
    (hr : right.Verdict (.ok w)) (hgives : op.Gives v w r) :
    (Expr.binary op left right).Verdict r := by
  cases hgives with
  | equal | unequal => contradiction
  | @number _ a b n h =>
    obtain ⟨hlc, ha⟩ := hl.hasValue
    obtain ⟨hrc, hb⟩ := hr.hasValue
    have hn : (Expr.binary op left right).HasValue n.toInt := .binary ha hb h
    exact .number (hlc.binary hrc hn n.holds_toInt) hn
  | overflow h hi =>
    exact .fault (.of_node hl hr
      (.overflow hl.hasValue.2 hr.hasValue.2 h (Number.not_holds_iff.mpr hi)))
  | divisionByZero a =>
    exact .fault (.of_node hl hr (.divisionByZero hl.hasValue.2 hr.hasValue.2))
  | left _ hv => exact .fault (.of_node hl hr (.left (hl.isStray hv)))
  | right _ hw => exact .fault (.of_node hl hr (.right hl.hasValue.2 (hr.isStray hw)))

end

/-! ### Whole expressions -/

/-- An arithmetic expression is evaluated to what the verdict says. -/
theorem exists_bigStep {e : Expr} (h : e.IsArithmetic) (fresh : Nat) (env : Environment) :
    ∃ r fresh', BigStep .counter fresh env e r fresh' ∧ e.Verdict r := by
  induction h generalizing fresh with
  | number n => exact ⟨_, _, .number n, .number (.number n) (.number n)⟩
  | bool b => exact ⟨_, _, .bool b, .stray (.bool b)⟩
  | lambda x body => exact ⟨_, _, .lambda ⟨rfl, rfl⟩, .stray (.lambda x body)⟩
  | @binary op left right hop _ _ ihl ihr =>
    obtain ⟨l, fresh₁, hl, hverdict⟩ := ihl fresh
    cases l with
    | error err =>
      cases hverdict with
      | fault hfault => exact ⟨_, _, .leftError hl, .fault hfault.of_left⟩
    | ok v =>
      obtain ⟨r, fresh₂, hr, hverdict'⟩ := ihr fresh₁
      cases r with
      | error err =>
        cases hverdict' with
        | fault hfault => exact ⟨_, _, .rightError hl hr, .fault (.of_right hverdict hfault)⟩
      | ok w =>
        have hgives := op.gives_apply v w
        exact ⟨_, _, .binary hl hr hgives, .binary hop hverdict hverdict' hgives⟩

theorem exists_verdict {e : Expr} (h : e.IsArithmetic) (fresh : Nat) (env : Environment) :
    ∃ r, Ends none fresh e env r ∧ e.Verdict r := by
  obtain ⟨r, fresh', hstep, hverdict⟩ := exists_bigStep h fresh env
  obtain ⟨room, journal, heval⟩ := hstep.settles (.new none) [] rfl
  exact ⟨r, ⟨room, _, heval room le_rfl⟩, hverdict⟩

/-- Without a ceiling, the evaluation of an arithmetic expression ends with a number exactly if all
leaves are numbers and every subexpression has an exact value that 64 bits hold, and the number is
then the exact value of the whole. Otherwise, unless the expression is a leaf, it ends with the
error of the first operator in post-order that fails. A quotient overflows for the least number and
minus one only. -/
theorem ends_arithmetic {e : Expr} (h : e.IsArithmetic) (fresh : Nat) (env : Environment) :
    ((∃ n, Ends none fresh e env (.ok (.number n))) ↔ e.Calculable) ∧
      (∀ n, Ends none fresh e env (.ok (.number n)) → e.HasValue n.toInt) ∧
      (∀ op left right, e = .binary op left right → ¬ e.Calculable →
        ∃ err, Ends none fresh e env (.error err) ∧ e.FirstFault err) ∧
      ∀ a b, Ends none fresh e env (.error (.integerOverflow .div a b)) →
        a = Int64.minValue ∧ b = -1 := by
  obtain ⟨r, hends, hverdict⟩ := exists_verdict h fresh env
  have hresult {r'} (hr' : Ends none fresh e env r') : e.Verdict r' := hends.unique hr' ▸ hverdict
  refine ⟨⟨?_, fun hc => ?_⟩, fun n hn => (hresult hn).hasValue.2, ?_, fun a b hab => ?_⟩
  · rintro ⟨n, hn⟩
    exact (hresult hn).hasValue.1
  · cases hverdict with
    | number _ hn => exact ⟨_, hends⟩
    | stray hkind =>
      obtain ⟨i, hi, -⟩ := hc.values e (hkind.postorder_eq ▸ List.mem_singleton_self e)
      exact absurd hi hkind.not_hasValue
    | fault hfault => exact absurd hc hfault.not_calculable
  · rintro op left right rfl hc
    cases hverdict with
    | number hc' _ => contradiction
    | stray hkind => cases hkind
    | fault hfault => exact ⟨_, hends, hfault⟩
  · cases hresult hab with
    | fault hfault =>
      obtain ⟨_, node, _, -, -, hnode⟩ := hfault
      cases hnode with
      | overflow _ _ hquot hi => exact hquot.eq_of_overflow hi

/-- Two operators of this expression fail: the quotient comes first in post-order, before the
product beside it. -/
theorem ends_arithmetic_quotient :
    let e := binary .sub (.binary .div (.number Int64.minValue) (.number (-1)))
      (.binary .mul (.bool true) (.lambda ['x'] (.var ['x'])))
    e.IsArithmetic ∧ ¬ e.Calculable ∧
      Ends none 0 e .empty (.error (.integerOverflow .div Int64.minValue (-1))) ∧
      e.FirstFault (.integerOverflow .div Int64.minValue (-1)) := by
  intro e
  have harith : e.IsArithmetic :=
    .binary (by decide) (.binary (by decide) (.number _) (.number _))
      (.binary (by decide) (.bool _) (.lambda _ _))
  have hstray : ¬ e.Calculable := by
    intro hc
    obtain ⟨n, hn⟩ := hc.leaves (.bool true) (by simp [e, leaves])
    contradiction
  have hends : Ends none 0 e .empty (.error (.integerOverflow .div Int64.minValue (-1))) :=
    .of_eval 3 (by decide +kernel)
  obtain ⟨err, herr, hfirst⟩ := (ends_arithmetic harith 0 .empty).2.2.1 _ _ _ rfl hstray
  obtain rfl := Except.error.inj (hends.unique herr)
  exact ⟨harith, hstray, hends, hfirst⟩

end Expr

end UnaryLisp
