import UnaryLisp.Eval.Basic

/-!
# Rules for names and operators

What a name and an operator give, as rules. A name gives the value of its innermost binding. Two
values are equal when they are the same number, the same truth value or closures with one identity.
The arithmetic operators give the exact integer result when 64 bits hold it, the quotient being
rounded toward zero; of operands that are no numbers the left one is reported.

## Main definitions

* `Environment.Binds`: the innermost binding of a name.
* `Value.Equal`: the equality of the language.
* `Operator.Exact`: the exact result of an operator on integers.
* `Operator.Gives`: what an operator gives on two values.

## Main results

* `Environment.value_eq_ok_iff`, `Environment.value_eq_error_iff`: looking up a name follows the
  rule.
* `Operator.apply_eq_iff`: applying an operator follows the rules.
-/

namespace UnaryLisp

/-! ### Names -/

/-- The innermost binding of the name `x` is to the value `v`. -/
inductive Environment.Binds (x : Name) (v : Value) : Environment → Prop
  | here {outer : Environment} : Binds x v (.bind x v outer)
  | there {y : Name} {w : Value} {outer : Environment} (hne : y ≠ x) (h : Binds x v outer) :
      Binds x v (.bind y w outer)

namespace Environment

theorem binds_of_lookup {x : Name} {v : Value} :
    (env : Environment) → env.lookup x = some v → env.Binds x v
  | .empty, h => by contradiction
  | .bind y w outer, h => by
    rw [lookup] at h
    split at h
    · next hy =>
      subst hy
      obtain rfl := Option.some.inj h
      exact .here
    · next hy => exact .there hy (binds_of_lookup outer h)

theorem lookup_eq_some_iff {env : Environment} {x : Name} {v : Value} :
    env.lookup x = some v ↔ env.Binds x v := by
  refine ⟨binds_of_lookup env, fun h => ?_⟩
  induction h with
  | here => rw [lookup, if_pos rfl]
  | there hne _ ih => rw [lookup, if_neg hne, ih]

theorem value_bind (env : Environment) (x y : Name) (v : Value) :
    (env.bind x v).value y = if x = y then .ok v else env.value y := by
  rw [value, lookup]
  by_cases h : x = y
  · rw [if_pos h, if_pos h]
  · rw [if_neg h, if_neg h, value]

theorem value_eq_ok_iff {env : Environment} {x : Name} {v : Value} :
    env.value x = .ok v ↔ env.Binds x v := by
  rw [← lookup_eq_some_iff, value]
  cases env.lookup x <;> simp

theorem value_eq_error_iff {env : Environment} {x : Name} {e : EvalError} :
    env.value x = .error e ↔ (∀ v, ¬ env.Binds x v) ∧ e = .unboundVariable x := by
  simp only [← lookup_eq_some_iff, value]
  cases env.lookup x <;> simp [eq_comm]

end Environment

/-! ### Operators -/

/-- The equality of the language: closures are equal when they have the same identity. -/
inductive Value.Equal : Value → Value → Prop
  | number (n : Number) : Equal (.number n) (.number n)
  | bool (b : Bool) : Equal (.bool b) (.bool b)
  | closure (i : Nat) {env env' : Environment} {x x' : Name} {body body' : Expr} :
      Equal (.closure i env x body) (.closure i env' x' body')

theorem Value.same_iff {v w : Value} : v.same w ↔ v.Equal w := by
  constructor
  · intro h
    cases v <;> cases w <;> simp only [same, beq_iff_eq, Bool.false_eq_true] at h
    · exact h ▸ .number _
    · exact h ▸ .bool _
    · exact h ▸ .closure _
  · rintro (n | b | i) <;> simp [same]

namespace Operator

/-- The exact result of an operator on two integers. -/
inductive Exact : Operator → Int → Int → Int → Prop
  | add (a b : Int) : Exact .add a b (a + b)
  | sub (a b : Int) : Exact .sub a b (a - b)
  | mul (a b : Int) : Exact .mul a b (a * b)
  | div (a : Int) {b : Int} (hb : b ≠ 0) : Exact .div a b (a.tdiv b)

/-- What an operator gives on two values. -/
inductive Gives : Operator → Value → Value → Except EvalError Value → Prop
  | equal {v w : Value} (h : v.Equal w) : Gives .eq v w (.ok (.bool true))
  | unequal {v w : Value} (h : ¬ v.Equal w) : Gives .eq v w (.ok (.bool false))
  | number {op : Operator} {a b n : Number} (h : op.Exact a.toInt b.toInt n.toInt) :
      Gives op (.number a) (.number b) (.ok (.number n))
  | overflow {op : Operator} {a b : Number} {i : Int} (h : op.Exact a.toInt b.toInt i)
      (hi : i < Int64.minValue.toInt ∨ Int64.maxValue.toInt < i) :
      Gives op (.number a) (.number b) (.error (.integerOverflow op a b))
  | divisionByZero (a : Number) :
      Gives .div (.number a) (.number 0) (.error (.divisionByZero a))
  | left {op : Operator} {v w : Value} (hop : op ≠ .eq) (hv : v.kind ≠ .number) :
      Gives op v w (.error (.typeMismatch (.operand op) v.kind))
  | right {op : Operator} {a : Number} {w : Value} (hop : op ≠ .eq) (hw : w.kind ≠ .number) :
      Gives op (.number a) w (.error (.typeMismatch (.operand op) w.kind))

theorem ofInt?_eq_none_iff {i : Int} :
    Number.ofInt? i = none ↔ i < Int64.minValue.toInt ∨ Int64.maxValue.toInt < i := by
  simp only [Number.ofInt?, ite_eq_right_iff, reduceCtorEq, imp_false]
  omega

/-- An operation that computes the exact result gives it, or an overflow. -/
theorem gives_exact {op : Operator} {f : Number → Number → Option Number} {a b : Number} {i : Int}
    (h : op.Exact a.toInt b.toInt i) (hf : f a b = Number.ofInt? i) :
    op.Gives (.number a) (.number b) ((exact op f a b).map .number) := by
  rw [exact, hf]
  cases hi : Number.ofInt? i with
  | none => exact .overflow h (ofInt?_eq_none_iff.mp hi)
  | some n => exact .number (Number.ofInt?_eq_some_iff.mp hi ▸ h)

theorem gives_onNumbers {op : Operator} {f : Number → Number → Except EvalError Number}
    (hop : op ≠ .eq)
    (hf : ∀ a b, op.Gives (.number a) (.number b) ((f a b).map .number)) (v w : Value) :
    op.Gives v w (onNumbers op f v w) := by
  unfold onNumbers
  split
  · exact hf _ _
  · next hw => exact .right hop fun hk => by cases w <;> simp [Value.kind] at hk hw
  · next hv _ => exact .left hop fun hk => by cases v <;> simp [Value.kind] at hk hv

theorem toInt_ne_zero {b : Number} (hb : b ≠ 0) : b.toInt ≠ 0 :=
  fun h0 => hb (Int64.toInt_inj.mp (h0.trans rfl))

theorem gives_apply (op : Operator) (v w : Value) : op.Gives v w (op.apply v w) := by
  cases op with
  | add => exact gives_onNumbers (by decide) (fun a b => gives_exact (.add _ _) rfl) v w
  | sub => exact gives_onNumbers (by decide) (fun a b => gives_exact (.sub _ _) rfl) v w
  | mul => exact gives_onNumbers (by decide) (fun a b => gives_exact (.mul _ _) rfl) v w
  | div =>
    refine gives_onNumbers (by decide) (fun a b => ?_) v w
    unfold quotient
    split
    · next hb => exact hb ▸ .divisionByZero a
    · next hb =>
      exact gives_exact (.div _ (toInt_ne_zero hb)) rfl
  | eq =>
    by_cases h : v.Equal w
    · rw [apply, Value.same_iff.mpr h]
      exact .equal h
    · have hs := Bool.eq_false_iff.mpr fun hs => h (Value.same_iff.mp hs)
      rw [apply, hs]
      exact .unequal h

theorem apply_of_exact {op : Operator} {a b : Number} {i : Int}
    (h : op.Exact a.toInt b.toInt i) :
    op.apply (.number a) (.number b) =
      (exact op (fun _ _ => Number.ofInt? i) a b).map .number := by
  cases h with
  | add => simp only [apply, onNumbers, exact, Number.add?]
  | sub => simp only [apply, onNumbers, exact, Number.sub?]
  | mul => simp only [apply, onNumbers, exact, Number.mul?]
  | div _ hb =>
    have hne : b ≠ 0 := fun h0 => hb (h0 ▸ rfl)
    simp only [apply, onNumbers, quotient, if_neg hne, exact, Number.div?]

theorem apply_of_kind_ne {op : Operator} (hop : op ≠ .eq) {v w : Value}
    (h : v.kind ≠ .number ∨ w.kind ≠ .number) :
    op.apply v w = .error (.typeMismatch (.operand op)
      (if v.kind = .number then w.kind else v.kind)) := by
  cases op with
  | eq => contradiction
  | add | sub | mul | div => cases v <;> cases w <;> simp_all [apply, onNumbers, Value.kind]

theorem apply_of_gives {op : Operator} {v w : Value} {r : Except EvalError Value}
    (h : op.Gives v w r) : op.apply v w = r := by
  cases h with
  | equal h => simp [apply, Value.same_iff.mpr h]
  | unequal h =>
    have hs := Bool.eq_false_iff.mpr fun hs => h (Value.same_iff.mp hs)
    rw [apply, hs]
  | number h =>
    rw [apply_of_exact h, exact, Number.ofInt?_toInt]
    rfl
  | overflow h hi =>
    rw [apply_of_exact h, exact, ofInt?_eq_none_iff.mpr hi]
    rfl
  | divisionByZero a => rfl
  | left hop hv => rw [apply_of_kind_ne hop (.inl hv), if_neg hv]
  | right hop hw => simp [apply_of_kind_ne hop (.inr hw), Value.kind]

/-- Applying an operator follows the rules. -/
theorem apply_eq_iff {op : Operator} {v w : Value} {r : Except EvalError Value} :
    op.apply v w = r ↔ op.Gives v w r :=
  ⟨fun h => h ▸ gives_apply op v w, apply_of_gives⟩

end Operator

end UnaryLisp
