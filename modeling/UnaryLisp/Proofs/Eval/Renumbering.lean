import UnaryLisp.Proofs.Eval.Adequacy
import UnaryLisp.Proofs.Eval.Lockstep
import UnaryLisp.Proofs.Eval.Threshold

/-!
# Renumbering closures

The numbers from which an evaluation takes the identities of its closures show in nothing but these
identities. Evaluations of one expression that start to count at different numbers run in lockstep,
whatever the ceiling, and end with values that differ by the shift between the two counts. On the
finitely many identities of a value such a shift is a permutation, and so are finitely many shifts
that do not get in each other's way.

## Main definitions

* `Value.Renumbered`: two values are the same, identities that correspond aside.
* `Link.shift`: identities correspond that are counted alike from two numbers.
* `Link.beyond`: so do they, and known identities correspond to themselves.

## Main results

* `Comparison.isSimulation_renumbered`: an expression is evaluated in lockstep with itself.
* `Expr.identities_lt_of_eval`: a count is ahead of the identities in the value.
* `exists_perm_of_pairs`: finitely many pairs that match one to one are part of a permutation.
* `exists_perm_shift`: finitely many numbers are shifted by a permutation.
* `Value.Renumbered.exists_perm`: a permutation takes a value to one that differs in new identities.
* `Expr.exists_eval_alike`: counted from another number, an evaluation ends with the same outcome,
  up to the identities of new closures.
-/

namespace UnaryLisp

/-! ### Values that differ in their identities -/

/-- The environments bind the same names to related values. -/
inductive Environment.Pointwise (R : Value → Value → Prop) : Environment → Environment → Prop
  | empty : Pointwise R .empty .empty
  | bind {env env' : Environment} {x : Name} {v w : Value} (hv : R v w)
      (h : Pointwise R env env') : Pointwise R (env.bind x v) (env'.bind x w)

/-- The values are the same, identities that correspond aside. -/
inductive Value.Renumbered (L : Link) : Value → Value → Prop
  | number (n : Number) : Renumbered L (.number n) (.number n)
  | bool (b : Bool) : Renumbered L (.bool b) (.bool b)
  | closure {i j : Nat} {env env' : Environment} {x : Name} {body : Expr} (hid : L.Rel i j)
      (henv : Environment.Pointwise (Renumbered L) env env') :
      Renumbered L (.closure i env x body) (.closure j env' x body)

theorem Environment.Pointwise.value {R : Value → Value → Prop} {env env' : Environment}
    (h : Pointwise R env env') (x : Name) :
    Corresponds R (fun _ => True) (env.value x) (env'.value x) := by
  induction h with
  | empty => exact .error trivial
  | @bind _ _ y _ _ hv _ ih =>
    rw [value_bind, value_bind]
    by_cases hy : y = x
    · rw [if_pos hy, if_pos hy]
      exact .ok hv
    · rw [if_neg hy, if_neg hy]
      exact ih

section Refl

variable {L : Link}

mutual

theorem Value.Renumbered.refl : (v : Value) → (∀ i ∈ v.identities, L.Rel i i) → v.Renumbered L v
  | .number n, _ => .number n
  | .bool b, _ => .bool b
  | .closure i env _ _, h => by
    rw [Value.identities] at h
    exact .closure (h i List.mem_cons_self)
      (Environment.Pointwise.refl env fun j hj => h j (List.mem_cons_of_mem i hj))

theorem Environment.Pointwise.refl : (env : Environment) → (∀ i ∈ env.identities, L.Rel i i) →
    env.Pointwise (Value.Renumbered L) env
  | .empty, _ => .empty
  | .bind _ v outer, h => by
    rw [Environment.identities] at h
    exact .bind (Value.Renumbered.refl v fun j hj => h j (List.mem_append_left _ hj))
      (Environment.Pointwise.refl outer fun j hj => h j (List.mem_append_right _ hj))

end

end Refl

section Rename

variable {L : Link} {π : Equiv.Perm Nat}

mutual

/-- A permutation that agrees with the correspondence renames one value to the other. -/
theorem Value.Renumbered.eq_rename : {v w : Value} → v.Renumbered L w →
    (∀ i ∈ v.identities, ∀ j, L.Rel i j → π i = j) → w = v.rename π
  | .number _, _, .number _, _ | .bool _, _, .bool _, _ => rfl
  | .closure i env x body, _, .closure hid henv, hπ => by
    rw [Value.identities] at hπ
    rw [Value.rename, hπ i List.mem_cons_self _ hid, Environment.Pointwise.eq_rename henv
      fun k hk => hπ k (List.mem_cons_of_mem i hk)]

theorem Environment.Pointwise.eq_rename : {env env' : Environment} →
    env.Pointwise (Value.Renumbered L) env' →
    (∀ i ∈ env.identities, ∀ j, L.Rel i j → π i = j) → env' = env.rename π
  | .empty, _, .empty, _ => rfl
  | .bind x v outer, _, .bind hv h, hπ => by
    rw [Environment.identities] at hπ
    rw [Environment.rename,
      Value.Renumbered.eq_rename hv fun k hk => hπ k (List.mem_append_left _ hk),
      Environment.Pointwise.eq_rename h fun k hk => hπ k (List.mem_append_right _ hk)]

end

end Rename

/-! ### The simulation -/

/-- An expression corresponds to itself in environments that differ in identities only. -/
def Comparison.renumbered (L : Link) : Comparison where
  link := L
  Allowed _ := True
  Values := Value.Renumbered L
  Code env e env' e' := env.Pointwise (Value.Renumbered L) env' ∧ e = e'

namespace Comparison

theorem level_renumbered {L : Link} {env env' : Environment}
    (henv : env.Pointwise (Value.Renumbered L) env') (e : Expr) :
    (renumbered L).Level env e env' e := by
  cases e with
  | number n => exact .leaf rfl rfl (.ok (.number n))
  | bool b => exact .leaf rfl rfl (.ok (.bool b))
  | var x => exact .leaf rfl rfl (henv.value x)
  | binary op left right => exact .binary ⟨henv, rfl⟩ ⟨henv, rfl⟩
  | cond test yes no => exact .cond ⟨henv, rfl⟩ ⟨henv, rfl⟩ ⟨henv, rfl⟩
  | letIn x init body => exact .letIn ⟨henv, rfl⟩ fun v w hv => ⟨.bind hv henv, rfl⟩
  | lambda x body => exact .lambda fun i j hij => .closure hij henv
  | call callee arg => exact .call ⟨henv, rfl⟩ ⟨henv, rfl⟩

/-- An expression is evaluated in lockstep with itself where only identities differ. -/
theorem isSimulation_renumbered (L : Link) : (renumbered L).IsSimulation where
  allowed _ := trivial
  number := .number
  bool := .bool
  values h := by
    cases h with
    | number n => exact .number n
    | bool b => exact .bool b
    | closure hid henv => exact .closure hid fun v w hv => ⟨.bind hv henv, rfl⟩
  code := by
    rintro env e env' _ ⟨henv, rfl⟩
    exact level_renumbered henv e

end Comparison

/-! ### Counting from another number -/

/-- Identities correspond that are counted alike from the two numbers. -/
def Link.shift (first first' : Nat) : Link where
  Rel i j := ∃ k, i = first + k ∧ j = first' + k
  eq_iff := by
    rintro _ _ _ _ ⟨k, rfl, rfl⟩ ⟨k', rfl, rfl⟩
    rw [Nat.add_left_cancel_iff, Nat.add_left_cancel_iff]

/-- A count is ahead of the identities in the value if it was ahead of those in the environment. -/
theorem Expr.identities_lt_of_eval {room : Nat} {e : Expr} {env : Environment}
    {machine after : Machine} {v : Value} (h : e.eval room env machine = some (.ok v, after))
    (henv : ∀ i ∈ env.identities, i < machine.fresh) : ∀ i ∈ v.identities, i < after.fresh := by
  have hunlimited := eval_withMax none h (by simp) fun j _ _ k hk => by contradiction
  exact ((BigStep.of_eval hunlimited rfl).covers henv).2

/-- Finitely many pairs that match one to one are part of a permutation. -/
theorem exists_perm_of_pairs (pairs : List (Nat × Nat))
    (h : ∀ p ∈ pairs, ∀ q ∈ pairs, p.1 = q.1 ↔ p.2 = q.2) :
    ∃ π : Equiv.Perm Nat, ∀ p ∈ pairs, π p.1 = p.2 := by
  induction pairs with
  | nil => exact ⟨1, by simp⟩
  | cons p pairs ih =>
    obtain ⟨π, hπ⟩ := ih fun a ha b hb =>
      h a (List.mem_cons_of_mem p ha) b (List.mem_cons_of_mem p hb)
    -- bring the new pair together and leave the others alone
    have hnew : (Equiv.swap (π p.1) p.2 * π) p.1 = p.2 := Equiv.swap_apply_left _ _
    refine ⟨Equiv.swap (π p.1) p.2 * π, fun q hq => ?_⟩
    rcases List.mem_cons.mp hq with rfl | hq
    · exact hnew
    · have hmatch := h q (List.mem_cons_of_mem p hq) p List.mem_cons_self
      by_cases heq : q.1 = p.1
      · rw [heq, hnew, hmatch.mp heq]
      · have hne : q.2 ≠ π p.1 := fun h0 => heq (π.injective ((hπ q hq).trans h0))
        rw [Equiv.Perm.mul_apply, hπ q hq]
        exact Equiv.swap_apply_of_ne_of_ne hne (mt hmatch.mpr heq)

/-- A permutation takes what is counted from one number to what is counted from another. -/
theorem exists_perm_shift (first first' count : Nat) :
    ∃ π : Equiv.Perm Nat, ∀ k < count, π (first + k) = first' + k := by
  obtain ⟨π, hπ⟩ := exists_perm_of_pairs
    ((List.range count).map fun k => (first + k, first' + k)) (by
      simp only [List.mem_map]
      rintro _ ⟨k, -, rfl⟩ _ ⟨l, -, rfl⟩
      simp only [Nat.add_left_cancel_iff])
  exact ⟨π, fun k hk => hπ _ (List.mem_map.mpr ⟨k, List.mem_range.mpr hk, rfl⟩)⟩

/-- Known identities correspond to themselves, and those counted from two numbers beyond them
correspond that are counted alike. -/
def Link.beyond {known : List Nat} {first first' : Nat} (h : ∀ i ∈ known, i < first)
    (h' : ∀ i ∈ known, i < first') : Link where
  Rel i j := (i ∈ known ∧ i = j) ∨ ∃ k, i = first + k ∧ j = first' + k
  eq_iff := by
    rintro i j l m (⟨hi, rfl⟩ | ⟨k, rfl, rfl⟩) (⟨hl, rfl⟩ | ⟨k', rfl, rfl⟩)
    · exact Iff.rfl
    · have := h i hi
      have := h' i hi
      omega
    · have := h l hl
      have := h' l hl
      omega
    · omega

/-- Values that are the same but for new identities are so up to a permutation that leaves the known
identities alone. -/
theorem Value.Renumbered.exists_perm {known : List Nat} {first first' : Nat}
    {h : ∀ i ∈ known, i < first} {h' : ∀ i ∈ known, i < first'} {v w : Value}
    (hvw : v.Renumbered (.beyond h h') w) :
    ∃ π : Equiv.Perm Nat, (∀ i ∈ known, π i = i) ∧ w = v.rename π := by
  -- what is known stays, and the new identities of one value go to those of the other
  let pairs := known.map (fun i => (i, i)) ++
    (v.identities.filter (first ≤ ·)).map fun i => (i, first' + (i - first))
  have hrel : ∀ p ∈ pairs, (Link.beyond h h').Rel p.1 p.2 := by
    intro p hp
    rcases List.mem_append.mp hp with hp | hp
    · obtain ⟨i, hi, rfl⟩ := List.mem_map.mp hp
      exact .inl ⟨hi, rfl⟩
    · obtain ⟨i, hi, rfl⟩ := List.mem_map.mp hp
      have hle : first ≤ i := of_decide_eq_true (List.mem_filter.mp hi).2
      exact .inr ⟨i - first, by omega, rfl⟩
  obtain ⟨π, hπ⟩ := exists_perm_of_pairs pairs fun p hp q hq =>
    (Link.beyond h h').eq_iff (hrel p hp) (hrel q hq)
  have hfix : ∀ i ∈ known, π i = i := fun i hi =>
    hπ (i, i) (List.mem_append_left _ (List.mem_map.mpr ⟨i, hi, rfl⟩))
  refine ⟨π, hfix, hvw.eq_rename ?_⟩
  rintro i hi j (⟨hknown, rfl⟩ | ⟨k, rfl, rfl⟩)
  · exact hfix i hknown
  · have hmem : first + k ∈ v.identities.filter (first ≤ ·) :=
      List.mem_filter.mpr ⟨hi, decide_eq_true (Nat.le_add_right first k)⟩
    have hnew := hπ _ (List.mem_append_right _ (List.mem_map.mpr ⟨first + k, hmem, rfl⟩))
    rwa [Nat.add_sub_cancel_left] at hnew

/-- From states with the same counter, and with numbers beyond the identities in the environment, an
evaluation ends with the same outcome, up to the identities of new closures. -/
theorem Expr.exists_eval_alike {room : Nat} {e : Expr} {env : Environment}
    {machine after : Machine} {r : Outcome} (h : e.eval room env machine = some (r, after))
    (hknown : ∀ i ∈ env.identities, i < machine.fresh) (machine' : Machine)
    (hlimit : machine.limit = machine'.limit)
    (hknown' : ∀ i ∈ env.identities, i < machine'.fresh) :
    ∃ r' after', e.eval room env machine' = some (r', after') ∧ Outcome.Alike env r r' := by
  let L := Link.beyond hknown hknown'
  have hm : L.Aligned machine machine' := ⟨hlimit, fun k => .inr ⟨k, rfl, rfl⟩⟩
  have henv : env.Pointwise (Value.Renumbered L) env := .refl env fun i hi => .inl ⟨hi, rfl⟩
  obtain ⟨r', after', heval', hr, -⟩ :=
    ((Comparison.isSimulation_renumbered L).lockstep room ⟨henv, rfl⟩).exists_of_left hm h
  refine ⟨r', after', heval', ?_⟩
  cases hr with
  | @error err => exact ⟨1, fun _ _ => rfl, (Outcome.rename_one (.error err)).symm⟩
  | @ok v w hvw =>
    obtain ⟨π, hfix, rfl⟩ := hvw.exists_perm
    exact ⟨π, hfix, rfl⟩

end UnaryLisp
