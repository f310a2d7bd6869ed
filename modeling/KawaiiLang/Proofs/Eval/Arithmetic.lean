import Mathlib.Algebra.Group.Int.Defs
import KawaiiLang.Proofs.Eval.Frame

namespace KawaiiLang

/-- The integer is one that 64 bits can hold. -/
def Representable (n : Int) : Prop :=
  -2 ^ 63 ≤ n ∧ n ≤ 2 ^ 63 - 1

instance : DecidablePred Representable :=
  fun _ => inferInstanceAs (Decidable (_ ∧ _))

theorem representable_toInt (value : Int64) : Representable value.toInt :=
  ⟨value.le_toInt, Int.le_sub_one_of_lt value.toInt_lt⟩

/-- An integer that can be held is held as it is. -/
theorem toInt_ofInt_of_representable {n : Int} (hn : Representable n) :
    (Int64.ofInt n).toInt = n :=
  Int64.toInt_ofInt_of_le hn.1 (Int.lt_of_le_sub_one hn.2)

theorem checkedInt_eq (n : Int) :
    checkedInt n = if Representable n then .ok (.int (.ofInt n)) else .error .overflow := by
  have hrange : -Int.ofNat integerBound ≤ n ∧ n < Int.ofNat integerBound ↔ Representable n :=
    and_congr_right fun _ => ⟨Int.le_sub_one_of_lt, Int.lt_of_le_sub_one⟩
  simp only [checkedInt, hrange]

/-- What an operator of integer arithmetic does to integers of any size. -/
def BinaryOp.exactOperation? : BinaryOp → Option (Int → Int → Int)
  | add => some (· + ·)
  | subtract => some (· - ·)
  | multiply => some (· * ·)
  | _ => none

theorem BinaryOp.apply_of_exactOperation? {op : BinaryOp} {compute : Int → Int → Int}
    (hop : op.exactOperation? = some compute) (a b : Int64) :
    op.apply (.int a) (.int b) = checkedInt (compute a.toInt b.toInt) := by
  cases op <;> cases hop <;> rfl

/-- The integer that a name is bound to, if it is bound to one. -/
def Machine.integer? (machine : Machine) (name : String) : Option Int :=
  match machine.store.get? machine.scope name with
  | some (.int value) => some value.toInt
  | _ => none

theorem Machine.get?_of_integer? {machine : Machine} {name : String} {n : Int}
    (hn : machine.integer? name = some n) :
    ∃ value : Int64, value.toInt = n ∧
      machine.store.get? machine.scope name = some (.int value) := by
  unfold integer? at hn
  split at hn
  · next value hget =>
    cases hn
    exact ⟨value, rfl, hget⟩
  · cases hn

/-- The value of integer arithmetic over integers of any size: of literals, of names of integers,
    and of negations, sums, differences and products, in parentheses or not. Other expressions
    have none. -/
def Expr.exactValue? (integer? : String → Option Int) : Expr → Option Int
  | .literal (.int value) _ => some value.toInt
  | .name key _ => integer? key
  | .unary .negate operand _ => do
    return -(← operand.exactValue? integer?)
  | .binary op left right _ => do
    return (← op.exactOperation?) (← left.exactValue? integer?) (← right.exactValue? integer?)
  | .group inner _ => inner.exactValue? integer?
  | _ => none

/-- An expression and all operands in it, each behind its own operands and those to its left. -/
def Expr.postorder : Expr → List Expr
  | .unary op operand span => operand.postorder ++ [.unary op operand span]
  | .binary op left right span =>
    left.postorder ++ (right.postorder ++ [.binary op left right span])
  | .group inner span => inner.postorder ++ [.group inner span]
  | leaf => [leaf]

/-- The value of integer arithmetic, if it has one, is an integer of the program. -/
def Expr.Fits (integer? : String → Option Int) (expression : Expr) : Prop :=
  ∀ n ∈ expression.exactValue? integer?, Representable n

namespace Eval

/-- What comes of integer arithmetic with the exact value `n` if its `parts` are computed one
    after the other: that value if all of them fit, and else an overflow at the first that does
    not. -/
inductive Checked (machine : Machine) (n : Int) :
    List Expr → EStateM.Result Interrupt Machine Value → Prop where
  | value {parts : List Expr} {value : Int64} (hvalue : value.toInt = n)
      (hfits : ∀ part ∈ parts, part.Fits machine.integer?) :
      Checked machine n parts (.ok (.int value) machine)
  | overflow {before after : List Expr} {part : Expr}
      (hbefore : ∀ earlier ∈ before, earlier.Fits machine.integer?)
      (hpart : ¬ part.Fits machine.integer?) :
      Checked machine n (before ++ part :: after)
        (.error (.fault ⟨.overflow, part.span⟩) machine)

variable {machine : Machine} {n : Int} {parts : List Expr} {whole : Expr}

/-- An integer that is at hand fits. -/
theorem checked_at_hand (hparts : ∀ part ∈ parts, part.Fits machine.integer?) {value : Int64}
    (hwhole : whole.exactValue? machine.integer? = some value.toInt) :
    Checked machine value.toInt (parts ++ [whole]) (.ok (.int value) machine) := by
  refine .value rfl (List.forall_mem_append.mpr ⟨hparts, List.forall_mem_singleton.mpr ?_⟩)
  intro n hn
  rw [hwhole] at hn
  cases hn
  exact representable_toInt value

/-- The operator comes last, behind operands that all fit. -/
theorem checked_operator (hparts : ∀ part ∈ parts, part.Fits machine.integer?)
    (hwhole : whole.exactValue? machine.integer? = some n) :
    Checked machine n (parts ++ [whole]) (ofExcept whole.span (checkedInt n) machine) := by
  rw [checkedInt_eq]
  split
  · next hn =>
    rw [← toInt_ofInt_of_representable hn] at hwhole
    have hchecked := checked_at_hand hparts hwhole
    rwa [toInt_ofInt_of_representable hn] at hchecked
  · next hn => exact .overflow hparts fun hfits => hn (hfits n hwhole)

/-- Behind operands with an overflow nothing more is computed. -/
theorem Checked.bind {computation : Eval Value} {next : Value → Eval Value} {m : Int}
    {more : List Expr} (hfirst : Checked machine n parts (computation machine))
    (hnext : ∀ value : Int64, value.toInt = n → (∀ part ∈ parts, part.Fits machine.integer?) →
      Checked machine m (parts ++ more) (next (.int value) machine)) :
    Checked machine m (parts ++ more) ((computation >>= next) machine) := by
  generalize hresult : computation machine = result at hfirst
  cases hfirst with
  | value hvalue hfits =>
    rw [bind_of_eq_ok hresult]
    exact hnext _ hvalue hfits
  | overflow hbefore hpart =>
    rw [bind_of_eq_error hresult, List.append_assoc, List.cons_append]
    exact .overflow hbefore hpart

theorem Checked.behind {result : EStateM.Result Interrupt Machine Value}
    (hchecked : Checked machine n parts result) {earlier : List Expr}
    (hearlier : ∀ part ∈ earlier, part.Fits machine.integer?) :
    Checked machine n (earlier ++ parts) result := by
  cases hchecked with
  | value hvalue hfits => exact .value hvalue (List.forall_mem_append.mpr ⟨hearlier, hfits⟩)
  | overflow hbefore hpart =>
    rw [← List.append_assoc]
    exact .overflow (List.forall_mem_append.mpr ⟨hearlier, hbefore⟩) hpart

/-- The evaluator computes the parts in this order, and checks each of them. -/
theorem checked_evaluate (limit : Nat) {fuel : Nat} {expression : Expr}
    (hexact : expression.exactValue? machine.integer? = some n)
    (hfuel : expression.postorder.length ≤ fuel) :
    Checked machine n expression.postorder (evaluate limit fuel expression machine) := by
  induction fuel generalizing expression n with
  | zero =>
    have hnil := List.eq_nil_of_length_eq_zero (Nat.le_zero.mp hfuel)
    cases expression <;> simp [Expr.postorder] at hnil
  | succ fuel ih =>
    rw [evaluate_succ]
    cases expression with
    | literal literal span =>
      cases literal with
      | int value =>
        cases hexact
        exact checked_at_hand (List.forall_mem_nil _) rfl
      | float | str | bool => cases hexact
    | name name span =>
      obtain ⟨value, rfl, hget⟩ := Machine.get?_of_integer? hexact
      rw [evaluateWith, bind_of_eq_ok (find?_apply name machine), hget]
      exact checked_at_hand (List.forall_mem_nil _) hexact
    | unary op operand span =>
      cases op with
      | not => cases hexact
      | negate =>
        have hwhole := hexact
        rw [Expr.exactValue?] at hexact
        obtain ⟨a, ha, hn⟩ := Option.bind_eq_some_iff.mp hexact
        cases hn
        simp only [Expr.postorder, List.length_append, List.length_singleton] at hfuel ⊢
        refine (ih ha (by omega)).bind ?_
        rintro value rfl hfits
        exact checked_operator hfits hwhole
    | binary op left right span =>
      have hwhole := hexact
      rw [Expr.exactValue?] at hexact
      obtain ⟨compute, hop, hexact⟩ := Option.bind_eq_some_iff.mp hexact
      obtain ⟨a, ha, hexact⟩ := Option.bind_eq_some_iff.mp hexact
      obtain ⟨b, hb, hn⟩ := Option.bind_eq_some_iff.mp hexact
      cases hn
      simp only [Expr.postorder, List.length_append, List.length_singleton] at hfuel ⊢
      refine (ih ha (by omega)).bind ?_
      rintro first rfl hfirst
      rw [← List.append_assoc]
      refine ((ih hb (by omega)).behind hfirst).bind ?_
      rintro second rfl hfits
      rw [BinaryOp.apply_of_exactOperation? hop]
      exact checked_operator hfits hwhole
    | group inner span =>
      have hinner : inner.exactValue? machine.integer? = some n := hexact
      simp only [Expr.postorder, List.length_append, List.length_singleton] at hfuel ⊢
      rw [evaluateWith, ← bind_pure (evaluate limit fuel inner)]
      refine (ih hinner (by omega)).bind ?_
      rintro value rfl hfits
      exact checked_at_hand hfits hexact
    | print | input | call => cases hexact

/-- Of two ways to find the first part that does not fit, both find the same one. -/
theorem eq_of_first_unfit {integer? : String → Option Int} {before before' after after' : List Expr}
    {part part' : Expr} (hsame : before ++ part :: after = before' ++ part' :: after')
    (hbefore : ∀ earlier ∈ before, earlier.Fits integer?) (hpart : ¬ part.Fits integer?)
    (hbefore' : ∀ earlier ∈ before', earlier.Fits integer?) (hpart' : ¬ part'.Fits integer?) :
    part = part' := by
  classical
  have hfind : (before ++ part :: after).find? (fun part => ¬ part.Fits integer?) = some part :=
    List.find?_eq_some_iff_append.mpr ⟨by simpa, before, after, rfl, by simpa⟩
  have hfind' : (before ++ part :: after).find? (fun part => ¬ part.Fits integer?) = some part' :=
    List.find?_eq_some_iff_append.mpr ⟨by simpa, before', after', hsame, by simpa⟩
  exact Option.some.inj (hfind.symm.trans hfind')

/-- Integer arithmetic is exact if the values of all its parts are integers of the program. If
    not, it ends in an overflow at the first part, in the order of evaluation, whose value is
    none. Nothing else can come of it, and the machine is as before. -/
theorem evaluate_exact_or_overflow (limit : Nat) {machine : Machine} {expression : Expr} {n : Int}
    (hexact : expression.exactValue? machine.integer? = some n) {fuel : Nat}
    (hfuel : expression.postorder.length ≤ fuel) :
    ((∀ part ∈ expression.postorder, part.Fits machine.integer?) →
        ∃ value : Int64, value.toInt = n ∧
          evaluate limit fuel expression machine = .ok (.int value) machine) ∧
      ∀ before part after, expression.postorder = before ++ part :: after →
        (∀ earlier ∈ before, earlier.Fits machine.integer?) → ¬ part.Fits machine.integer? →
        evaluate limit fuel expression machine =
          .error (.fault ⟨.overflow, part.span⟩) machine := by
  have hchecked := checked_evaluate limit hexact hfuel
  generalize evaluate limit fuel expression machine = result at hchecked ⊢
  generalize expression.postorder = parts at hchecked ⊢
  cases hchecked with
  | value hvalue hfits =>
    refine ⟨fun _ => ⟨_, hvalue, rfl⟩, ?_⟩
    rintro before part after rfl _ hpart
    exact absurd (hfits part (List.mem_append_right _ List.mem_cons_self)) hpart
  | @overflow before after part hbefore hpart =>
    refine ⟨?_, ?_⟩
    · intro hfits
      exact absurd (hfits part (List.mem_append_right _ List.mem_cons_self)) hpart
    · intro before' part' after' hsame hbefore' hpart'
      rw [eq_of_first_unfit hsame hbefore hpart hbefore' hpart']

/-- A machine in which `x` is the least integer. -/
def withLeast : Machine :=
  { Machine.start {} {} with
    store := (Machine.start {} {}).store.define Machine.session "x" (.int Int64.minValue) }

/-- The expression `x + (0 - x)`. -/
def leastAndBack : Expr :=
  let difference := Expr.binary .subtract (.literal (.int 0) ⟨5, 6⟩) (.name "x" ⟨9, 10⟩) ⟨5, 10⟩
  .binary .add (.name "x" ⟨0, 1⟩) (.group difference ⟨4, 11⟩) ⟨0, 11⟩

/-- The sum would be zero, but the difference in it is one more than the greatest integer. -/
theorem evaluate_overflow_leastAndBack :
    leastAndBack.exactValue? withLeast.integer? = some 0 ∧
      evaluate 0 6 leastAndBack withLeast =
        .error (.fault ⟨.overflow, ⟨5, 10⟩⟩) withLeast := by
  have hx : withLeast.integer? "x" = some (-2 ^ 63) := by decide +kernel
  have hexact : leastAndBack.exactValue? withLeast.integer? = some 0 := by
    simp [leastAndBack, Expr.exactValue?, BinaryOp.exactOperation?, hx]
  refine ⟨hexact, ?_⟩
  refine (evaluate_exact_or_overflow 0 hexact (Nat.le_refl 6)).2
    [.name "x" ⟨0, 1⟩, .literal (.int 0) ⟨5, 6⟩, .name "x" ⟨9, 10⟩] _ _ rfl ?_ ?_
  · simp [Expr.Fits, Expr.exactValue?, hx, Representable]
  · simp [Expr.Fits, Expr.exactValue?, BinaryOp.exactOperation?, hx, Representable]

end Eval
end KawaiiLang
