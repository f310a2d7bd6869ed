import KawaiiLang.Eval.Operator

namespace KawaiiLang

/-- A pairing of the functions of two sessions by their stamps, each with one of the other
    session at most. -/
structure Pairing where
  pairs : Nat → Nat → Prop
  unique {a b c d : Nat} : pairs a b → pairs c d → (a = c ↔ b = d)

namespace Pairing

/-- Every function with itself. -/
def same : Pairing where
  pairs := Eq
  unique hfirst hsecond := by rw [hfirst, hsecond]

def flip (pairing : Pairing) : Pairing where
  pairs a b := pairing.pairs b a
  unique hfirst hsecond := (pairing.unique hfirst hsecond).symm

end Pairing

/-- Two functions do the same and are paired. -/
structure Closure.Alike (pairing : Pairing) (first second : Closure) : Prop where
  stamp : pairing.pairs first.stamp second.stamp
  name : first.name = second.name
  params : first.params = second.params
  body : first.body = second.body
  home : first.home = second.home

namespace Value

/-- The same value, but for which functions are paired with which. -/
inductive Alike (pairing : Pairing) : Value → Value → Prop where
  | plain {value : Value} (htype : value.type ≠ .function) : Alike pairing value value
  | function {first second : Closure} (hclosure : first.Alike pairing second) :
      Alike pairing (.function first) (.function second)

variable {pairing : Pairing} {first second third fourth : Value}

theorem Alike.flip (halike : first.Alike pairing second) : second.Alike pairing.flip first := by
  cases halike with
  | plain htype => exact .plain htype
  | function hclosure =>
    exact .function ⟨hclosure.stamp, hclosure.name.symm, hclosure.params.symm,
      hclosure.body.symm, hclosure.home.symm⟩

theorem Alike.closure {first second : Closure}
    (halike : (Value.function first).Alike pairing (.function second)) :
    first.Alike pairing second := by
  cases halike with
  | plain htype => exact absurd rfl htype
  | function hclosure => exact hclosure

theorem alike_same_iff : first.Alike .same second ↔ first = second := by
  constructor
  · intro halike
    cases halike with
    | plain => rfl
    | @function first second hclosure =>
      obtain ⟨stamp, name, params, body, home⟩ := first
      obtain ⟨rfl, rfl, rfl, rfl, rfl⟩ := hclosure
      rfl
  · rintro rfl
    cases first with
    | function closure => exact .function ⟨rfl, rfl, rfl, rfl, rfl⟩
    | unit | bool | int | float | str => exact .plain nofun

theorem rel_same (found : Option Value) : Option.Rel (Alike .same) found found := by
  cases found with
  | none => exact .none
  | some value => exact .some (alike_same_iff.mpr rfl)

theorem eq_of_rel_same {found found' : Option Value}
    (hfound : Option.Rel (Alike .same) found found') : found = found' := by
  cases hfound with
  | none => rfl
  | some halike => rw [alike_same_iff.mp halike]

/-- What does not tell functions from each other does not tell values apart that are alike. -/
theorem Alike.apply_eq {α : Type} (halike : first.Alike pairing second) (operate : Value → α)
    (hoperate : ∀ closure closure', operate (.function closure) = operate (.function closure')) :
    operate first = operate second := by
  cases halike with
  | plain => rfl
  | function => exact hoperate _ _

theorem Alike.isTruthy_eq (halike : first.Alike pairing second) :
    first.isTruthy = second.isTruthy :=
  halike.apply_eq isTruthy fun _ _ => rfl

theorem Alike.display_eq (halike : first.Alike pairing second) :
    first.display = second.display := by
  cases halike with
  | plain => rfl
  | function hclosure => rw [display, display, hclosure.name]

/-- Functions are equal just if those paired with them are. -/
theorem Alike.equals_eq (hleft : first.Alike pairing second) (hright : third.Alike pairing fourth) :
    first.equals third = second.equals fourth := by
  cases hleft with
  | plain htype =>
    cases hright with
    | plain => rfl
    | function =>
      cases first with
      | function => exact absurd rfl htype
      | unit | bool | int | float | str => rfl
  | function hleft =>
    cases hright with
    | plain htype =>
      cases third with
      | function => exact absurd rfl htype
      | unit | bool | int | float | str => rfl
    | function hright =>
      simp only [equals, same, pairing.unique hleft.stamp hright.stamp]

end Value

/-- No operator tells values apart that are alike. -/
theorem UnaryOp.apply_eq_of_alike {pairing : Pairing} {first second : Value} (op : UnaryOp)
    (halike : first.Alike pairing second) : op.apply first = op.apply second := by
  refine halike.apply_eq op.apply ?_
  intro closure closure'
  cases op <;> rfl

theorem ArithmeticOp.apply_eq_of_alike {pairing : Pairing} {left left' right right' : Value}
    (op : ArithmeticOp) (hleft : left.Alike pairing left') (hright : right.Alike pairing right') :
    op.apply left right = op.apply left' right' :=
  calc
    op.apply left right = op.apply left' right :=
      hleft.apply_eq (op.apply · right) fun _ _ => by cases right <;> rfl
    _ = op.apply left' right' :=
      hright.apply_eq (op.apply left') fun _ _ => by cases left' <;> rfl

theorem OrderOp.apply_eq_of_alike {pairing : Pairing} {left left' right right' : Value}
    (op : OrderOp) (hleft : left.Alike pairing left') (hright : right.Alike pairing right') :
    op.apply left right = op.apply left' right' :=
  calc
    op.apply left right = op.apply left' right :=
      hleft.apply_eq (op.apply · right) fun _ _ => by cases right <;> rfl
    _ = op.apply left' right' :=
      hright.apply_eq (op.apply left') fun _ _ => by cases left' <;> rfl

theorem addValues_eq_of_alike {pairing : Pairing} {left left' right right' : Value}
    (hleft : left.Alike pairing left') (hright : right.Alike pairing right') :
    addValues left right = addValues left' right' := by
  have hleftText := hleft.display_eq
  have hrightText := hright.display_eq
  have hsum := ArithmeticOp.add.apply_eq_of_alike hleft hright
  cases hleft with
  | plain =>
    cases hright with
    | plain => rfl
    | function => cases left <;> simp_all [addValues]
  | function =>
    cases hright with
    | plain => cases right <;> simp_all [addValues]
    | function => exact hsum

theorem BinaryOp.apply_eq_of_alike {pairing : Pairing} {left left' right right' : Value}
    (op : BinaryOp) (hleft : left.Alike pairing left') (hright : right.Alike pairing right') :
    op.apply left right = op.apply left' right' := by
  cases op with
  | add => exact addValues_eq_of_alike hleft hright
  | subtract => exact ArithmeticOp.subtract.apply_eq_of_alike hleft hright
  | multiply => exact ArithmeticOp.multiply.apply_eq_of_alike hleft hright
  | divide => exact ArithmeticOp.divide.apply_eq_of_alike hleft hright
  | less => exact OrderOp.less.apply_eq_of_alike hleft hright
  | lessEqual => exact OrderOp.lessEqual.apply_eq_of_alike hleft hright
  | greater => exact OrderOp.greater.apply_eq_of_alike hleft hright
  | greaterEqual => exact OrderOp.greaterEqual.apply_eq_of_alike hleft hright
  | and | or => simp only [apply, hleft.isTruthy_eq, hright.isTruthy_eq]
  | equal | notEqual => simp only [apply, hleft.equals_eq hright]

theorem UpdateOp.apply_eq_of_alike {pairing : Pairing} {first second : Value} (op : UpdateOp)
    (name : String) (halike : first.Alike pairing second) :
    op.apply name first = op.apply name second :=
  halike.apply_eq (op.apply name) fun _ _ => rfl

end KawaiiLang
