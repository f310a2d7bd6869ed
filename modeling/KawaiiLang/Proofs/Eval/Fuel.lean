import KawaiiLang.Proofs.Eval.Restore
import KawaiiLang.Proofs.Eval.Simulation

namespace KawaiiLang

theorem Law.Corresponds.eq_of_same {limit : Nat} {law : Law limit} {value value' : Value}
    (hvalue : law.Corresponds .same value value') : value = value' :=
  Value.alike_same_iff.mp hvalue.alike

theorem Law.eq_of_forall₂_same {limit : Nat} {law : Law limit} {values values' : List Value}
    (hvalues : List.Forall₂ (law.Corresponds .same) values values') : values = values' := by
  induction hvalues with
  | nil => rfl
  | cons hvalue _ ih => rw [hvalue.eq_of_same, ih]

/-- Every machine simulates itself. -/
def Simulation.self (limit : Nat) : Simulation limit where
  law := Machine.restoring limit
  pairing := .same
  related := Eq
  ready _ := ⟨trivial, trivial⟩
  depth_eq hsame := congrArg Machine.depth hsame
  input_eq hsame := congrArg Machine.input hsame
  get name hsame := by
    rw [hsame]
    exact Value.rel_same _
  input input hsame := by rw [hsame]
  write text hsame := by
    rw [hsame]
    exact ⟨rfl, rfl⟩
  flush hsame := by
    rw [hsame]
    exact ⟨rfl, rfl⟩
  define name hsame hvalue := by rw [hsame, hvalue.eq_of_same]
  update hsame _ _ _ _ := by rw [hsame]
  enter hsame _ hclosure hargs := by
    cases hsame
    cases hclosure.eq_of_same
    cases Law.eq_of_forall₂_same hargs
    refine ⟨rfl, ?_⟩
    intro next next' _ _ hnext
    rw [hnext]

namespace Eval

variable {limit fuel fuel' : Nat}

/-- A run that has finished is followed by the same run only. -/
theorem eq_of_follows {α : Type} {values : α → α → Prop}
    (hvalues : ∀ value value', values value value' → value = value')
    {left right : EStateM.Result Interrupt Machine α}
    (hfollows : Simulation.Follows Eq values left right) (hfinished : Finished left) :
    right = left := by
  obtain ⟨machine, rfl⟩ | ⟨value, value', machine, machine', rfl, rfl, hvalue, rfl⟩ |
    ⟨error, machine, machine', rfl, rfl, rfl⟩ := hfollows.cases
  · exact absurd rfl (hfinished machine)
  · rw [hvalues value value' hvalue]
  · rfl

theorem evaluate_of_le (hfuel : fuel ≤ fuel') {expression : Expr} {machine : Machine}
    (hfinished : Finished (evaluate limit fuel expression machine)) :
    evaluate limit fuel' expression machine = evaluate limit fuel expression machine := by
  have hfollows := (Simulation.self limit).matches_evaluate hfuel expression machine machine rfl
  exact eq_of_follows (fun _ _ => Law.Corresponds.eq_of_same) hfollows hfinished

theorem evaluateAll_of_le (hfuel : fuel ≤ fuel') {expressions : List Expr} {machine : Machine}
    (hfinished : Finished (evaluateAll (evaluate limit fuel) expressions machine)) :
    evaluateAll (evaluate limit fuel') expressions machine =
      evaluateAll (evaluate limit fuel) expressions machine := by
  have hmatches := Simulation.matches_evaluateAll
    ((Simulation.self limit).matches_evaluate hfuel) expressions
  exact eq_of_follows (fun _ _ => Law.eq_of_forall₂_same) (hmatches machine machine rfl) hfinished

end Eval
end KawaiiLang
