import KawaiiLang.Proofs.Parse.Viable.Cursor

namespace KawaiiLang

open Grammar (Phrase Prompt)

/-- The tokens in front of the rest can be read as the phrase. -/
def Grammar.Phrase.Heads (phrase : Phrase) : Reading :=
  fun input rest => ∃ tree, phrase.Derives input tree rest

namespace Parser

section

variable {operand : Parser Expr} {Operand Tier : Reading} (hoperand : Spells Operand operand)

include hoperand

/-- A tier of operators is viable for any relation that is closed under the two productions of a
    tier. -/
theorem spells_tier {operator : Token.Kind → Option BinaryOp}
    (hsingle : ∀ input rest, Operand input rest → Tier input rest)
    (hjoin : ∀ {input token middle op rest}, Operand input (token :: middle) →
      operator token.kind = some op → Tier middle rest → Tier input rest) :
    Spells Tier (tier operator operand) := by
  refine spells_look_bind fun bound => ?_
  induction bound with
  | zero => exact hoperand.mono hsingle
  | succ bound ih =>
    refine hoperand.bind fun left => spells_takeIf_bind ?_ fun token op _ hop => .inl ?_
    · exact spells_pure fun rest input => hsingle input rest
    · refine Spells.bind ih fun right => spells_pure ?_
      intro rest middle hright input hleft
      exact hjoin hleft hop hright

end

theorem spells_expressionOf {factor : Parser Expr} (hfactor : Spells Phrase.factor.Heads factor) :
    Spells Phrase.expression.Heads (expressionOf factor) := by
  have hterm : Spells Phrase.term.Heads (tier multiplicative factor) := by
    refine spells_tier hfactor ?_ ?_
    · rintro input rest ⟨value, hvalue⟩
      exact ⟨_, .term hvalue⟩
    · rintro input token middle op rest ⟨left, hleft⟩ hop ⟨right, hright⟩
      exact ⟨_, .product hleft (multiplicative_eq_some_iff.mp hop) hright⟩
  have hsimple : Spells Phrase.simple.Heads (tier additive (tier multiplicative factor)) := by
    refine spells_tier hterm ?_ ?_
    · rintro input rest ⟨value, hvalue⟩
      exact ⟨_, .simple hvalue⟩
    · rintro input token middle op rest ⟨left, hleft⟩ hop ⟨right, hright⟩
      exact ⟨_, .sum hleft (additive_eq_some_iff.mp hop) hright⟩
  refine spells_tier hsimple ?_ ?_
  · rintro input rest ⟨value, hvalue⟩
    exact ⟨_, .expression hvalue⟩
  · rintro input token middle op rest ⟨left, hleft⟩ hop ⟨right, hright⟩
    exact ⟨_, .comparison hleft (relational_eq_some_iff.mp hop) hright⟩

section

variable {expression : Parser Expr} (hexpression : Spells Phrase.expression.Heads expression)

include hexpression

theorem spells_commaSeparated (bound : Nat) :
    Spells Phrase.items.Heads (commaSeparated expression bound) := by
  have hitem : ∀ input rest, Phrase.expression.Heads input rest → Phrase.items.Heads input rest := by
    rintro input rest ⟨value, hvalue⟩
    exact ⟨_, .item hvalue⟩
  induction bound with
  | zero => exact hexpression.bind fun _ => spells_pure fun rest input => hitem input rest
  | succ bound ih =>
    refine hexpression.bind fun _ => spells_accept_bind ?_ fun comma _ hcomma => ?_
    · exact spells_pure fun rest input => hitem input rest
    · refine Spells.bind ih fun _ => spells_pure ?_
      rintro rest middle ⟨values, hvalues⟩ input ⟨value, hvalue⟩
      exact ⟨_, .items hvalue hcomma hvalues⟩

theorem spells_argumentsOf (callee : String) :
    Spells Phrase.arguments.Heads (argumentsOf expression callee) := by
  refine spells_expect_bind nofun fun opening hopening => ?_
  refine spells_look_bind fun closed => ?_
  cases closed with
  | true =>
    refine spells_expect_bind nofun fun closing hclosing => spells_pure ?_
    exact fun rest => ⟨_, .noArguments hopening hclosing⟩
  | false =>
    refine spells_look_bind fun bound => ?_
    refine (spells_commaSeparated hexpression bound).bind fun _ => ?_
    refine spells_expect_bind nofun fun closing hclosing => spells_pure ?_
    rintro rest input ⟨args, hargs⟩
    exact ⟨_, .arguments hopening hargs hclosing⟩

end

theorem spells_prompt : Spells (fun input rest => ∃ text, Prompt input text rest) prompt := by
  refine spells_expect_bind nofun fun opening hopening => ?_
  refine spells_accept_bind ?_ fun token hliterate hstring => ?_
  · refine spells_expect_bind nofun fun closing hclosing => spells_pure ?_
    exact fun rest => ⟨_, .absent hopening hclosing⟩
  · obtain ⟨text, htext⟩ := hliterate.string hstring
    split
    all_goals
      refine spells_expect_bind nofun fun closing hclosing => spells_pure ?_
      exact fun rest => ⟨_, .given hopening hstring htext hclosing⟩

/-- What follows the first token of an expression, unless that token is refused. -/
theorem spells_factorFrom {nested : Parser Expr} (hnested : Spells Phrase.factor.Heads nested)
    {token : Token} (hliterate : token.Literate) :
    Spells (Phrase.factor.Heads.past token) (factorFrom nested token) ∨
      Refusal token (factorFrom nested token) := by
  have hinner := spells_expressionOf hnested
  have hargs (callee : String) := spells_argumentsOf hinner callee
  unfold factorFrom
  split
  -- An operator in front of its operand.
  · next htoken =>
    refine .inl (hnested.bind fun _ => spells_pure ?_)
    rintro rest input ⟨operand, hoperand⟩
    exact ⟨_, .negation htoken hoperand⟩
  · next htoken =>
    refine .inl (hnested.bind fun _ => spells_pure ?_)
    rintro rest input ⟨operand, hoperand⟩
    exact ⟨_, .complement htoken hoperand⟩
  -- Parentheses.
  · next htoken =>
    refine .inl (hinner.bind fun _ => spells_expect_bind (by decide) fun closing hclosing => ?_)
    refine spells_spanFrom ?_
    rintro rest input ⟨inner, hinner⟩
    exact ⟨_, .group htoken hinner hclosing⟩
  -- A name, or a call of it.
  · next htoken =>
    refine .inl (spells_look_bind fun opened => .ite ?_ ?_)
    · refine (hargs _).node ?_
      rintro input rest ⟨args, hargs⟩
      exact ⟨_, .call htoken hargs⟩
    · exact spells_pure fun rest => ⟨_, .name htoken⟩
  -- Output and input.
  · next htoken =>
    refine .inl ((hargs _).node ?_)
    rintro input rest ⟨args, hargs⟩
    exact ⟨_, .print htoken hargs⟩
  · next htoken =>
    refine .inl (spells_prompt.node ?_)
    rintro input rest ⟨text, htext⟩
    exact ⟨_, .input htoken htext⟩
  -- Constants.
  · next htoken => exact .inl (spells_pure fun rest => ⟨_, .hai htoken⟩)
  · next htoken => exact .inl (spells_pure fun rest => ⟨_, .iie htoken⟩)
  · next htoken =>
    obtain ⟨value, hvalue⟩ := hliterate.integer htoken
    rw [hvalue]
    exact .inl (spells_pure fun rest => ⟨_, .integer htoken hvalue⟩)
  · next htoken =>
    obtain ⟨value, hvalue⟩ := hliterate.float htoken
    rw [hvalue]
    exact .inl (spells_pure fun rest => ⟨_, .float htoken hvalue⟩)
  · next htoken =>
    obtain ⟨value, hvalue⟩ := hliterate.string htoken
    rw [hvalue]
    exact .inl (spells_pure fun rest => ⟨_, .string htoken hvalue⟩)
  · exact .inr ⟨.noExpression, fun _ => SyntaxFault.noConfusion, rfl⟩

theorem spells_factor (bound : Nat) : Spells Phrase.factor.Heads (factor bound) := by
  have hopens : Phrase.factor.Heads.Opens [] :=
    Reading.opens_sample .identifier nofun fun rest => ⟨_, .name rfl⟩
  induction bound with
  | zero => exact spells_unmet hopens _
  | succ bound ih =>
    refine spells_takeIf_bind (spells_unmet hopens _) ?_
    rintro token _ hliterate ⟨⟩
    exact spells_factorFrom ih hliterate

theorem spells_expression : Spells Phrase.expression.Heads expression :=
  spells_look_bind fun bound => spells_expressionOf (spells_factor bound)

theorem spells_arguments (callee : String) :
    Spells Phrase.arguments.Heads (arguments callee) :=
  spells_look_bind fun bound => spells_argumentsOf (spells_expressionOf (spells_factor bound)) callee

end Parser
end KawaiiLang
