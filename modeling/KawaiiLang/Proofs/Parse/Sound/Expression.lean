import Mathlib.Tactic.MkIffOfInductiveProp
import KawaiiLang.Parse.Expression
import KawaiiLang.Proofs.Parse.Cursor

namespace KawaiiLang

open Grammar (Phrase Prompt)

/-- A token for a number or a string carries a literal of its own type. -/
@[mk_iff] structure Token.Literate (token : Token) : Prop where
  integer : token.kind = .integer → ∃ value, token.literal = some (.int value)
  float : token.kind = .float → ∃ value, token.literal = some (.float value)
  string : token.kind = .string → ∃ value, token.literal = some (.str value)

/-- A cursor on tokens as they come out of a text: those that are still to be read are
    literate, and the end is marked as such. -/
structure Cursor.Lexed (cursor : Cursor) : Prop where
  literate : ∀ token ∈ cursor.rest, token.Literate
  stop_kind : cursor.stop.kind = .endOfInput

theorem Cursor.Lexed.of_reaches {cursor next : Cursor} (hlexed : cursor.Lexed)
    (hreaches : cursor.Reaches next) : next.Lexed where
  literate token htoken := hlexed.literate token (hreaches.suffix.subset htoken)
  stop_kind := by
    rw [hreaches.eq_movedTo]
    exact hlexed.stop_kind

namespace Parser

/-- Whatever the parser reads is derived by the grammar. -/
def Sound {α : Type} (parser : Parser α) (Derives : List Token → α → List Token → Prop) : Prop :=
  ∀ ⦃cursor final : Cursor⦄ ⦃a : α⦄, cursor.Lexed → parser cursor = .ok a final →
    cursor.Reaches final ∧ Derives cursor.rest a final.rest

theorem relational_eq_some_iff {kind : Token.Kind} {op : BinaryOp} :
    relational kind = some op ↔ (kind, op) ∈ Grammar.relationalOps := by
  constructor
  · intro hop
    unfold relational at hop
    split at hop <;> cases hop <;> decide
  · exact (by decide : ∀ pair ∈ Grammar.relationalOps, relational pair.1 = some pair.2) (kind, op)

theorem additive_eq_some_iff {kind : Token.Kind} {op : BinaryOp} :
    additive kind = some op ↔ (kind, op) ∈ Grammar.additiveOps := by
  constructor
  · intro hop
    unfold additive at hop
    split at hop <;> cases hop <;> decide
  · exact (by decide : ∀ pair ∈ Grammar.additiveOps, additive pair.1 = some pair.2) (kind, op)

theorem multiplicative_eq_some_iff {kind : Token.Kind} {op : BinaryOp} :
    multiplicative kind = some op ↔ (kind, op) ∈ Grammar.multiplicativeOps := by
  constructor
  · intro hop
    unfold multiplicative at hop
    split at hop <;> cases hop <;> decide
  · exact (by decide : ∀ pair ∈ Grammar.multiplicativeOps, multiplicative pair.1 = some pair.2) (kind, op)

/-- A tier of operators is sound for any relation that is closed under the two
    productions of a tier. -/
theorem sound_chain {operator : Token.Kind → Option BinaryOp} {operand : Parser Expr}
    {Operand Tier : List Token → Expr → List Token → Prop} (hoperand : Sound operand Operand)
    (hsingle : ∀ {input value rest}, Operand input value rest → Tier input value rest)
    (hjoin : ∀ {input left token middle op right rest}, Operand input left (token :: middle) →
      operator token.kind = some op → Tier middle right rest →
        Tier input (.binary op left right (left.span.through right.span)) rest)
    (bound : Nat) : Sound (chain operator operand bound) Tier := by
  induction bound with
  | zero =>
    intro cursor final value hlexed hchain
    obtain ⟨hreaches, hvalue⟩ := hoperand hlexed hchain
    exact ⟨hreaches, hsingle hvalue⟩
  | succ bound ih =>
    intro cursor final value hlexed hchain
    rw [chain, bind_eq_ok_iff] at hchain
    obtain ⟨left, middle, hleft, hchain⟩ := hchain
    obtain ⟨hmiddle, hleft⟩ := hoperand hlexed hleft
    rw [bind_eq_ok_iff] at hchain
    obtain ⟨result, next, htake, hchain⟩ := hchain
    obtain ⟨rfl, rfl, _⟩ | ⟨token, op, rfl, hrest, hop, hnext⟩ := takeIf_cases htake
    · obtain ⟨rfl, rfl⟩ := pure_eq_ok_iff.mp hchain
      exact ⟨hmiddle, hsingle hleft⟩
    · dsimp only at hchain
      rw [bind_eq_ok_iff] at hchain
      obtain ⟨right, last, hright, hchain⟩ := hchain
      obtain ⟨rfl, rfl⟩ := pure_eq_ok_iff.mp hchain
      obtain ⟨hlast, hright⟩ := ih (hlexed.of_reaches (hmiddle.trans hnext)) hright
      rw [hrest] at hleft
      exact ⟨(hmiddle.trans hnext).trans hlast, hjoin hleft hop hright⟩

theorem sound_tier {operator : Token.Kind → Option BinaryOp} {operand : Parser Expr}
    {Operand Tier : List Token → Expr → List Token → Prop} (hoperand : Sound operand Operand)
    (hsingle : ∀ {input value rest}, Operand input value rest → Tier input value rest)
    (hjoin : ∀ {input left token middle op right rest}, Operand input left (token :: middle) →
      operator token.kind = some op → Tier middle right rest →
        Tier input (.binary op left right (left.span.through right.span)) rest) :
    Sound (tier operator operand) Tier := by
  intro cursor final value hlexed htier
  rw [tier, bind_of_eq_ok (remaining_apply cursor)] at htier
  exact sound_chain hoperand hsingle hjoin _ hlexed htier

theorem sound_expressionOf {factor : Parser Expr} (hfactor : Sound factor Phrase.factor.Derives) :
    Sound (expressionOf factor) Phrase.expression.Derives := by
  have hterm : Sound (tier multiplicative factor) Phrase.term.Derives :=
    sound_tier hfactor .term fun hleft hop => .product hleft (multiplicative_eq_some_iff.mp hop)
  have hsimple : Sound (tier additive (tier multiplicative factor)) Phrase.simple.Derives :=
    sound_tier hterm .simple fun hleft hop => .sum hleft (additive_eq_some_iff.mp hop)
  exact sound_tier hsimple .expression fun hleft hop =>
    .comparison hleft (relational_eq_some_iff.mp hop)

theorem sound_commaSeparated {expression : Parser Expr}
    (hexpression : Sound expression Phrase.expression.Derives) (bound : Nat) :
    Sound (commaSeparated expression bound) Phrase.items.Derives := by
  induction bound with
  | zero =>
    intro cursor final values hlexed hitems
    rw [commaSeparated, bind_eq_ok_iff] at hitems
    obtain ⟨value, middle, hvalue, hitems⟩ := hitems
    obtain ⟨rfl, rfl⟩ := pure_eq_ok_iff.mp hitems
    obtain ⟨hreaches, hvalue⟩ := hexpression hlexed hvalue
    exact ⟨hreaches, .item hvalue⟩
  | succ bound ih =>
    intro cursor final values hlexed hitems
    rw [commaSeparated, bind_eq_ok_iff] at hitems
    obtain ⟨value, middle, hvalue, hitems⟩ := hitems
    obtain ⟨hmiddle, hvalue⟩ := hexpression hlexed hvalue
    rw [bind_eq_ok_iff] at hitems
    obtain ⟨result, next, haccept, hitems⟩ := hitems
    obtain ⟨rfl, rfl⟩ | ⟨comma, rfl, hrest, hcomma, hnext⟩ := accept_cases haccept
    · obtain ⟨rfl, rfl⟩ := pure_eq_ok_iff.mp hitems
      exact ⟨hmiddle, .item hvalue⟩
    · dsimp only at hitems
      rw [bind_eq_ok_iff] at hitems
      obtain ⟨others, last, hothers, hitems⟩ := hitems
      obtain ⟨rfl, rfl⟩ := pure_eq_ok_iff.mp hitems
      obtain ⟨hlast, hothers⟩ := ih (hlexed.of_reaches (hmiddle.trans hnext)) hothers
      rw [hrest] at hvalue
      exact ⟨(hmiddle.trans hnext).trans hlast, .items hvalue hcomma hothers⟩

theorem sound_argumentsOf {expression : Parser Expr}
    (hexpression : Sound expression Phrase.expression.Derives) (callee : String) :
    Sound (argumentsOf expression callee) Phrase.arguments.Derives := by
  intro cursor final args hlexed hargs
  rw [argumentsOf, bind_eq_ok_iff] at hargs
  obtain ⟨opening, first, hexpect, hargs⟩ := hargs
  obtain ⟨hrest, hopening, hfirst⟩ := expect_eq_ok hexpect
  rw [bind_of_eq_ok (sees_apply _ first)] at hargs
  split at hargs
  · rw [bind_of_eq_ok (pure_apply _ first), bind_eq_ok_iff] at hargs
    obtain ⟨closing, last, hclosing, hargs⟩ := hargs
    obtain ⟨rfl, rfl⟩ := pure_eq_ok_iff.mp hargs
    obtain ⟨hfirstRest, hclosing, hlast⟩ := expect_eq_ok hclosing
    rw [hrest, hfirstRest]
    exact ⟨hfirst.trans hlast, .noArguments hopening hclosing⟩
  · rw [bind_of_eq_ok (remaining_apply first), bind_eq_ok_iff] at hargs
    obtain ⟨items, second, hitems, hargs⟩ := hargs
    obtain ⟨hsecond, hitems⟩ := sound_commaSeparated hexpression _ (hlexed.of_reaches hfirst) hitems
    rw [bind_eq_ok_iff] at hargs
    obtain ⟨closing, last, hclosing, hargs⟩ := hargs
    obtain ⟨rfl, rfl⟩ := pure_eq_ok_iff.mp hargs
    obtain ⟨hsecondRest, hclosing, hlast⟩ := expect_eq_ok hclosing
    rw [hsecondRest] at hitems
    rw [hrest]
    exact ⟨(hfirst.trans hsecond).trans hlast, .arguments hopening hitems hclosing⟩

theorem sound_prompt : Sound prompt Prompt := by
  intro cursor final text hlexed hprompt
  rw [prompt, bind_eq_ok_iff] at hprompt
  obtain ⟨opening, first, hexpect, hprompt⟩ := hprompt
  obtain ⟨hrest, hopening, hfirst⟩ := expect_eq_ok hexpect
  rw [bind_eq_ok_iff] at hprompt
  obtain ⟨result, second, haccept, hprompt⟩ := hprompt
  obtain ⟨rfl, rfl⟩ | ⟨token, rfl, hfirstRest, hstring, hsecond⟩ := accept_cases haccept
  · dsimp only at hprompt
    rw [bind_of_eq_ok (pure_apply _ second), bind_eq_ok_iff] at hprompt
    obtain ⟨closing, last, hclosing, hprompt⟩ := hprompt
    obtain ⟨rfl, rfl⟩ := pure_eq_ok_iff.mp hprompt
    obtain ⟨hsecondRest, hclosing, hlast⟩ := expect_eq_ok hclosing
    rw [hrest, hsecondRest]
    exact ⟨hfirst.trans hlast, .absent hopening hclosing⟩
  · -- A literate string token has a text, so the empty prompt that stands in for none is
    -- never taken.
    obtain ⟨value, hvalue⟩ := ((hlexed.of_reaches hfirst).literate token (by simp [hfirstRest])).string hstring
    obtain ⟨kind, lexeme, literal, span, position⟩ := token
    subst hvalue
    dsimp only at hprompt
    rw [bind_of_eq_ok (pure_apply _ second), bind_eq_ok_iff] at hprompt
    obtain ⟨closing, last, hclosing, hprompt⟩ := hprompt
    obtain ⟨rfl, rfl⟩ := pure_eq_ok_iff.mp hprompt
    obtain ⟨hsecondRest, hclosing, hlast⟩ := expect_eq_ok hclosing
    rw [hrest, hfirstRest, hsecondRest]
    exact ⟨(hfirst.trans hsecond).trans hlast, .given hopening hstring rfl hclosing⟩

/-- The node made of `token` and of what `parser` reads behind it is sound if the
    production that joins the two is. -/
theorem sound_node {α β : Type} {parser : Parser α} {Derives : List Token → α → List Token → Prop}
    {Node : List Token → β → List Token → Prop} (hparser : Sound parser Derives)
    {node : α → Span → β} {token : Token} {cursor first final : Cursor} {b : β}
    (hlexed : cursor.Lexed) (hrest : cursor.rest = token :: first.rest)
    (hfirst : cursor.Reaches first)
    (hnode : (do let a ← parser; return node a (← spanFrom token.span)) first = .ok b final)
    (hjoin : ∀ {a}, Derives first.rest a final.rest →
      Node (token :: first.rest) (node a (Grammar.spanOf token first.rest final.rest)) final.rest) :
    cursor.Reaches final ∧ Node cursor.rest b final.rest := by
  rw [bind_eq_ok_iff] at hnode
  obtain ⟨a, middle, ha, hnode⟩ := hnode
  obtain ⟨hmiddle, ha⟩ := hparser (hlexed.of_reaches hfirst) ha
  rw [bind_of_eq_ok (spanFrom_of_reaches (hfirst.trans hmiddle) hrest hmiddle.suffix)] at hnode
  obtain ⟨rfl, rfl⟩ := pure_eq_ok_iff.mp hnode
  rw [hrest]
  exact ⟨hfirst.trans hmiddle, hjoin ha⟩

theorem sound_unary {parser : Parser Expr} (hparser : Sound parser Phrase.factor.Derives)
    {op : UnaryOp} {token : Token} {cursor first final : Cursor} {value : Expr}
    (hlexed : cursor.Lexed) (hrest : cursor.rest = token :: first.rest)
    (hfirst : cursor.Reaches first)
    (hunary : (do
      let operand ← parser
      return Expr.unary op operand (token.span.through operand.span)) first = .ok value final)
    (hjoin : ∀ {operand}, Phrase.factor.Derives first.rest operand final.rest →
      Phrase.factor.Derives (token :: first.rest)
        (.unary op operand (token.span.through operand.span)) final.rest) :
    cursor.Reaches final ∧ Phrase.factor.Derives cursor.rest value final.rest := by
  rw [bind_eq_ok_iff] at hunary
  obtain ⟨operand, middle, hoperand, hunary⟩ := hunary
  obtain ⟨hmiddle, hoperand⟩ := hparser (hlexed.of_reaches hfirst) hoperand
  obtain ⟨rfl, rfl⟩ := pure_eq_ok_iff.mp hunary
  rw [hrest]
  exact ⟨hfirst.trans hmiddle, hjoin hoperand⟩

theorem factorFrom_eq_ok {nested : Parser Expr} (hnested : Sound nested Phrase.factor.Derives)
    {token : Token} {cursor first final : Cursor} {value : Expr} (hlexed : cursor.Lexed)
    (hrest : cursor.rest = token :: first.rest) (hfirst : cursor.Reaches first)
    (hfactor : factorFrom nested token first = .ok value final) :
    cursor.Reaches final ∧ Phrase.factor.Derives cursor.rest value final.rest := by
  have hexpression := sound_expressionOf hnested
  have htoken : token.Literate := hlexed.literate token (by simp [hrest])
  rw [factorFrom] at hfactor
  cases hkind : token.kind with
  | symbol symbol =>
    cases symbol <;> simp only [hkind] at hfactor
    case minus => exact sound_unary hnested hlexed hrest hfirst hfactor (.negation hkind)
    case leftParen =>
      rw [bind_eq_ok_iff] at hfactor
      obtain ⟨inner, second, hinner, hfactor⟩ := hfactor
      obtain ⟨hsecond, hinner⟩ := hexpression (hlexed.of_reaches hfirst) hinner
      rw [bind_eq_ok_iff] at hfactor
      obtain ⟨closing, last, hexpect, hfactor⟩ := hfactor
      obtain ⟨hsecondRest, hclosing, hlast⟩ := expect_eq_ok hexpect
      have hfinal := hsecond.trans hlast
      rw [bind_of_eq_ok (spanFrom_of_reaches (hfirst.trans hfinal) hrest hfinal.suffix)] at hfactor
      obtain ⟨rfl, rfl⟩ := pure_eq_ok_iff.mp hfactor
      rw [hsecondRest] at hinner
      rw [hrest]
      exact ⟨hfirst.trans hfinal, .group hkind hinner hclosing⟩
    all_goals exact absurd hfactor refuse_ne_ok
  | keyword keyword =>
    cases keyword <;> simp only [hkind] at hfactor
    case not => exact sound_unary hnested hlexed hrest hfirst hfactor (.complement hkind)
    case purinto =>
      exact sound_node (sound_argumentsOf hexpression _) hlexed hrest hfirst hfactor (.print hkind)
    case ohayo => exact sound_node sound_prompt hlexed hrest hfirst hfactor (.input hkind)
    case hai =>
      obtain ⟨rfl, rfl⟩ := pure_eq_ok_iff.mp hfactor
      exact ⟨hfirst, hrest ▸ .hai hkind⟩
    case iie =>
      obtain ⟨rfl, rfl⟩ := pure_eq_ok_iff.mp hfactor
      exact ⟨hfirst, hrest ▸ .iie hkind⟩
    all_goals exact absurd hfactor refuse_ne_ok
  | identifier =>
    simp only [hkind] at hfactor
    rw [bind_of_eq_ok (sees_apply _ first)] at hfactor
    split at hfactor
    · exact sound_node (sound_argumentsOf hexpression _) hlexed hrest hfirst hfactor (.call hkind)
    · obtain ⟨rfl, rfl⟩ := pure_eq_ok_iff.mp hfactor
      exact ⟨hfirst, hrest ▸ .name hkind⟩
  | integer =>
    obtain ⟨literal, hliteral⟩ := htoken.integer hkind
    simp only [hkind, hliteral] at hfactor
    obtain ⟨rfl, rfl⟩ := pure_eq_ok_iff.mp hfactor
    exact ⟨hfirst, hrest ▸ .integer hkind hliteral⟩
  | float =>
    obtain ⟨literal, hliteral⟩ := htoken.float hkind
    simp only [hkind, hliteral] at hfactor
    obtain ⟨rfl, rfl⟩ := pure_eq_ok_iff.mp hfactor
    exact ⟨hfirst, hrest ▸ .float hkind hliteral⟩
  | string =>
    obtain ⟨literal, hliteral⟩ := htoken.string hkind
    simp only [hkind, hliteral] at hfactor
    obtain ⟨rfl, rfl⟩ := pure_eq_ok_iff.mp hfactor
    exact ⟨hfirst, hrest ▸ .string hkind hliteral⟩
  | endOfInput =>
    simp only [hkind] at hfactor
    exact absurd hfactor refuse_ne_ok

theorem sound_factor (bound : Nat) : Sound (factor bound) Phrase.factor.Derives := by
  induction bound with
  | zero =>
    intro cursor final value _ hfactor
    exact absurd hfactor unmet_ne_ok
  | succ bound ih =>
    intro cursor final value hlexed hfactor
    rw [factor, bind_eq_ok_iff] at hfactor
    obtain ⟨result, first, htake, hfactor⟩ := hfactor
    obtain ⟨rfl, rfl, _⟩ | ⟨token, _, rfl, hrest, hfound, hfirst⟩ := takeIf_cases htake
    · exact absurd hfactor unmet_ne_ok
    · cases hfound
      exact factorFrom_eq_ok ih hlexed hrest hfirst hfactor

theorem sound_expression : Sound expression Phrase.expression.Derives := by
  intro cursor final value hlexed hexpression
  rw [expression, bind_of_eq_ok (remaining_apply cursor)] at hexpression
  exact sound_expressionOf (sound_factor _) hlexed hexpression

theorem sound_arguments (callee : String) :
    Sound (arguments callee) Phrase.arguments.Derives := by
  intro cursor final args hlexed hargs
  rw [arguments, bind_of_eq_ok (remaining_apply cursor)] at hargs
  exact sound_argumentsOf (sound_expressionOf (sound_factor _)) callee hlexed hargs

end Parser
end KawaiiLang
