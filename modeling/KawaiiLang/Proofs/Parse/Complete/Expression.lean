import KawaiiLang.Proofs.Parse.Sound.Expression

namespace KawaiiLang

open Grammar (Phrase Prompt)

namespace Grammar.Phrase

/-- The kinds of tokens behind a phrase that are not read as a part of it. -/
def Ends : Phrase → Token.Kind → Prop
  | expression, kind => Parser.relational kind = none ∧ Parser.additive kind = none ∧
      Parser.multiplicative kind = none ∧ kind ≠ .symbol .leftParen
  | simple, kind => Parser.additive kind = none ∧ Parser.multiplicative kind = none ∧
      kind ≠ .symbol .leftParen
  | term, kind => Parser.multiplicative kind = none ∧ kind ≠ .symbol .leftParen
  | factor, kind => kind ≠ .symbol .leftParen
  | arguments, _ => True
  | items, kind => kind = .symbol .rightParen

/-- The phrase ends in front of `rest`. -/
def EndsAt (phrase : Phrase) (rest : List Token) : Prop :=
  ∀ token ∈ rest.head?, phrase.Ends token.kind

/-- How a phrase is read, with bounds on the nesting of its factors and on the length
    of its outermost chain. -/
def parser (callee : String) (nesting length : Nat) : (phrase : Phrase) → Parser phrase.Tree
  | expression => Parser.chain Parser.relational (Parser.tier Parser.additive
      (Parser.tier Parser.multiplicative (Parser.factor nesting))) length
  | simple => Parser.chain Parser.additive
      (Parser.tier Parser.multiplicative (Parser.factor nesting)) length
  | term => Parser.chain Parser.multiplicative (Parser.factor nesting) length
  | factor => Parser.factor nesting
  | arguments => Parser.argumentsOf (Parser.expressionOf (Parser.factor nesting)) callee
  | items => Parser.commaSeparated (Parser.expressionOf (Parser.factor nesting)) length

theorem EndsAt.of_ends {phrase : Phrase} {token : Token} (hends : phrase.Ends token.kind)
    (rest : List Token) : phrase.EndsAt (token :: rest) := by
  simpa [EndsAt] using hends

theorem simple_ends {token : Token} {op : BinaryOp} (hop : (token.kind, op) ∈ relationalOps) :
    simple.Ends token.kind :=
  (by decide : ∀ pair ∈ relationalOps, Parser.additive pair.1 = none ∧
    Parser.multiplicative pair.1 = none ∧ pair.1 ≠ .symbol .leftParen) _ hop

theorem term_ends {token : Token} {op : BinaryOp} (hop : (token.kind, op) ∈ additiveOps) :
    term.Ends token.kind :=
  (by decide : ∀ pair ∈ additiveOps, Parser.multiplicative pair.1 = none ∧
    pair.1 ≠ .symbol .leftParen) _ hop

theorem factor_ends {token : Token} {op : BinaryOp} (hop : (token.kind, op) ∈ multiplicativeOps) :
    factor.Ends token.kind :=
  (by decide : ∀ pair ∈ multiplicativeOps, pair.1 ≠ .symbol .leftParen) _ hop

theorem expression_ends {token : Token}
    (hkind : token.kind = .symbol .rightParen ∨ token.kind = .symbol .comma) :
    expression.Ends token.kind := by
  obtain hkind | hkind := hkind <;> exact hkind ▸ ⟨rfl, rfl, rfl, nofun⟩

end Grammar.Phrase

namespace Parser

theorem chain_single {operator : Token.Kind → Option BinaryOp} {operand : Parser Expr}
    {cursor final : Cursor} {value : Expr} (bound : Nat)
    (hoperand : operand cursor = .ok value final)
    (hend : ∀ token ∈ final.rest.head?, operator token.kind = none) :
    chain operator operand bound cursor = .ok value final := by
  cases bound with
  | zero => exact hoperand
  | succ bound =>
    rw [chain, bind_of_eq_ok hoperand, bind_of_eq_ok (takeIf_of_eq_none hend)]
    rfl

theorem chain_join {operator : Token.Kind → Option BinaryOp} {operand : Parser Expr}
    {cursor final : Cursor} {token : Token} {input middle : List Token} {op : BinaryOp}
    {left right : Expr} {length : Nat} (hinput : input <:+ cursor.rest)
    (hmiddle : token :: middle <:+ input) (hlength : input.length ≤ length)
    (hoperand : operand (cursor.movedTo input) = .ok left (cursor.movedTo (token :: middle)))
    (hop : operator token.kind = some op)
    (hright : ∀ bound, middle.length ≤ bound →
      chain operator operand bound (cursor.movedTo middle) = .ok right final) :
    chain operator operand length (cursor.movedTo input) =
      .ok (.binary op left right (left.span.through right.span)) final := by
  have hshorter := hmiddle.length_le
  rw [List.length_cons] at hshorter
  cases length with
  | zero => omega
  | succ bound =>
    rw [chain, bind_of_eq_ok hoperand, bind_of_eq_ok (takeIf_movedTo (hmiddle.trans hinput) hop)]
    dsimp only
    rw [bind_of_eq_ok (hright bound (by omega))]
    rfl

theorem prompt_movedTo {cursor : Cursor} {input rest : List Token} {text : Option String}
    (hinput : input <:+ cursor.rest) (hprompt : Prompt input text rest) :
    prompt (cursor.movedTo input) = .ok text (cursor.movedTo rest) := by
  cases hprompt with
  | absent hopening hclosing =>
    have hpast := (List.suffix_cons _ _).trans hinput
    rw [prompt, bind_of_eq_ok (expect_movedTo hinput hopening),
      bind_of_eq_ok (accept_of_kind_ne (by simp [hclosing]))]
    dsimp only
    rw [bind_of_eq_ok (pure_apply _ _), bind_of_eq_ok (expect_movedTo hpast hclosing)]
    rfl
  | @given opening token closing text _ hopening hstring htext hclosing =>
    obtain ⟨kind, lexeme, literal, span, position⟩ := token
    subst htext
    have hfirst := (List.suffix_cons _ _).trans hinput
    have hsecond := (List.suffix_cons _ _).trans hfirst
    rw [prompt, bind_of_eq_ok (expect_movedTo hinput hopening),
      bind_of_eq_ok (accept_movedTo hfirst hstring)]
    dsimp only
    rw [bind_of_eq_ok (pure_apply _ _), bind_of_eq_ok (expect_movedTo hsecond hclosing)]
    rfl

theorem commaSeparated_single {α : Type} {item : Parser α} {cursor final : Cursor} {value : α}
    (bound : Nat) (hitem : item cursor = .ok value final)
    (hend : ∀ token ∈ final.rest.head?, token.kind ≠ .symbol .comma) :
    commaSeparated item bound cursor = .ok [value] final := by
  cases bound with
  | zero =>
    rw [commaSeparated, bind_of_eq_ok hitem]
    rfl
  | succ bound =>
    rw [commaSeparated, bind_of_eq_ok hitem, bind_of_eq_ok (accept_of_kind_ne hend)]
    rfl

theorem commaSeparated_cons {α : Type} {item : Parser α} {cursor final : Cursor} {comma : Token}
    {input middle : List Token} {value : α} {values : List α} {length : Nat}
    (hinput : input <:+ cursor.rest) (hmiddle : comma :: middle <:+ input)
    (hlength : input.length ≤ length)
    (hitem : item (cursor.movedTo input) = .ok value (cursor.movedTo (comma :: middle)))
    (hcomma : comma.kind = .symbol .comma)
    (hothers : ∀ bound, middle.length ≤ bound →
      commaSeparated item bound (cursor.movedTo middle) = .ok values final) :
    commaSeparated item length (cursor.movedTo input) = .ok (value :: values) final := by
  have hshorter := hmiddle.length_le
  rw [List.length_cons] at hshorter
  cases length with
  | zero => omega
  | succ bound =>
    rw [commaSeparated, bind_of_eq_ok hitem,
      bind_of_eq_ok (accept_movedTo (hmiddle.trans hinput) hcomma)]
    dsimp only
    rw [bind_of_eq_ok (hothers bound (by omega))]
    rfl

theorem argumentsOf_movedTo_nothing {expression : Parser Expr} {cursor : Cursor}
    {opening closing : Token} {rest : List Token} (callee : String)
    (hinput : opening :: closing :: rest <:+ cursor.rest)
    (hopening : opening.kind = .symbol .leftParen) (hclosing : closing.kind = .symbol .rightParen) :
    argumentsOf expression callee (cursor.movedTo (opening :: closing :: rest)) =
      .ok [] (cursor.movedTo rest) := by
  have hpast := (List.suffix_cons _ _).trans hinput
  rw [argumentsOf, bind_of_eq_ok (expect_movedTo hinput hopening),
    bind_of_eq_ok (sees_of_kind_eq rfl hclosing), if_pos rfl, bind_of_eq_ok (pure_apply _ _)]
  dsimp only
  rw [bind_of_eq_ok (expect_movedTo hpast hclosing)]
  rfl

theorem argumentsOf_movedTo_items {expression : Parser Expr} {cursor : Cursor}
    {opening closing : Token} {input rest : List Token} {args : List Expr} (callee : String)
    (hinput : opening :: input <:+ cursor.rest) (hopening : opening.kind = .symbol .leftParen)
    (hitems : Phrase.items.Derives input args (closing :: rest))
    (hread : commaSeparated expression input.length (cursor.movedTo input) =
      .ok args (cursor.movedTo (closing :: rest)))
    (hclosing : closing.kind = .symbol .rightParen) :
    argumentsOf expression callee (cursor.movedTo (opening :: input)) =
      .ok args (cursor.movedTo rest) := by
  have hpast := (List.suffix_cons opening input).trans hinput
  -- The first item begins with a token that can start an expression, and a closing
  -- parenthesis cannot.
  have hsees : ∀ token ∈ input.head?, token.kind ≠ .symbol .rightParen := by
    obtain ⟨first, more, rfl, hstart, _⟩ := hitems.exists_cons
    rintro token htoken hkind
    cases htoken
    rw [hkind] at hstart
    cases hstart
  rw [argumentsOf, bind_of_eq_ok (expect_movedTo hinput hopening),
    bind_of_eq_ok (sees_of_kind_ne hsees), if_neg Bool.false_ne_true,
    bind_of_eq_ok (remaining_apply _), Cursor.rest_movedTo, bind_of_eq_ok hread]
  dsimp only
  rw [bind_of_eq_ok (expect_movedTo (hitems.suffix.trans hpast) hclosing)]
  rfl

section

-- A part of an expression whose first token has been read.
variable {nested : Parser Expr} {cursor : Cursor} {token : Token} {input rest : List Token}

theorem factorFrom_movedTo_group {closing : Token} {inner : Expr}
    (hinput : token :: input <:+ cursor.rest) (htoken : token.kind = .symbol .leftParen)
    (hinner : closing :: rest <:+ input)
    (hread : expressionOf nested (cursor.movedTo input) =
      .ok inner (cursor.movedTo (closing :: rest)))
    (hclosing : closing.kind = .symbol .rightParen) :
    factorFrom nested token (cursor.movedTo input) =
      .ok (.group inner (Grammar.spanOf token input rest)) (cursor.movedTo rest) := by
  have hpast := (List.suffix_cons _ _).trans hinput
  rw [factorFrom]
  simp only [htoken]
  rw [bind_of_eq_ok hread, bind_of_eq_ok (expect_movedTo (hinner.trans hpast) hclosing),
    bind_of_eq_ok (spanFrom_movedTo hinput ((List.suffix_cons _ _).trans hinner))]
  rfl

theorem factorFrom_movedTo_call {args : List Expr} (hinput : token :: input <:+ cursor.rest)
    (htoken : token.kind = .identifier) (hargs : Phrase.arguments.Derives input args rest)
    (hread : argumentsOf (expressionOf nested) token.lexeme (cursor.movedTo input) =
      .ok args (cursor.movedTo rest)) :
    factorFrom nested token (cursor.movedTo input) =
      .ok (.call token.lexeme args (Grammar.spanOf token input rest)) (cursor.movedTo rest) := by
  obtain ⟨opening, more, hopen, hopening⟩ := hargs.exists_opening
  rw [factorFrom]
  simp only [htoken]
  rw [bind_of_eq_ok (sees_of_kind_eq hopen hopening), if_pos rfl, bind_of_eq_ok hread,
    bind_of_eq_ok (spanFrom_movedTo hinput hargs.suffix)]
  rfl

theorem factorFrom_movedTo_name (htoken : token.kind = .identifier)
    (hend : Phrase.factor.EndsAt rest) :
    factorFrom nested token (cursor.movedTo rest) =
      .ok (.name token.lexeme token.span) (cursor.movedTo rest) := by
  have hopening : ∀ next ∈ rest.head?, next.kind ≠ .symbol .leftParen := hend
  rw [factorFrom]
  simp only [htoken]
  rw [bind_of_eq_ok (sees_of_kind_ne hopening), if_neg Bool.false_ne_true]
  rfl

/-- A bound that covers all tokens leaves enough for what follows the first token. -/
theorem factor_movedTo {final : Cursor} {value : Expr} {nesting : Nat}
    (hinput : token :: input <:+ cursor.rest) (hnesting : (token :: input).length ≤ nesting)
    (hfrom : ∀ bound, input.length ≤ bound →
      factorFrom (factor bound) token (cursor.movedTo input) = .ok value final) :
    factor nesting (cursor.movedTo (token :: input)) = .ok value final := by
  cases nesting with
  | zero => simp at hnesting
  | succ bound =>
    rw [factor, bind_of_eq_ok (takeIf_movedTo hinput rfl)]
    exact hfrom bound (by simpa using hnesting)

end

/-- Whatever the grammar derives is read, provided that it ends where the derivation
    does. The bounds suffice, as every level of nesting and every link of a chain
    takes a token. -/
theorem parser_movedTo {phrase : Phrase} {input rest : List Token} {tree : phrase.Tree}
    (hphrase : phrase.Derives input tree rest) (hend : phrase.EndsAt rest) (callee : String)
    {nesting length : Nat} {cursor : Cursor} (hinput : input <:+ cursor.rest)
    (hnesting : input.length ≤ nesting) (hlength : input.length ≤ length) :
    phrase.parser callee nesting length (cursor.movedTo input) = .ok tree (cursor.movedTo rest) := by
  induction hphrase generalizing nesting length callee with
  | expression hvalue ih | simple hvalue ih | term hvalue ih =>
    refine chain_single _ (ih ?_ callee hinput hnesting (Nat.le_refl _)) ?_
    · exact fun token htoken => (hend token htoken).2
    · exact fun token htoken => (hend token htoken).1
  | comparison hleft hop hright ihleft ihright =>
    have hpast := (List.suffix_cons _ _).trans hleft.suffix
    have hleftEnd := Phrase.EndsAt.of_ends (Phrase.simple_ends hop)
    refine chain_join hinput hleft.suffix hlength
      (ihleft (hleftEnd _) callee hinput hnesting (Nat.le_refl _)) (relational_eq_some_iff.mpr hop) ?_
    intro bound hbound
    exact ihright hend callee (hpast.trans hinput) (Nat.le_trans hpast.length_le hnesting) hbound
  | sum hleft hop hright ihleft ihright =>
    have hpast := (List.suffix_cons _ _).trans hleft.suffix
    have hleftEnd := Phrase.EndsAt.of_ends (Phrase.term_ends hop)
    refine chain_join hinput hleft.suffix hlength
      (ihleft (hleftEnd _) callee hinput hnesting (Nat.le_refl _)) (additive_eq_some_iff.mpr hop) ?_
    intro bound hbound
    exact ihright hend callee (hpast.trans hinput) (Nat.le_trans hpast.length_le hnesting) hbound
  | product hleft hop hright ihleft ihright =>
    have hpast := (List.suffix_cons _ _).trans hleft.suffix
    have hleftEnd := Phrase.EndsAt.of_ends (Phrase.factor_ends hop)
    refine chain_join hinput hleft.suffix hlength
      (ihleft (hleftEnd _) callee hinput hnesting (Nat.le_refl _)) (multiplicative_eq_some_iff.mpr hop) ?_
    intro bound hbound
    exact ihright hend callee (hpast.trans hinput) (Nat.le_trans hpast.length_le hnesting) hbound
  | negation htoken hoperand ih | complement htoken hoperand ih =>
    refine factor_movedTo hinput hnesting ?_
    intro bound hbound
    have hpast := (List.suffix_cons _ _).trans hinput
    have hread : factor bound _ = _ := ih hend callee hpast hbound hbound
    rw [factorFrom]
    simp only [htoken]
    rw [bind_of_eq_ok hread]
    rfl
  | group htoken hinner hclosing ih =>
    refine factor_movedTo hinput hnesting ?_
    intro bound hbound
    have hpast := (List.suffix_cons _ _).trans hinput
    have hinnerEnd := Phrase.EndsAt.of_ends (Phrase.expression_ends (.inl hclosing))
    exact factorFrom_movedTo_group hinput htoken hinner.suffix
      (ih (hinnerEnd _) callee hpast hbound (Nat.le_refl _)) hclosing
  | call htoken hargs ih =>
    refine factor_movedTo hinput hnesting ?_
    intro bound hbound
    have hpast := (List.suffix_cons _ _).trans hinput
    exact factorFrom_movedTo_call hinput htoken hargs
      (ih (fun _ _ => trivial) _ hpast hbound hbound)
  | print htoken hargs ih =>
    refine factor_movedTo hinput hnesting ?_
    intro bound hbound
    have hpast := (List.suffix_cons _ _).trans hinput
    have hread : argumentsOf (expressionOf (factor bound)) Keyword.purinto.spelling _ = _ :=
      ih (fun _ _ => trivial) Keyword.purinto.spelling hpast hbound hbound
    rw [factorFrom]
    simp only [htoken]
    rw [bind_of_eq_ok hread, bind_of_eq_ok (spanFrom_movedTo hinput hargs.suffix)]
    rfl
  | input htoken htext =>
    refine factor_movedTo hinput hnesting ?_
    intro bound hbound
    have hpast := (List.suffix_cons _ _).trans hinput
    rw [factorFrom]
    simp only [htoken]
    rw [bind_of_eq_ok (prompt_movedTo hpast htext),
      bind_of_eq_ok (spanFrom_movedTo hinput htext.suffix)]
    rfl
  | name htoken =>
    refine factor_movedTo hinput hnesting ?_
    intro bound hbound
    exact factorFrom_movedTo_name htoken hend
  | hai htoken | iie htoken =>
    refine factor_movedTo hinput hnesting ?_
    intro bound hbound
    rw [factorFrom]
    simp only [htoken]
    rfl
  | integer htoken hvalue | float htoken hvalue | string htoken hvalue =>
    refine factor_movedTo hinput hnesting ?_
    intro bound hbound
    rw [factorFrom]
    simp only [htoken, hvalue]
    rfl
  | noArguments hopening hclosing =>
    exact argumentsOf_movedTo_nothing callee hinput hopening hclosing
  | @arguments opening closing input rest args hopening hitems hclosing ih =>
    have hpast := (List.suffix_cons opening input).trans hinput
    have hitemsEnd : Phrase.items.Ends closing.kind := hclosing
    have hread : commaSeparated (expressionOf (factor nesting)) _ _ = _ :=
      ih (.of_ends hitemsEnd _) callee hpast (Nat.le_of_succ_le hnesting) (Nat.le_refl _)
    exact argumentsOf_movedTo_items callee hinput hopening hitems hread hclosing
  | item hvalue ih =>
    have hvalueEnd : Phrase.expression.EndsAt _ :=
      fun token htoken => Phrase.expression_ends (.inl (hend token htoken))
    refine commaSeparated_single length (ih hvalueEnd callee hinput hnesting (Nat.le_refl _)) ?_
    intro token htoken hkind
    have hclosing : token.kind = .symbol .rightParen := hend token htoken
    rw [hkind] at hclosing
    cases hclosing
  | items hvalue hcomma hvalues ihvalue ihvalues =>
    have hpast := (List.suffix_cons _ _).trans hvalue.suffix
    have hvalueEnd := Phrase.EndsAt.of_ends (Phrase.expression_ends (.inr hcomma))
    refine commaSeparated_cons hinput hvalue.suffix hlength
      (ihvalue (hvalueEnd _) callee hinput hnesting (Nat.le_refl _)) hcomma ?_
    intro bound hbound
    exact ihvalues hend callee (hpast.trans hinput) (Nat.le_trans hpast.length_le hnesting) hbound

theorem expression_movedTo {cursor : Cursor} {input rest : List Token} {value : Expr}
    (hinput : input <:+ cursor.rest) (hvalue : Phrase.expression.Derives input value rest)
    (hend : Phrase.expression.EndsAt rest) :
    expression (cursor.movedTo input) = .ok value (cursor.movedTo rest) := by
  rw [expression, bind_of_eq_ok (remaining_apply _)]
  exact parser_movedTo hvalue hend "" hinput (Nat.le_refl _) (Nat.le_refl _)

theorem arguments_movedTo {cursor : Cursor} {input rest : List Token} {args : List Expr}
    (hinput : input <:+ cursor.rest) (hargs : Phrase.arguments.Derives input args rest)
    (callee : String) :
    arguments callee (cursor.movedTo input) = .ok args (cursor.movedTo rest) := by
  rw [arguments, bind_of_eq_ok (remaining_apply _)]
  exact parser_movedTo hargs (fun _ _ => trivial) callee hinput (Nat.le_refl _) (Nat.le_refl _)

end Parser
end KawaiiLang
