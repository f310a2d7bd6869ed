import KawaiiLang.Proofs.Parse.Location.Cursor

namespace KawaiiLang.Parser

variable {words : List Token} {stop : Token} {p : Span → Prop}
  (hreadable : Readable words p)

/-- Where the parenthesis stands it does not matter what is called. -/
theorem argumentsOf_of_sees (operand : Parser Expr) (callee other : String) {cursor : Cursor}
    (hopened : cursor.rest.head?.any (·.kind = .symbol .leftParen)) :
    argumentsOf operand callee cursor = argumentsOf operand other cursor := by
  cases hrest : cursor.rest with
  | nil => simp [hrest] at hopened
  | cons token rest =>
    have hkind : token.kind = .symbol .leftParen := by simpa [hrest] using hopened
    have hexpect (callee : String) :
        expect (.symbol .leftParen) (.argsOpen callee) cursor =
          .ok token (cursor.movedTo rest) := by
      have hinput : token :: rest <:+ cursor.rest := hrest ▸ List.suffix_refl _
      have hmoved : expect (.symbol .leftParen) (.argsOpen callee)
          (cursor.movedTo (token :: rest)) = .ok token (cursor.movedTo rest) :=
        expect_movedTo hinput hkind
      rwa [← hrest, Cursor.movedTo_rest] at hmoved
    rw [argumentsOf, argumentsOf, bind_of_eq_ok (hexpect callee), bind_of_eq_ok (hexpect other)]

theorem arguments_of_sees (callee other : String) {cursor : Cursor}
    (hopened : cursor.rest.head?.any (·.kind = .symbol .leftParen)) :
    arguments callee cursor = arguments other cursor :=
  argumentsOf_of_sees (expressionOf (factor cursor.rest.length)) callee other hopened

section

variable {operand : Parser Expr} (hoperand : Locates words stop (Expr.All p) operand)

include hoperand

theorem locates_commaSeparated (bound : Nat) :
    Locates words stop (fun args => ∀ arg ∈ args, arg.All p) (commaSeparated operand bound) := by
  induction bound with
  | zero =>
    refine hoperand.bind ?_
    intro first hfirst
    exact locates_pure (List.forall_mem_singleton.mpr hfirst)
  | succ bound ih =>
    refine hoperand.bind ?_
    intro first hfirst
    refine (locates_accept (.symbol .comma)).bind ?_
    intro comma _
    cases comma with
    | none => exact locates_pure (List.forall_mem_singleton.mpr hfirst)
    | some _ =>
      refine ih.bind ?_
      intro rest hrest
      exact locates_pure (List.forall_mem_cons.mpr ⟨hfirst, hrest⟩)

include hreadable

theorem locates_chain (operator : Token.Kind → Option BinaryOp) (bound : Nat) :
    Locates words stop (Expr.All p) (chain operator operand bound) := by
  induction bound with
  | zero => exact hoperand
  | succ bound ih =>
    refine hoperand.bind ?_
    intro left hleft
    refine (locates_takeIf _).bind ?_
    intro found _
    cases found with
    | none => exact locates_pure hleft
    | some op =>
      refine ih.bind ?_
      intro right hright
      refine locates_pure ⟨hreadable.through hleft.span hright.span, ?_⟩
      exact List.forall_mem_cons.mpr ⟨hleft, List.forall_mem_singleton.mpr hright⟩

theorem locates_tier (operator : Token.Kind → Option BinaryOp) :
    Locates words stop (Expr.All p) (tier operator operand) :=
  locates_get_bind (locates_chain hreadable hoperand operator)

theorem locates_expressionOf : Locates words stop (Expr.All p) (expressionOf operand) :=
  locates_tier hreadable (locates_tier hreadable
    (locates_tier hreadable hoperand multiplicative) additive) relational

/-- The arguments of an output, the parenthesis of which may be missing. -/
theorem locates_argumentsOf :
    Locates words stop (fun args => ∀ arg ∈ args, arg.All p)
      (argumentsOf operand Keyword.purinto.spelling) := by
  refine locates_expect_bind hreadable rfl ?_
  refine locates_get_bind fun closed => ?_
  cases closed with
  | true => exact locates_expect_bind hreadable trivial (locates_pure nofun)
  | false =>
    refine locates_get_bind fun bound => ?_
    refine (locates_commaSeparated hoperand bound).bind ?_
    intro args hargs
    exact locates_expect_bind hreadable trivial (locates_pure hargs)

end

include hreadable

theorem locates_prompt : Locates words stop (fun _ => True) prompt := by
  have hclose (text : Option String) :
      Locates words stop (fun _ => True)
        (expect (.symbol .rightParen) .promptClose >>= fun _ => pure text) :=
    locates_expect_bind hreadable trivial (locates_pure trivial)
  refine locates_expect_bind hreadable trivial ?_
  refine (locates_accept .string).bind ?_
  intro found _
  split
  · exact hclose _
  · exact hclose _
  · exact hclose _

theorem locates_factorFrom {nested : Parser Expr}
    (hnested : Locates words stop (Expr.All p) nested) {token : Token} (htoken : token ∈ words) :
    Locates words stop (Expr.All p) (factorFrom nested token) := by
  have hinner := locates_expressionOf hreadable hnested
  have hspan := hreadable.span token htoken
  have hunary (op : UnaryOp) : Locates words stop (Expr.All p)
      (do let operand ← nested; return .unary op operand (token.span.through operand.span)) := by
    refine hnested.bind ?_
    intro operand hoperand
    refine locates_pure ⟨hreadable.through hspan hoperand.span, ?_⟩
    exact List.forall_mem_singleton.mpr hoperand
  unfold factorFrom
  split
  -- An operator in front of its operand.
  · exact hunary .negate
  · exact hunary .not
  -- Parentheses.
  · refine hinner.bind ?_
    intro inner hinner
    refine locates_expect_bind hreadable trivial (locates_spanFrom hreadable hspan ?_)
    intro span hspan
    exact ⟨hspan, List.forall_mem_singleton.mpr hinner⟩
  -- A name, or a call of it.
  · refine locates_sees_bind (fun cursor hopened => bind_congr_of_eq
      (argumentsOf_of_sees _ _ Keyword.purinto.spelling hopened) fun _ _ _ => rfl) ?_
      (locates_pure ⟨hspan, nofun⟩)
    refine locates_node hreadable (locates_argumentsOf hreadable hinner) hspan ?_
    intro args hargs span hspan
    exact ⟨hspan, List.forall_mem_map.mpr hargs⟩
  -- Output and input.
  · refine locates_node hreadable (locates_argumentsOf hreadable hinner) hspan ?_
    intro args hargs span hspan
    exact ⟨hspan, List.forall_mem_map.mpr hargs⟩
  · refine locates_node hreadable (locates_prompt hreadable) hspan ?_
    intro prompt _ span hspan
    exact ⟨hspan, nofun⟩
  -- Constants.
  · exact locates_pure ⟨hspan, nofun⟩
  · exact locates_pure ⟨hspan, nofun⟩
  iterate 3
    · next hkind =>
      split
      · exact locates_pure ⟨hspan, nofun⟩
      · next hliteral =>
        exact locates_refuse htoken (Token.not_literate (by simp [hkind]) hliteral)
  · exact locates_refuse htoken trivial

theorem locates_factor (bound : Nat) : Locates words stop (Expr.All p) (factor bound) := by
  induction bound with
  | zero => exact locates_unmet hreadable trivial
  | succ bound ih =>
    refine locates_takeIf_some.bind ?_
    intro found hfound
    cases found with
    | none => exact locates_unmet hreadable trivial
    | some token => exact locates_factorFrom hreadable ih (hfound token rfl)

theorem locates_expression : Locates words stop (Expr.All p) expression :=
  locates_get_bind fun bound => locates_expressionOf hreadable (locates_factor hreadable bound)

theorem locates_arguments :
    Locates words stop (fun args => ∀ arg ∈ args, arg.All p)
      (arguments Keyword.purinto.spelling) :=
  locates_get_bind fun bound =>
    locates_argumentsOf hreadable (locates_expressionOf hreadable (locates_factor hreadable bound))

end KawaiiLang.Parser
