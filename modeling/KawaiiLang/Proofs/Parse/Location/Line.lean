import KawaiiLang.Proofs.Parse.Location.Program

namespace KawaiiLang

namespace Line

/-- The nodes of a line of a session: what it evaluates or runs, or else what is in the body of
    the function that it defines, and all that is below. -/
inductive Contains : Line → Node → Prop where
  | definition {function : FunctionDef} {statement : Stmt} (hstatement : statement ∈ function.body) :
      Contains (.definition function) (.statement statement)
  | expression {expression : Expr} : Contains (.expression expression) (.expression expression)
  | statement {body : List Stmt} {statement : Stmt} (hstatement : statement ∈ body) :
      Contains (.statements body) (.statement statement)
  | part {line : Line} {node part : Node} (hnode : Contains line node) (hpart : part ∈ node.parts) :
      Contains line part

/-- The spans of all nodes of a line are as `p` says. -/
def All (p : Span → Prop) : Line → Prop
  | empty => True
  | definition function => Parser.Body p function.body
  | expression value => value.All p
  | statements body => Parser.Body p body

theorem All.node {p : Span → Prop} {line : Line} (hall : line.All p) {node : Node}
    (hnode : line.Contains node) : node.All p := by
  induction hnode with
  | definition hstatement | statement hstatement => exact hall _ hstatement
  | expression => exact hall
  | part _ hpart ih => exact (ih hall).part hpart

end Line

namespace Parser

variable {words : List Token} {stop : Token} {p : Span → Prop}

/-- What is not one expression is not read at all. -/
theorem wholeExpression?_cases (cursor : Cursor) :
    wholeExpression? cursor = .ok none cursor ∨
      ∃ value next, expression cursor = .ok value next ∧
        wholeExpression? cursor = .ok (some value) next := by
  unfold wholeExpression?
  split
  · cases expression cursor with
    | ok value next =>
      dsimp only
      split
      · exact .inr ⟨value, next, rfl, rfl⟩
      · exact .inl rfl
    | error => exact .inl rfl
  · exact .inl rfl

theorem locates_wholeExpression? (hreadable : Readable words p) :
    Locates words stop (fun found => ∀ value ∈ found, value.All p) wholeExpression? := by
  intro cursor hover
  obtain hnone | ⟨value, next, hvalue, hsome⟩ := wholeExpression?_cases cursor
  · rw [hnone]
    exact ⟨nofun, hover⟩
  · have hexpression := locates_expression hreadable cursor hover
    rw [hvalue] at hexpression
    rw [hsome]
    refine ⟨?_, hexpression.2⟩
    rintro _ ⟨⟩
    exact hexpression.1

theorem locates_line (hreadable : Readable words p) : Locates words stop (Line.All p) line := by
  refine locates_get_bind fun finished => .ite (locates_pure trivial) ?_
  refine (locates_accept (.keyword .kawaii)).bind ?_
  intro keyword hkeyword
  cases keyword with
  | some keyword =>
    have hspan := hreadable.span keyword (hkeyword keyword rfl)
    refine (locates_definition hreadable hspan).bind ?_
    intro function hfunction
    exact (locates_finished hreadable .endAfterDefinition trivial).bind fun _ _ => locates_pure hfunction
  | none =>
    refine (locates_wholeExpression? hreadable).bind ?_
    intro found hfound
    cases found with
    | some value => exact locates_pure (hfound value rfl)
    | none =>
      refine (locates_bodyOf (locates_statement hreadable)).bind ?_
      intro body hbody
      exact (locates_finished hreadable .statement trivial).bind fun _ _ => locates_pure hbody

end Parser

namespace Line

variable {words : List Token} {stop : Token} {p : Span → Prop}

-- Words with nothing but an end mark behind them, in spans that stay as `p` says when joined.
variable (hstop : stop.kind = .endOfInput) (hwords : ∀ word ∈ words, word.kind ≠ .endOfInput)
  (hspan : ∀ word ∈ words, p word.span)
  (hthrough : ∀ {first last : Span}, p first → p last → p (first.through last))

include hstop hwords hspan hthrough

theorem locates_ofTokens :
    (∀ line next, Parser.line (.ofTokens (words ++ [stop])) = .ok line next → line.All p) ∧
      ∀ error next, Parser.line (.ofTokens (words ++ [stop])) = .error error next →
        error.Located words stop ∧ error.fault.ArisesAt error.found :=
  Parser.locates_ofTokens hstop hwords ⟨.empty, trivial, rfl⟩ fun hnil =>
    Parser.locates_line ⟨hnil, hspan, hthrough⟩

/-- In a line that is read from words, all spans come from theirs. -/
theorem all_of_ofTokens_eq_ok {line : Line} (hline : ofTokens (words ++ [stop]) = .ok line) :
    line.All p := by
  rw [ofTokens] at hline
  split at hline
  · next hparser =>
    cases hline
    exact (locates_ofTokens hstop hwords hspan hthrough).1 _ _ hparser
  · cases hline

/-- Words that cannot be read as a line are refused at one of them, or just behind the last, with
    a fault that can arise there. -/
theorem located_and_arises_of_ofTokens_eq_error {error : SyntaxError}
    (herror : ofTokens (words ++ [stop]) = .error error) :
    error.Located words stop ∧ error.fault.ArisesAt error.found := by
  rw [ofTokens] at herror
  split at herror
  · cases herror
  · next hparser =>
    cases herror
    exact (locates_ofTokens hstop hwords hspan hthrough).2 _ _ hparser

theorem located_of_ofTokens_eq_error {error : SyntaxError}
    (herror : ofTokens (words ++ [stop]) = .error error) : error.Located words stop :=
  (located_and_arises_of_ofTokens_eq_error hstop hwords hspan hthrough herror).1

end Line
end KawaiiLang
