import KawaiiLang.Proofs.Parse.Location.Statement
import KawaiiLang.Proofs.Parse.Program

namespace KawaiiLang

namespace Parser

variable {words : List Token} {stop : Token} {p : Span → Prop} (hreadable : Readable words p)

include hreadable

theorem locates_param (function : String) (earlier : List String) :
    Locates words stop (fun _ => True) (param function earlier) := by
  refine (locates_expect hreadable .identifier .param trivial).bind ?_
  intro token htoken
  exact .ite (locates_refuse htoken trivial) (locates_pure trivial)

theorem locates_moreParams (function : String) (bound : Nat) (earlier : List String) :
    Locates words stop (fun _ => True) (moreParams function earlier bound) := by
  induction bound generalizing earlier with
  | zero => exact (locates_param hreadable function earlier).bind fun _ _ => locates_pure trivial
  | succ bound ih =>
    refine (locates_param hreadable function earlier).bind ?_
    intro name _
    refine (locates_accept (.symbol .comma)).bind ?_
    intro comma _
    cases comma with
    | none => exact locates_pure trivial
    | some _ => exact ih (earlier ++ [name])

theorem locates_params (function : String) :
    Locates words stop (fun _ => True) (params function) := by
  refine locates_expect_bind hreadable trivial ?_
  refine locates_get_bind fun closed => ?_
  cases closed with
  | true => exact locates_expect_bind hreadable trivial (locates_pure trivial)
  | false =>
    refine locates_get_bind fun bound => ?_
    refine (locates_moreParams hreadable function bound []).bind ?_
    intro names _
    exact locates_expect_bind hreadable trivial (locates_pure trivial)

theorem locates_functionBody (function : String) :
    Locates words stop (Body p) (functionBody function) := by
  have hstatement : Locates words stop (Stmt.All p) statement := locates_statement hreadable
  refine (locates_accept (.symbol .leftBrace)).bind fun _ _ => .ite ?_ ?_
  · exact locates_blockOf hreadable hstatement
  refine locates_get_bind fun starts => ?_
  cases starts with
  | true =>
    refine (locates_terminated hstatement).bind ?_
    intro first hfirst
    exact locates_pure (List.forall_mem_singleton.mpr hfirst)
  | false => exact locates_unmet hreadable trivial

theorem locates_definition {first : Span} (hfirst : p first) :
    Locates words stop (fun function => Body p function.body) (definition first) := by
  refine (locates_expect hreadable .identifier .functionName trivial).bind ?_
  intro name _
  refine (locates_params hreadable name.lexeme).bind ?_
  intro params _
  refine (locates_accept (.symbol .arrow)).bind ?_
  intro _ _
  refine locates_node hreadable (locates_functionBody hreadable name.lexeme) hfirst ?_
  intro body hbody span _
  exact hbody

theorem locates_definitions (bound : Nat) :
    Locates words stop (fun functions => ∀ function ∈ functions, Body p function.body)
      (definitions bound) := by
  induction bound with
  | zero => exact locates_pure nofun
  | succ bound ih =>
    refine (locates_accept (.keyword .kawaii)).bind ?_
    intro keyword hkeyword
    cases keyword with
    | none => exact locates_pure nofun
    | some keyword =>
      refine (locates_definition hreadable (hreadable.span keyword (hkeyword keyword rfl))).bind ?_
      intro first hfirst
      refine ih.bind ?_
      intro rest hrest
      exact locates_pure (List.forall_mem_cons.mpr ⟨hfirst, hrest⟩)

theorem locates_mainBody : Locates words stop (fun main => Body p main.body) mainBody := by
  have hstatement : Locates words stop (Stmt.All p) statement := locates_statement hreadable
  refine (locates_accept (.symbol .leftBrace)).bind fun _ _ => .ite ?_ ?_
  · refine (locates_blockOf hreadable hstatement).bind ?_
    intro body hbody
    exact locates_pure hbody
  refine locates_get_bind fun starts => ?_
  cases starts with
  | true =>
    refine (locates_terminated hstatement).bind ?_
    intro first hfirst
    exact locates_pure (List.forall_mem_singleton.mpr hfirst)
  | false => exact locates_unmet hreadable trivial

theorem locates_mainEntry : Locates words stop (fun main => Body p main.body) mainEntry := by
  refine locates_expect_bind hreadable trivial (locates_expect_bind hreadable trivial ?_)
  refine locates_expect_bind hreadable trivial (locates_expect_bind hreadable trivial ?_)
  exact locates_mainBody hreadable

theorem locates_finished (expectation : Expectation) (harises : expectation.Arises) :
    Locates words stop (fun _ => True) (finished expectation) :=
  locates_get_bind fun _ => .ite (locates_pure trivial) (locates_unmet hreadable harises)

theorem locates_program : Locates words stop (Program.All p) program := by
  refine locates_get_bind fun finished => .ite (locates_pure .empty) ?_
  refine locates_get_bind fun bound => ?_
  refine (locates_definitions hreadable bound).bind ?_
  intro functions hfunctions
  refine (locates_mainEntry hreadable).bind ?_
  intro main hmain
  refine (locates_finished hreadable .endAfterMain trivial).bind ?_
  intro _ _
  refine locates_pure ⟨hfunctions, ?_⟩
  rintro _ ⟨⟩
  exact hmain

end Parser

/-- A whole text is read from its words, with an end mark behind them. Without a word there is
    nothing that could be wrong. -/
theorem Parser.locates_ofTokens {α : Type} {words : List Token} {stop : Token}
    {result : α → Prop} {parser : Parser α} (hstop : stop.kind = .endOfInput)
    (hwords : ∀ word ∈ words, word.kind ≠ .endOfInput)
    (hempty : ∃ value, result value ∧ parser ⟨none, [], stop⟩ = .ok value ⟨none, [], stop⟩)
    (hlocates : words ≠ [] → Locates words stop result parser) :
    (∀ value next, parser (.ofTokens (words ++ [stop])) = .ok value next → result value) ∧
      ∀ error next, parser (.ofTokens (words ++ [stop])) = .error error next →
        error.Located words stop ∧ error.fault.ArisesAt error.found := by
  rw [Cursor.ofTokens_append hstop hwords]
  by_cases hnil : words = []
  · obtain ⟨found, hfound, hparser⟩ := hempty
    subst hnil
    constructor
    · intro value next hvalue
      cases hparser.symm.trans hvalue
      exact hfound
    · intro error next herror
      cases hparser.symm.trans herror
  · have hread := hlocates hnil _ (.of_words words stop)
    constructor
    · intro value next hparser
      rw [hparser] at hread
      exact hread.1
    · intro error next hparser
      rw [hparser] at hread
      exact hread

namespace Program

variable {words : List Token} {stop : Token} {p : Span → Prop}

section

-- Words with nothing but an end mark behind them, in spans that stay as `p` says when joined.
variable (hstop : stop.kind = .endOfInput) (hwords : ∀ word ∈ words, word.kind ≠ .endOfInput)
  (hspan : ∀ word ∈ words, p word.span)
  (hthrough : ∀ {first last : Span}, p first → p last → p (first.through last))

include hstop hwords hspan hthrough

theorem locates_ofTokens :
    (∀ program next, Parser.program (.ofTokens (words ++ [stop])) = .ok program next →
        program.All p) ∧
      ∀ error next, Parser.program (.ofTokens (words ++ [stop])) = .error error next →
        error.Located words stop ∧ error.fault.ArisesAt error.found :=
  Parser.locates_ofTokens hstop hwords ⟨_, .empty, rfl⟩ fun hnil =>
    Parser.locates_program ⟨hnil, hspan, hthrough⟩

/-- In a program that is read from words, all spans come from theirs. -/
theorem all_of_ofTokens_eq_ok {program : Program}
    (hprogram : ofTokens (words ++ [stop]) = .ok program) : program.All p := by
  rw [ofTokens] at hprogram
  split at hprogram
  · next hparser =>
    cases hprogram
    exact (locates_ofTokens hstop hwords hspan hthrough).1 _ _ hparser
  · cases hprogram

/-- Words that cannot be read as a program are refused at one of them, or just behind the last,
    with a fault that can arise there. -/
theorem located_and_arises_of_ofTokens_eq_error {error : SyntaxError}
    (herror : ofTokens (words ++ [stop]) = .error error) :
    error.Located words stop ∧ error.fault.ArisesAt error.found := by
  rw [ofTokens] at herror
  split at herror
  · cases herror
  · next hparser =>
    cases herror
    exact (locates_ofTokens hstop hwords hspan hthrough).2 _ _ hparser

theorem located_of_ofTokens_eq_error {error : SyntaxError}
    (herror : ofTokens (words ++ [stop]) = .error error) : error.Located words stop :=
  (located_and_arises_of_ofTokens_eq_error hstop hwords hspan hthrough herror).1

end

end Program
end KawaiiLang
