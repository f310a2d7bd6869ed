import Mathlib.Data.List.Infix
import KawaiiLang.Proofs.Parse.Location.Line
import KawaiiLang.Proofs.Parse.Source
import KawaiiLang.Proofs.Token.Position

namespace KawaiiLang

section

variable {word before behind text : List Char}

theorem mentions_iff_isInfix : mentions word text = true ↔ word <:+: text := by
  induction text with
  | nil => simp [mentions]
  | cons c text ih =>
    rw [mentions, Bool.or_eq_true, List.isPrefixOf_iff_prefix, ih, List.infix_cons_iff]

/-- A word does not reach across a character that is not in it. -/
theorem infix_append_cons_iff {c : Char} (hc : c ∉ word) :
    word <:+: before ++ c :: behind ↔ word <:+: before ∨ word <:+: behind := by
  have hnil {part : List Char} (hpart : part ⊆ word) (hbegins : part <+: c :: behind) :
      part = [] := by
    obtain hnil | ⟨rest, rfl, _⟩ := List.prefix_cons_iff.mp hbegins
    · exact hnil
    · exact absurd (hpart List.mem_cons_self) hc
  rw [List.infix_append_iff, List.infix_cons_iff]
  constructor
  · rintro (hbefore | (hbegins | hbehind) | ⟨first, second, rfl, hfirst, hsecond⟩)
    · exact .inl hbefore
    · exact .inl (hnil (List.Subset.refl word) hbegins ▸ List.nil_infix)
    · exact .inr hbehind
    · have hempty := hnil (List.subset_append_right first second) hsecond
      rw [hempty, List.append_nil]
      exact .inl hfirst.isInfix
  · rintro (hbefore | hbehind)
    · exact .inl hbefore
    · exact .inr (.inl (.inr hbehind))

end

namespace Expectation

/-- The word "found" that stands in a text with a quoted name in it, but not around the name,
    stands in the name. -/
theorem infix_of_infix_quoted {before name behind : String}
    (hlast : before.toList.getLast? = some '\'') (hhead : behind.toList.head? = some '\'')
    (hbefore : mentions "found".toList before.toList = false)
    (hbehind : mentions "found".toList behind.toList = false)
    (hfound : "found".toList <:+: (before ++ name ++ behind).toList) :
    "found".toList <:+: name.toList := by
  rw [← Bool.not_eq_true, mentions_iff_isInfix] at hbefore hbehind
  obtain ⟨first, hfirst⟩ := List.getLast?_eq_some_iff.mp hlast
  obtain ⟨last, hlast⟩ := List.head?_eq_some_iff.mp hhead
  rw [String.toList_append, String.toList_append, hfirst, hlast, List.append_assoc,
    List.append_assoc, List.singleton_append, infix_append_cons_iff (by decide),
    infix_append_cons_iff (by decide)] at hfound
  obtain hinfirst | hname | hinlast := hfound
  · exact absurd (hinfirst.trans (List.prefix_append first _).isInfix) (hfirst ▸ hbefore)
  · exact hname
  · exact absurd (hinlast.trans (List.suffix_cons _ last).isInfix) (hlast ▸ hbehind)

theorem not_infix_spelling (keyword : Keyword) : ¬ "found".toList <:+: keyword.spelling.toList := by
  rw [← mentions_iff_isInfix]
  cases keyword <;> decide

/-- Where an expectation is unmet, its wording has the word only if it completes itself, or if it
    takes the word from the name of a function. -/
theorem eq_of_infix_wording {found : Token} {expectation : Expectation}
    (harises : expectation.Arises)
    (hfound : "found".toList <:+: (expectation.wording found).toList) :
    (∃ function, expectation = functionBody function ∧ "found".toList <:+: function.toList) ∨
      ∃ name, expectation = nameUse name := by
  cases expectation
  case functionBody function =>
    have hname := infix_of_infix_quoted (by decide) (by decide) (by decide) (by decide) hfound
    exact .inl ⟨function, rfl, hname⟩
  case nameUse name => exact .inr ⟨name, rfl⟩
  case argsOpen callee =>
    cases harises
    have hname := infix_of_infix_quoted (by decide) (by decide) (by decide) (by decide) hfound
    exact absurd hname (not_infix_spelling .purinto)
  case conditionOpen keyword | conditionClose keyword | branchOpen keyword =>
    have hname := infix_of_infix_quoted (by decide) (by decide) (by decide) (by decide) hfound
    exact absurd hname (not_infix_spelling keyword)
  all_goals
    rw [← mentions_iff_isInfix] at hfound
    dsimp only [wording] at hfound
    exact absurd hfound (by decide)

end Expectation

/-- What ends with the word in front of a token ends with the word and the token. -/
theorem exists_said {wording : String} (hword : "found ".toList <:+ wording.toList)
    (token : String) : ∃ said, wording ++ token = said ++ "found " ++ token := by
  obtain ⟨said, hsaid⟩ := hword
  refine ⟨String.ofList said, congrArg (· ++ token) (String.toList_inj.mp ?_)⟩
  rw [String.toList_append, String.toList_ofList, hsaid]

theorem suffix_of_eq_append {message said token : String}
    (hmessage : message = said ++ "found " ++ token) :
    ("found " ++ token).toList <:+ message.toList := by
  refine ⟨said.toList, ?_⟩
  rw [hmessage, ← String.toList_append, String.append_assoc]

theorem SyntaxFault.message_expected (found : Token) (expectation : Expectation) :
    (expected expectation).message found =
      if mentions "found".toList (expectation.wording found).toList then expectation.wording found
      else s!"{expectation.wording found}, found {found.describe}" :=
  rfl

/-- The ways in which a fault is worded. -/
theorem SyntaxFault.message_cases {found : Token} {fault : SyntaxFault}
    (hliterate : found.Literate) (harises : fault.ArisesAt found) :
    (∃ name function, fault = .duplicateParam name function) ∨
      (∃ said, fault.message found = said ++ "found " ++ found.describe) ∨
        ∃ function : String, "found".toList <:+: function.toList ∧
          fault.message found = s!"Expected '\x7b' before body of function '{function}'" := by
  cases fault with
  | duplicateParam name function => exact .inl ⟨name, function, rfl⟩
  | malformedLiteral => exact absurd hliterate harises
  | noExpression =>
    have hword : "found ".toList <:+ "Expected expression, found ".toList := by decide
    exact .inr (.inl (exists_said hword found.describe))
  | expected expectation =>
    have hsuffix (before : String) {behind : String} (hbehind : "found ".toList <:+ behind.toList) :
        "found ".toList <:+ (before ++ behind).toList := by
      rw [String.toList_append]
      exact hbehind.trans (List.suffix_append _ _)
    refine .inr ?_
    rw [message_expected]
    split
    · next hmentions =>
      obtain ⟨function, rfl, hname⟩ | ⟨name, rfl⟩ :=
        Expectation.eq_of_infix_wording harises (mentions_iff_isInfix.mp hmentions)
      · exact .inr ⟨function, hname, rfl⟩
      · exact .inl (exists_said (hsuffix _ (by decide)) found.describe)
    · exact .inl (exists_said (hsuffix _ (by decide)) found.describe)

/-- A syntax error of tokens as they come out of a text is about one of them, with a fault that can
    arise there. -/
theorem Token.AsLexed.arises {tokens : List Token} (htokens : Token.AsLexed tokens)
    {error : SyntaxError}
    (herror : Program.ofTokens tokens = .error error ∨ Line.ofTokens tokens = .error error) :
    error.found ∈ tokens ∧ error.fault.ArisesAt error.found := by
  obtain ⟨words, stop, rfl, hstop, hwords⟩ := htokens.ends
  obtain ⟨hlocated, harises⟩ : error.Located words stop ∧ error.fault.ArisesAt error.found := by
    obtain hprogram | hline := herror
    · exact Program.located_and_arises_of_ofTokens_eq_error hstop hwords
        (p := fun _ => True) (fun _ _ => trivial) (fun _ _ => trivial) hprogram
    · exact Line.located_and_arises_of_ofTokens_eq_error hstop hwords
        (p := fun _ => True) (fun _ _ => trivial) (fun _ _ => trivial) hline
  refine ⟨?_, harises⟩
  cases hlocated with
  | atWord hword => exact List.mem_append_left _ hword
  | atEnd => exact List.mem_append_right _ List.mem_cons_self

namespace SyntaxError

/-- A syntax error is shown at one token, and its message ends with that token, unless a parameter
    is there twice, or the body is missing of a function whose name has the word "found" in it. -/
theorem names_token {source : String} {tokens : List Token}
    (htokens : Token.ofSource source = .ok tokens) {error : SyntaxError}
    (herror : Program.ofTokens tokens = .error error ∨ Line.ofTokens tokens = .error error)
    (hparam : ∀ name function, error.fault ≠ .duplicateParam name function) :
    ∃ token ∈ tokens,
      (∀ other ∈ tokens, error.toDiagnostic.position = some other.position ↔ other = token) ∧
      ((∃ said, error.toDiagnostic.message = said ++ "found " ++ token.describe) ∨
        ∃ function : String, "found".toList <:+: function.toList ∧
          error.toDiagnostic.message =
            s!"Expected '\x7b' before body of function '{function}'") := by
  have hlexed := Token.asLexed_of_ofSource htokens
  obtain ⟨hfound, harises⟩ := hlexed.arises herror
  refine ⟨error.found, hfound, ?_, ?_⟩
  · intro other hother
    constructor
    · intro hposition
      have hposition : error.found.position = other.position := Option.some.inj hposition
      exact Token.eq_of_position_eq htokens hother hfound hposition.symm
    · rintro rfl
      rfl
  · obtain ⟨name, function, hduplicate⟩ | hmessage :=
      SyntaxFault.message_cases (hlexed.literate _ hfound) harises
    · exact absurd hduplicate (hparam name function)
    · exact hmessage

/-- A function without a body. -/
def lostFunction : String :=
  "kawaii lost()"

/-- The end mark is named where the body is missing. -/
theorem names_token_lostFunction :
    ∃ tokens error, Token.ofSource lostFunction = .ok tokens ∧
      Program.ofTokens tokens = .error error ∧
      error.toDiagnostic.message =
        "Expected '\x7b' before body of function 'lost', found end of input" ∧
      ∃ token ∈ tokens,
        (∀ other ∈ tokens, error.toDiagnostic.position = some other.position ↔ other = token) ∧
        ((∃ said, error.toDiagnostic.message = said ++ "found " ++ token.describe) ∨
          ∃ function : String, "found".toList <:+: function.toList ∧
            error.toDiagnostic.message =
              s!"Expected '\x7b' before body of function '{function}'") := by
  have htokens : (Token.ofSource lostFunction).toOption = some
      [⟨.keyword .kawaii, "kawaii", none, ⟨0, 6⟩, ⟨1, 1⟩⟩,
        ⟨.identifier, "lost", none, ⟨7, 11⟩, ⟨1, 8⟩⟩,
        ⟨.symbol .leftParen, "(", none, ⟨11, 12⟩, ⟨1, 12⟩⟩,
        ⟨.symbol .rightParen, ")", none, ⟨12, 13⟩, ⟨1, 13⟩⟩,
        ⟨.endOfInput, "", none, ⟨13, 14⟩, ⟨1, 14⟩⟩] := by decide +kernel
  cases hresult : Token.ofSource lostFunction with
  | error error =>
    rw [hresult] at htokens
    cases htokens
  | ok tokens =>
    rw [hresult] at htokens
    cases htokens
    refine ⟨_, ⟨.expected (.functionBody "lost"), ⟨.endOfInput, "", none, ⟨13, 14⟩, ⟨1, 14⟩⟩,
      ⟨13, 14⟩⟩, rfl, by cbv, by decide, ?_⟩
    exact names_token hresult (.inl (by cbv)) (by rintro _ _ ⟨⟩)

/-- A function without a body, with a name that has the word in it. -/
def foundFunction : String :=
  "kawaii found()"

/-- Nothing is named where the body is missing. -/
theorem not_names_token_foundFunction :
    ∃ tokens error, Token.ofSource foundFunction = .ok tokens ∧
      Program.ofTokens tokens = .error error ∧ Line.ofTokens tokens = .error error ∧
      error.fault = .expected (.functionBody "found") ∧
      ∀ token ∈ tokens, error.toDiagnostic.position = some token.position →
        ∀ said, error.toDiagnostic.message ≠ said ++ "found " ++ token.describe := by
  have htokens : (Token.ofSource foundFunction).toOption = some
      [⟨.keyword .kawaii, "kawaii", none, ⟨0, 6⟩, ⟨1, 1⟩⟩,
        ⟨.identifier, "found", none, ⟨7, 12⟩, ⟨1, 8⟩⟩,
        ⟨.symbol .leftParen, "(", none, ⟨12, 13⟩, ⟨1, 13⟩⟩,
        ⟨.symbol .rightParen, ")", none, ⟨13, 14⟩, ⟨1, 14⟩⟩,
        ⟨.endOfInput, "", none, ⟨14, 15⟩, ⟨1, 15⟩⟩] := by decide +kernel
  cases hresult : Token.ofSource foundFunction with
  | error error =>
    rw [hresult] at htokens
    cases htokens
  | ok tokens =>
    rw [hresult] at htokens
    cases htokens
    refine ⟨_, ⟨.expected (.functionBody "found"), ⟨.endOfInput, "", none, ⟨14, 15⟩, ⟨1, 15⟩⟩,
      ⟨14, 15⟩⟩, rfl, by cbv, by cbv, rfl, ?_⟩
    intro token htoken hposition said hmessage
    refine absurd (suffix_of_eq_append hmessage) ?_
    clear hmessage
    revert token
    decide

end SyntaxError
end KawaiiLang
