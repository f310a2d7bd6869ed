import Mathlib.Data.Fintype.EquivFin
import KawaiiLang.Proofs.Parse.Complete.Program
import KawaiiLang.Proofs.Parse.Viable.Statement

namespace KawaiiLang

open Grammar (Clause)

namespace Grammar

/-- One or more names, none of which repeats another one or an earlier one. -/
def Named (earlier : List String) : Reading :=
  fun input rest => ∃ names, Names input names rest ∧ (earlier ++ names).Nodup

/-- What a function or the main entry runs, with something behind it that is no part of it. -/
def Entered : Reading :=
  fun input rest => EntryEndsAt rest → ∃ entry, Entry input entry rest

theorem EntryEndsAt.not_takesValue {rest : List Token} (hrest : EntryEndsAt rest) :
    ¬ TakesValue rest := by
  intro htakes
  obtain ⟨token, more, rfl, hstart, _⟩ := htakes
  rw [startsExpression_iff] at hstart
  obtain hkind | hkind := hrest token rfl
  all_goals
    rw [hkind] at hstart
    cases hstart

/-- One statement with or without a semicolon can be run. -/
theorem Terminated.entered {input rest : List Token} (hstatement : Terminated input rest) :
    Entered input rest := by
  intro hend
  obtain hstatement | ⟨semicolon, hsemicolon, hstatement⟩ := hstatement
  · obtain ⟨first, hfirst⟩ | ⟨token, rfl, htoken⟩ := hstatement hend.statement
    · exact ⟨_, .plain hfirst⟩
    · exact ⟨_, .plain (.returnNothing htoken hend.not_takesValue)⟩
  · obtain ⟨first, hfirst⟩ | ⟨token, rfl, htoken⟩ := hstatement (.of_semicolon hsemicolon _)
    · exact ⟨_, .terminated hfirst hsemicolon⟩
    · have hquiet := not_takesValue_of_semicolon rest hsemicolon
      exact ⟨_, .terminated (.returnNothing htoken hquiet) hsemicolon⟩

/-- Definitions, with something behind them that is no part of the last one. -/
def Defined : Reading :=
  fun input rest => EntryEndsAt rest → ∃ functions, Definitions input functions rest

/-- The main entry. -/
def Main : Reading :=
  fun input rest => EntryEndsAt rest → ∃ token opening closing arrow middle entry,
    input = token :: opening :: closing :: arrow :: middle ∧ token.kind = .keyword .uWuNyaa ∧
      opening.kind = .symbol .leftParen ∧ closing.kind = .symbol .rightParen ∧
      arrow.kind = .symbol .arrow ∧ Entry middle entry rest

/-- With nothing behind them, the tokens are a program. -/
def Wholly : Reading :=
  fun input rest => rest = [] → ∃ result, Whole input result

theorem Defined.cons {keyword : Token} {input middle rest : List Token}
    (hfirst : EntryEndsAt middle → ∃ function, Definition (keyword :: input) function middle)
    (hothers : Defined middle rest) : Defined (keyword :: input) rest := by
  intro hend
  obtain ⟨others, hothers⟩ := hothers hend
  have hmiddle : EntryEndsAt middle := by
    cases hothers with
    | none => exact hend
    | more hdefinition =>
      obtain ⟨token, more, rfl, htoken, _⟩ := hdefinition.exists_start
      rintro _ ⟨⟩
      exact .inl htoken
  obtain ⟨function, hfunction⟩ := hfirst hmiddle
  exact ⟨_, .more hfunction hothers⟩

end Grammar

namespace Parser

open Grammar (Named Entered Defined Main)

section

variable {function : String} {earlier : List String}

theorem nodup_concat_name {name : String} (hearlier : earlier.Nodup) (hname : name ∉ earlier) :
    (earlier ++ [name]).Nodup := by
  rw [← List.concat_eq_append]
  exact hearlier.concat hname

theorem Named.last {token : Token} (htoken : token.kind = .identifier)
    (hknown : (earlier ++ [token.lexeme]).Nodup) (rest : List Token) :
    Named earlier (token :: rest) rest :=
  ⟨_, .last htoken, hknown⟩

theorem opens_named (hearlier : earlier.Nodup) : (Named earlier).Opens [] := by
  obtain ⟨name, hname⟩ := Infinite.exists_notMem_finset earlier.toFinset
  rw [List.mem_toFinset] at hname
  let token : Token := { Token.sample .identifier with lexeme := name }
  have hproper : token.Proper := ⟨nofun, nofun, nofun, nofun⟩
  have hknown : (earlier ++ [token.lexeme]).Nodup := nodup_concat_name hearlier hname
  exact .cons hproper (Reading.Word.opens (Named.last rfl hknown))

/-- A name that is not refused, and what is read behind it. -/
theorem spells_param_bind {β : Type} {next : String → Parser β} (hearlier : earlier.Nodup)
    (hnext : ∀ token : Token, token.kind = .identifier → (earlier ++ [token.lexeme]).Nodup →
      Spells ((Named earlier).past token) (next token.lexeme)) :
    Spells (Named earlier) (param function earlier >>= next) := by
  rw [param, bind_assoc]
  refine spells_expect_bind_of_opens (opens_named hearlier) fun token htoken => ?_
  by_cases hrepeated : earlier.contains token.lexeme = true
  · rw [if_pos hrepeated]
    exact .inr ⟨.duplicateParam token.lexeme function, by simp, rfl⟩
  · rw [if_neg hrepeated, pure_bind]
    refine .inl (hnext token htoken (nodup_concat_name hearlier ?_))
    exact fun hmem => hrepeated (List.contains_iff_mem.mpr hmem)

theorem spells_moreParams (hearlier : earlier.Nodup) (bound : Nat) :
    Spells (Named earlier) (moreParams function earlier bound) := by
  induction bound generalizing earlier with
  | zero =>
    refine spells_param_bind hearlier fun token htoken hknown => spells_pure ?_
    exact Named.last htoken hknown
  | succ bound ih =>
    refine spells_param_bind hearlier fun token htoken hknown => ?_
    refine spells_accept_bind (spells_pure (Named.last htoken hknown)) fun comma _ hcomma => ?_
    refine (ih hknown).mono ?_
    rintro input rest ⟨others, hothers, hdistinct⟩
    refine ⟨_, .more htoken hcomma hothers, ?_⟩
    rwa [List.append_assoc] at hdistinct

end

theorem spells_params (function : String) :
    Spells (fun input rest => ∃ names, Grammar.Params input names rest ∧ names.Nodup)
      (params function) := by
  refine spells_expect_bind nofun fun opening hopening => ?_
  refine spells_look_bind fun closed => ?_
  cases closed with
  | true =>
    refine spells_expect_bind nofun fun closing hclosing => spells_pure ?_
    exact fun rest => ⟨_, .none hopening hclosing, List.nodup_nil⟩
  | false =>
    refine spells_look_bind fun bound => ?_
    refine (spells_moreParams List.nodup_nil bound).bind fun names => ?_
    refine spells_expect_bind nofun fun closing hclosing => spells_pure ?_
    rintro rest input ⟨names, hnames, hdistinct⟩
    exact ⟨_, .some hopening hnames hclosing, hdistinct⟩

theorem opens_entered : Entered.Opens [] :=
  Reading.opens_sample (.keyword .pasu) nofun fun _ _ => ⟨_, .plain (.pass rfl)⟩

/-- A single statement, once it is clear that there is one. -/
theorem spellsAt_single {α : Type} {node : Stmt → α} {cursor : Cursor} (hlexed : cursor.Lexed)
    (hstarts : cursor.current.kind.startsStatement = true) :
    SpellsAt Entered (do return node (← terminated statement)) cursor := by
  refine (spellsAt_terminated spells_statement hlexed hstarts).bind hlexed fun first => ?_
  exact spells_pure fun rest input hinput => hinput.entered

theorem spells_functionBody (function : String) : Spells Entered (functionBody function) := by
  refine spells_accept_bind ?_ fun opening _ hopening => ?_
  · refine spells_seesStatement_bind ?_ (spells_unmet opens_entered _)
    exact fun cursor hlexed hstarts => spellsAt_single hlexed hstarts
  · refine (spells_blockOf spells_statement hopening).mono ?_
    rintro input rest ⟨body, hbody⟩ _
    exact ⟨_, .block hbody⟩

theorem spells_mainBody : Spells Entered mainBody := by
  refine spells_accept_bind ?_ fun opening _ hopening => ?_
  · refine spells_seesStatement_bind ?_ (spells_unmet opens_entered _)
    exact fun cursor hlexed hstarts => spellsAt_single hlexed hstarts
  · refine (spells_blockOf spells_statement hopening).bind fun body => spells_pure ?_
    rintro rest input ⟨body, hbody⟩ _
    exact ⟨_, .block hbody⟩

theorem spells_definition {keyword : Token} {first : Span}
    (hkeyword : keyword.kind = .keyword .kawaii) :
    Spells (fun input rest => Grammar.EntryEndsAt rest →
      ∃ function, Grammar.Definition (keyword :: input) function rest) (definition first) := by
  refine spells_expect_bind nofun fun name hname => ?_
  refine (spells_params name.lexeme).bind fun params => ?_
  refine spells_accept_bind ?_ fun arrow _ harrow => ?_
  · refine (spells_functionBody name.lexeme).node ?_
    rintro middle rest hentry input ⟨names, hnames, hdistinct⟩ hend
    obtain ⟨entry, hentry⟩ := hentry hend
    exact ⟨_, .plain hkeyword hname hnames hdistinct hentry⟩
  · refine (spells_functionBody name.lexeme).node ?_
    rintro middle rest hentry input ⟨names, hnames, hdistinct⟩ hend
    obtain ⟨entry, hentry⟩ := hentry hend
    exact ⟨_, .arrow hkeyword hname hnames harrow hdistinct hentry⟩

theorem spells_definitions (bound : Nat) : Spells Defined (definitions bound) := by
  have hnone {functions : List FunctionDef} : Spells Defined (pure functions) :=
    spells_pure fun rest _ => ⟨_, .none⟩
  induction bound with
  | zero => exact hnone
  | succ bound ih =>
    refine spells_accept_bind hnone fun keyword _ hkeyword => ?_
    refine (spells_definition hkeyword).bind fun function => ?_
    refine Spells.bind ih fun others => spells_pure ?_
    intro rest middle hothers input hfirst
    exact hothers.cons hfirst

theorem spells_mainEntry : Spells Main mainEntry := by
  refine spells_expect_bind nofun fun token htoken => ?_
  refine spells_expect_bind nofun fun opening hopening => ?_
  refine spells_expect_bind nofun fun closing hclosing => ?_
  refine spells_expect_bind nofun fun arrow harrow => ?_
  refine spells_mainBody.mono ?_
  intro input rest hentry hend
  obtain ⟨entry, hentry⟩ := hentry hend
  exact ⟨token, opening, closing, arrow, input, entry, rfl, htoken, hopening, hclosing, harrow,
    hentry⟩

/-- The tokens in front of a syntax error are the beginning of some program. -/
theorem spells_program : Spells Grammar.Wholly program := by
  refine spells_look_bind fun ended => .ite ?_ ?_
  · refine spells_pure ?_
    rintro _ rfl
    exact ⟨_, .empty⟩
  refine spells_look_bind fun bound => ?_
  refine (spells_definitions bound).bind fun functions => ?_
  refine spells_mainEntry.bind fun entry => ?_
  have hfinished : Spells (fun input rest => input = rest) (finished .endAfterMain) := by
    have hend : Reading.Opens (fun input rest => input = rest) [] := Reading.Word.opens fun _ => rfl
    exact spells_look_bind fun ended => .ite (spells_pure fun _ => rfl) (spells_unmet hend _)
  refine hfinished.bind fun _ => spells_pure ?_
  rintro rest _ rfl middle hmain input hfunctions rfl
  obtain ⟨token, opening, closing, arrow, inside, entry, rfl, htoken, hopening, hclosing, harrow,
    hentry⟩ := hmain .nil
  obtain ⟨functions, hfunctions⟩ := hfunctions fun next hnext => by
    cases hnext
    exact .inr htoken
  exact ⟨_, .main hfunctions htoken hopening hclosing harrow hentry⟩

end Parser
end KawaiiLang
