import KawaiiLang.Proofs.Grammar.Program
import KawaiiLang.Proofs.Parse.Complete.Statement
import KawaiiLang.Proofs.Parse.Sound.Program

namespace KawaiiLang

open Grammar (Clause)

namespace Grammar

theorem Names.suffix {input rest : List Token} {names : List String}
    (hnames : Names input names rest) : rest <:+ input := by
  induction hnames with
  | last => exact List.suffix_cons _ _
  | more _ _ _ ih => exact ih.trans ((List.suffix_cons _ _).trans (List.suffix_cons _ _))

theorem Names.exists_start {input rest : List Token} {names : List String}
    (hnames : Names input names rest) :
    ∃ token more, input = token :: more ∧ token.kind = .identifier := by
  cases hnames with
  | last htoken | more htoken => exact ⟨_, _, rfl, htoken⟩

theorem Params.suffix {input rest : List Token} {names : List String}
    (hparams : Params input names rest) : rest <:+ input := by
  cases hparams with
  | none => exact (List.suffix_cons _ _).trans (List.suffix_cons _ _)
  | some _ hnames =>
    exact ((List.suffix_cons _ _).trans hnames.suffix).trans (List.suffix_cons _ _)

theorem Entry.suffix {input rest : List Token} {entry : MainEntry}
    (hentry : Entry input entry rest) : rest <:+ input := by
  cases hentry with
  | block hblock => exact hblock.suffix
  | plain hstatement => exact hstatement.suffix
  | terminated hstatement => exact (List.suffix_cons _ _).trans hstatement.suffix

/-- What a function or the main entry runs begins with a brace or with a statement. -/
theorem Entry.exists_start {input rest : List Token} {entry : MainEntry}
    (hentry : Entry input entry rest) :
    ∃ token more, input = token :: more ∧
      (token.kind = .symbol .leftBrace ∨ token.kind.startsStatement = true) := by
  cases hentry with
  | block hblock =>
    cases hblock with
    | block hopening => exact ⟨_, _, rfl, .inl hopening⟩
  | plain hstatement | terminated hstatement =>
    obtain ⟨token, more, rfl, hstart, _⟩ := hstatement.exists_start
    exact ⟨token, more, rfl, .inr hstart⟩

theorem Definition.exists_start {input rest : List Token} {function : FunctionDef}
    (hdefinition : Definition input function rest) :
    ∃ token more, input = token :: more ∧ token.kind = .keyword .kawaii ∧ rest <:+ more := by
  cases hdefinition with
  | plain htoken _ hparams _ hentry =>
    have hrest := hentry.suffix.trans hparams.suffix
    exact ⟨_, _, rfl, htoken, hrest.trans (List.suffix_cons _ _)⟩
  | arrow htoken _ hparams _ _ hentry =>
    have hrest := hentry.suffix.trans ((List.suffix_cons _ _).trans hparams.suffix)
    exact ⟨_, _, rfl, htoken, hrest.trans (List.suffix_cons _ _)⟩

theorem Definitions.suffix {input rest : List Token} {functions : List FunctionDef}
    (hdefinitions : Definitions input functions rest) : rest <:+ input := by
  induction hdefinitions with
  | none => exact List.suffix_refl _
  | more hfirst _ ih =>
    obtain ⟨token, more, rfl, _, hmiddle⟩ := hfirst.exists_start
    exact (ih.trans hmiddle).trans (List.suffix_cons _ _)

/-- Behind an entry stands a definition, the main entry or nothing. -/
def EntryEndsAt (rest : List Token) : Prop :=
  ∀ token ∈ rest.head?, token.kind = .keyword .kawaii ∨ token.kind = .keyword .uWuNyaa

theorem EntryEndsAt.nil : EntryEndsAt [] :=
  nofun

theorem EntryEndsAt.statement {rest : List Token} (hrest : EntryEndsAt rest) :
    Clause.statement.EndsAt rest := by
  intro token htoken
  obtain hkind | hkind := hrest token htoken
  · exact .inr (.inr (.inl hkind))
  · exact .inr (.inr (.inr (.inl hkind)))

theorem EntryEndsAt.not_semicolon {rest : List Token} (hrest : EntryEndsAt rest) :
    ∀ token ∈ rest.head?, token.kind ≠ .symbol .semicolon := by
  intro token htoken hkind
  have hnone := hrest token htoken
  simp [hkind] at hnone

theorem EntryEndsAt.of_main {token : Token} (htoken : token.kind = .keyword .uWuNyaa)
    (rest : List Token) : EntryEndsAt (token :: rest) := by
  rintro _ ⟨⟩
  exact .inr htoken

/-- An entry may end in front of definitions. -/
theorem Definitions.endsAt {input rest : List Token} {functions : List FunctionDef}
    (hfunctions : Definitions input functions rest) (hrest : EntryEndsAt rest) :
    EntryEndsAt input := by
  cases hfunctions with
  | none => exact hrest
  | more hfirst =>
    obtain ⟨token, more, rfl, htoken, _⟩ := hfirst.exists_start
    rintro _ ⟨⟩
    exact .inl htoken

theorem Clause.Derives.not_brace {input rest : List Token} {result : Stmt}
    (hstatement : Clause.statement.Derives input result rest) :
    ∀ token ∈ input.head?, token.kind ≠ .symbol .leftBrace := by
  obtain ⟨token, more, rfl, hstart, _⟩ := hstatement.exists_start
  rintro _ htoken hkind
  cases htoken
  rw [hkind] at hstart
  cases hstart

end Grammar

namespace Parser

variable {cursor : Cursor}

theorem param_movedTo {function : String} {earlier : List String} {token : Token}
    {rest : List Token} (hinput : token :: rest <:+ cursor.rest)
    (htoken : token.kind = .identifier) (hnew : token.lexeme ∉ earlier) :
    param function earlier (cursor.movedTo (token :: rest)) =
      .ok token.lexeme (cursor.movedTo rest) := by
  have hcontains : ¬ earlier.contains token.lexeme = true := by simpa using hnew
  rw [param, bind_of_eq_ok (expect_movedTo hinput htoken), if_neg hcontains]
  rfl

/-- Names are read behind the `earlier` ones, if no name repeats another one and the
    parenthesis behind them follows. -/
theorem moreParams_movedTo (function : String) {earlier : List String} {closing : Token}
    {input rest : List Token} {names : List String}
    (hnames : Grammar.Names input names (closing :: rest))
    (hclosing : closing.kind = .symbol .rightParen) (hdistinct : (earlier ++ names).Nodup)
    (hinput : input <:+ cursor.rest) {bound : Nat} (hbound : input.length ≤ bound) :
    moreParams function earlier bound (cursor.movedTo input) =
      .ok (earlier ++ names) (cursor.movedTo (closing :: rest)) := by
  induction bound generalizing earlier input names with
  | zero =>
    obtain ⟨token, more, rfl, _⟩ := hnames.exists_start
    simp at hbound
  | succ bound ih =>
    have hnew : ∀ name ∈ names.head?, name ∉ earlier := by
      intro name hname hearlier
      exact (List.nodup_append.mp hdistinct).2.2 name hearlier name (List.mem_of_head? hname) rfl
    cases hnames with
    | last htoken =>
      rw [moreParams, bind_of_eq_ok (param_movedTo hinput htoken (hnew _ rfl)),
        bind_of_eq_ok (accept_of_kind_ne (by simp [hclosing]))]
      rfl
    | @more token comma others _ names htoken hcomma hothers =>
      have hpast := (List.suffix_cons _ _).trans hinput
      have hother := (List.suffix_cons _ _).trans hpast
      have happend : earlier ++ token.lexeme :: names = (earlier ++ [token.lexeme]) ++ names := by
        simp
      rw [moreParams, bind_of_eq_ok (param_movedTo hinput htoken (hnew _ rfl)),
        bind_of_eq_ok (accept_movedTo hpast hcomma)]
      dsimp only
      rw [happend] at hdistinct ⊢
      simp only [List.length_cons] at hbound
      exact ih hothers hdistinct hother (by omega)

theorem params_movedTo {function : String} {input rest : List Token} {names : List String}
    (hparams : Grammar.Params input names rest) (hdistinct : names.Nodup)
    (hinput : input <:+ cursor.rest) :
    params function (cursor.movedTo input) = .ok names (cursor.movedTo rest) := by
  cases hparams with
  | none hopening hclosing =>
    have hpast := (List.suffix_cons _ _).trans hinput
    rw [params, bind_of_eq_ok (expect_movedTo hinput hopening),
      bind_of_eq_ok (sees_of_kind_eq rfl hclosing), if_pos rfl, bind_of_eq_ok (pure_apply _ _)]
    dsimp only
    rw [bind_of_eq_ok (expect_movedTo hpast hclosing)]
    rfl
  | @some _ _ inside _ _ hopening hnames hclosing =>
    have hpast := (List.suffix_cons _ _).trans hinput
    have hsees : ∀ token ∈ inside.head?, token.kind ≠ .symbol .rightParen := by
      obtain ⟨token, more, rfl, htoken⟩ := hnames.exists_start
      simp [htoken]
    rw [← List.nil_append names] at hdistinct
    have hread := moreParams_movedTo function hnames hclosing hdistinct hpast (Nat.le_refl _)
    rw [params, bind_of_eq_ok (expect_movedTo hinput hopening),
      bind_of_eq_ok (sees_of_kind_ne hsees), if_neg Bool.false_ne_true,
      bind_of_eq_ok (remaining_apply _), Cursor.rest_movedTo, bind_of_eq_ok hread]
    dsimp only
    rw [bind_of_eq_ok (expect_movedTo (hnames.suffix.trans hpast) hclosing)]
    rfl

/-- A single statement is no block, and it is read with its semicolon. -/
theorem terminated_movedTo_single (hstop : cursor.stop.kind = .endOfInput)
    {input rest : List Token} {result : Stmt}
    (hentry : Grammar.Entry input (.single result) rest) (hrest : Grammar.EntryEndsAt rest)
    (hinput : input <:+ cursor.rest) :
    accept (.symbol .leftBrace) (cursor.movedTo input) = .ok none (cursor.movedTo input) ∧
      seesStatement (cursor.movedTo input) = .ok true (cursor.movedTo input) ∧
      terminated statement (cursor.movedTo input) = .ok result (cursor.movedTo rest) := by
  cases hentry with
  | plain hstatement =>
    have hread := statement_completes hstop _ hstatement hrest.statement hinput (Nat.le_refl _)
    exact ⟨accept_of_kind_ne hstatement.not_brace, seesStatement_movedTo hstatement,
      terminated_movedTo_plain hread hrest.not_semicolon⟩
  | terminated hstatement hsemicolon =>
    have hend : Clause.statement.Ends _ := .inl hsemicolon
    have hread :=
      statement_completes hstop _ hstatement (.of_ends hend _) hinput (Nat.le_refl _)
    exact ⟨accept_of_kind_ne hstatement.not_brace, seesStatement_movedTo hstatement,
      terminated_movedTo_semicolon (hstatement.suffix.trans hinput) hread hsemicolon⟩

theorem functionBody_movedTo (hstop : cursor.stop.kind = .endOfInput) {function : String}
    {input rest : List Token} {entry : MainEntry} (hentry : Grammar.Entry input entry rest)
    (hrest : Grammar.EntryEndsAt rest) (hinput : input <:+ cursor.rest) :
    functionBody function (cursor.movedTo input) = .ok entry.body (cursor.movedTo rest) := by
  cases entry with
  | block body =>
    cases hentry with
    | block hblock =>
      obtain ⟨opening, more, rfl, hopening, hread⟩ :=
        blockOf_movedTo (statement_completes hstop _) hstop hblock hinput (Nat.le_refl _)
      rw [functionBody, bind_of_eq_ok (accept_movedTo hinput hopening), Option.isSome_some,
        if_pos rfl]
      exact hread
  | single result =>
    obtain ⟨hbrace, hsees, hread⟩ := terminated_movedTo_single hstop hentry hrest hinput
    rw [functionBody, bind_of_eq_ok hbrace, Option.isSome_none, if_neg Bool.false_ne_true,
      bind_of_eq_ok hsees, if_pos rfl, bind_of_eq_ok hread]
    rfl

theorem mainBody_movedTo (hstop : cursor.stop.kind = .endOfInput) {input rest : List Token}
    {entry : MainEntry} (hentry : Grammar.Entry input entry rest)
    (hrest : Grammar.EntryEndsAt rest) (hinput : input <:+ cursor.rest) :
    mainBody (cursor.movedTo input) = .ok entry (cursor.movedTo rest) := by
  cases entry with
  | block body =>
    cases hentry with
    | block hblock =>
      obtain ⟨opening, more, rfl, hopening, hread⟩ :=
        blockOf_movedTo (statement_completes hstop _) hstop hblock hinput (Nat.le_refl _)
      rw [mainBody, bind_of_eq_ok (accept_movedTo hinput hopening), Option.isSome_some,
        if_pos rfl, bind_of_eq_ok hread]
      rfl
  | single result =>
    obtain ⟨hbrace, hsees, hread⟩ := terminated_movedTo_single hstop hentry hrest hinput
    rw [mainBody, bind_of_eq_ok hbrace, Option.isSome_none, if_neg Bool.false_ne_true,
      bind_of_eq_ok hsees, if_pos rfl, bind_of_eq_ok hread]
    rfl

/-- A definition is read, once its keyword has been. -/
theorem definition_movedTo (hstop : cursor.stop.kind = .endOfInput) {token : Token}
    {input rest : List Token} {function : FunctionDef}
    (hdefinition : Grammar.Definition (token :: input) function rest)
    (hrest : Grammar.EntryEndsAt rest) (hinput : token :: input <:+ cursor.rest) :
    definition token.span (cursor.movedTo input) = .ok function (cursor.movedTo rest) := by
  have hpast := (List.suffix_cons _ _).trans hinput
  cases hdefinition with
  | @plain _ name params middle _ _ _ htoken hname hparams hdistinct hentry =>
    have hparamsInput := (List.suffix_cons _ _).trans hpast
    have hmiddle := hparams.suffix.trans hparamsInput
    have harrow : ∀ next ∈ middle.head?, next.kind ≠ .symbol .arrow := by
      obtain ⟨next, more, rfl, hbrace | hstart⟩ := hentry.exists_start
      · simp [hbrace]
      · rintro _ hnext hkind
        cases hnext
        rw [hkind] at hstart
        cases hstart
    have hfinal := (hentry.suffix.trans hparams.suffix).trans (List.suffix_cons name params)
    rw [definition, bind_of_eq_ok (expect_movedTo hpast hname),
      bind_of_eq_ok (params_movedTo hparams hdistinct hparamsInput),
      bind_of_eq_ok (accept_of_kind_ne harrow),
      bind_of_eq_ok (functionBody_movedTo hstop hentry hrest hmiddle),
      bind_of_eq_ok (spanFrom_movedTo hinput hfinal)]
    rfl
  | @arrow _ name _ params _ _ _ _ htoken hname hparams harrow hdistinct hentry =>
    have hparamsInput := (List.suffix_cons _ _).trans hpast
    have hmiddle := hparams.suffix.trans hparamsInput
    have hbody := (List.suffix_cons _ _).trans hmiddle
    have hinside := hentry.suffix.trans ((List.suffix_cons _ _).trans hparams.suffix)
    have hfinal := hinside.trans (List.suffix_cons name params)
    rw [definition, bind_of_eq_ok (expect_movedTo hpast hname),
      bind_of_eq_ok (params_movedTo hparams hdistinct hparamsInput),
      bind_of_eq_ok (accept_movedTo hmiddle harrow),
      bind_of_eq_ok (functionBody_movedTo hstop hentry hrest hbody),
      bind_of_eq_ok (spanFrom_movedTo hinput hfinal)]
    rfl

theorem definitions_movedTo (hstop : cursor.stop.kind = .endOfInput) {token : Token}
    {input rest : List Token} {functions : List FunctionDef}
    (hdefinitions : Grammar.Definitions input functions (token :: rest))
    (htoken : token.kind = .keyword .uWuNyaa) (hinput : input <:+ cursor.rest) {bound : Nat}
    (hbound : input.length ≤ bound) :
    definitions bound (cursor.movedTo input) = .ok functions (cursor.movedTo (token :: rest)) := by
  induction bound generalizing input functions with
  | zero =>
    have hshorter := hdefinitions.suffix.length_le
    simp only [List.length_cons] at hshorter
    omega
  | succ bound ih =>
    cases hdefinitions with
    | none =>
      rw [definitions, bind_of_eq_ok (accept_of_kind_ne (by simp [htoken]))]
      rfl
    | more hfirst hothers =>
      obtain ⟨keyword, more, rfl, hkeyword, hmiddle⟩ := hfirst.exists_start
      have hshorter := hmiddle.length_le
      simp only [List.length_cons] at hbound
      have hpast := (List.suffix_cons _ _).trans hinput
      have hreadFirst := definition_movedTo hstop hfirst (hothers.endsAt (.of_main htoken _)) hinput
      have hreadOthers := ih hothers (hmiddle.trans hpast) (by omega)
      rw [definitions, bind_of_eq_ok (accept_movedTo hinput hkeyword)]
      dsimp only
      rw [bind_of_eq_ok hreadFirst, bind_of_eq_ok hreadOthers]
      rfl

theorem finished_of_rest_eq {expectation : Expectation} (hrest : cursor.rest = []) :
    finished expectation cursor = .ok () cursor := by
  rw [finished, bind_of_eq_ok (atEnd_apply cursor), hrest]
  rfl

/-- What is a program is read as one. -/
theorem program_of_whole (hstop : cursor.stop.kind = .endOfInput) {result : Program}
    (hwhole : Grammar.Whole cursor.rest result) :
    ∃ final, program cursor = .ok result final := by
  generalize hinput : cursor.rest = input at hwhole
  cases hwhole with
  | empty =>
    rw [program, bind_of_eq_ok (atEnd_apply cursor), hinput]
    exact ⟨cursor, rfl⟩
  | @main token opening closing arrow _ middle functions entry hfunctions htoken hopening hclosing
      harrow hentry =>
    have hsuffix : input <:+ cursor.rest := hinput ▸ List.suffix_refl input
    have hfirst := hfunctions.suffix.trans hsuffix
    have hsecond := (List.suffix_cons _ _).trans hfirst
    have hthird := (List.suffix_cons _ _).trans hsecond
    have hfourth := (List.suffix_cons _ _).trans hthird
    have hfifth := (List.suffix_cons _ _).trans hfourth
    have hmore : ¬ cursor.rest.isEmpty = true := by
      rw [List.isEmpty_iff]
      rintro hempty
      rw [hempty, List.suffix_nil] at hfirst
      cases hfirst
    have hread := definitions_movedTo hstop hfunctions htoken hsuffix (Nat.le_refl _)
    rw [← hinput, Cursor.movedTo_rest] at hread
    have hmain : mainEntry (cursor.movedTo (token :: opening :: closing :: arrow :: middle)) =
        .ok entry (cursor.movedTo []) := by
      rw [mainEntry, bind_of_eq_ok (expect_movedTo hfirst htoken),
        bind_of_eq_ok (expect_movedTo hsecond hopening),
        bind_of_eq_ok (expect_movedTo hthird hclosing),
        bind_of_eq_ok (expect_movedTo hfourth harrow)]
      exact mainBody_movedTo hstop hentry .nil hfifth
    rw [program, bind_of_eq_ok (atEnd_apply cursor), if_neg hmore,
      bind_of_eq_ok (remaining_apply cursor), bind_of_eq_ok hread, bind_of_eq_ok hmain,
      bind_of_eq_ok (finished_of_rest_eq rfl)]
    exact ⟨_, rfl⟩

end Parser
end KawaiiLang
