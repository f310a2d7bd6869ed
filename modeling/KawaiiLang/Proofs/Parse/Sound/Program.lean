import KawaiiLang.Parse.Program
import KawaiiLang.Proofs.Grammar.Program
import KawaiiLang.Proofs.Parse.Sound.Statement

namespace KawaiiLang.Parser

open Grammar (Clause)

/-- A parameter is a name that differs from the earlier ones. -/
theorem param_eq_ok {function : String} {earlier : List String} {cursor final : Cursor}
    {name : String} (hearlier : earlier.Nodup)
    (hparam : param function earlier cursor = .ok name final) :
    cursor.Reaches final ∧ (earlier ++ [name]).Nodup ∧ ∃ token,
      cursor.rest = token :: final.rest ∧ token.kind = .identifier ∧ token.lexeme = name := by
  rw [param, bind_eq_ok_iff] at hparam
  obtain ⟨token, middle, hexpect, hparam⟩ := hparam
  obtain ⟨hrest, htoken, hmiddle⟩ := expect_eq_ok hexpect
  split at hparam
  · exact absurd hparam refuse_ne_ok
  · next hnew =>
    obtain ⟨rfl, rfl⟩ := pure_eq_ok_iff.mp hparam
    have hknown : (earlier ++ [token.lexeme]).Nodup := by
      refine List.nodup_append.mpr ⟨hearlier, by simp, ?_⟩
      rintro name hname _ hlast rfl
      rw [List.mem_singleton.mp hlast] at hname
      exact hnew (List.contains_iff_mem.mpr hname)
    exact ⟨hmiddle, hknown, token, hrest, htoken, rfl⟩

/-- The names read behind the `earlier` ones are names of the grammar, and none of them
    repeats another one. -/
theorem moreParams_eq_ok {function : String} {earlier names : List String} {cursor final : Cursor}
    (bound : Nat) (hearlier : earlier.Nodup)
    (hparams : moreParams function earlier bound cursor = .ok names final) :
    cursor.Reaches final ∧ names.Nodup ∧
      ∃ others, names = earlier ++ others ∧ Grammar.Names cursor.rest others final.rest := by
  induction bound generalizing earlier cursor with
  | zero =>
    rw [moreParams, bind_eq_ok_iff] at hparams
    obtain ⟨name, middle, hparam, hparams⟩ := hparams
    obtain ⟨rfl, rfl⟩ := pure_eq_ok_iff.mp hparams
    obtain ⟨hreaches, hknown, token, hrest, htoken, rfl⟩ := param_eq_ok hearlier hparam
    exact ⟨hreaches, hknown, _, rfl, hrest ▸ .last htoken⟩
  | succ bound ih =>
    rw [moreParams, bind_eq_ok_iff] at hparams
    obtain ⟨name, middle, hparam, hparams⟩ := hparams
    obtain ⟨hreaches, hknown, token, hrest, htoken, rfl⟩ := param_eq_ok hearlier hparam
    rw [bind_eq_ok_iff] at hparams
    obtain ⟨result, next, haccept, hparams⟩ := hparams
    obtain ⟨rfl, rfl⟩ | ⟨comma, rfl, hmiddleRest, hcomma, hnext⟩ := accept_cases haccept
    · obtain ⟨rfl, rfl⟩ := pure_eq_ok_iff.mp hparams
      exact ⟨hreaches, hknown, _, rfl, hrest ▸ .last htoken⟩
    · obtain ⟨hlast, hdistinct, others, rfl, hothers⟩ := ih hknown hparams
      refine ⟨(hreaches.trans hnext).trans hlast, hdistinct, token.lexeme :: others, by simp, ?_⟩
      rw [hrest, hmiddleRest]
      exact .more htoken hcomma hothers

theorem params_eq_ok {function : String} {cursor final : Cursor} {names : List String}
    (hparams : params function cursor = .ok names final) :
    cursor.Reaches final ∧ names.Nodup ∧ Grammar.Params cursor.rest names final.rest := by
  rw [params, bind_eq_ok_iff] at hparams
  obtain ⟨opening, first, hexpect, hparams⟩ := hparams
  obtain ⟨hrest, hopening, hfirst⟩ := expect_eq_ok hexpect
  rw [bind_of_eq_ok (sees_apply _ first)] at hparams
  split at hparams
  · rw [bind_of_eq_ok (pure_apply _ first), bind_eq_ok_iff] at hparams
    obtain ⟨closing, last, hexpect, hparams⟩ := hparams
    obtain ⟨rfl, rfl⟩ := pure_eq_ok_iff.mp hparams
    obtain ⟨hfirstRest, hclosing, hlast⟩ := expect_eq_ok hexpect
    rw [hrest, hfirstRest]
    exact ⟨hfirst.trans hlast, List.nodup_nil, .none hopening hclosing⟩
  · rw [bind_of_eq_ok (remaining_apply first), bind_eq_ok_iff] at hparams
    obtain ⟨found, second, hfound, hparams⟩ := hparams
    obtain ⟨hsecond, hdistinct, others, hnames, hothers⟩ :=
      moreParams_eq_ok _ List.nodup_nil hfound
    rw [bind_eq_ok_iff] at hparams
    obtain ⟨closing, last, hexpect, hparams⟩ := hparams
    obtain ⟨rfl, rfl⟩ := pure_eq_ok_iff.mp hparams
    obtain ⟨hsecondRest, hclosing, hlast⟩ := expect_eq_ok hexpect
    rw [List.nil_append] at hnames
    subst hnames
    rw [hsecondRest] at hothers
    rw [hrest]
    exact ⟨(hfirst.trans hsecond).trans hlast, hdistinct, .some hopening hothers hclosing⟩

theorem entry_of_terminated {cursor final : Cursor} {result : Stmt} (hlexed : cursor.Lexed)
    (hterminated : terminated statement cursor = .ok result final) :
    cursor.Reaches final ∧ Grammar.Entry cursor.rest (.single result) final.rest := by
  obtain ⟨hreaches, hresult | ⟨semicolon, hsemicolon, hresult⟩⟩ :=
    terminated_eq_ok sound_statement hlexed hterminated
  · exact ⟨hreaches, .plain hresult⟩
  · exact ⟨hreaches, .terminated hresult hsemicolon⟩

theorem functionBody_eq_ok {function : String} {cursor final : Cursor} {body : List Stmt}
    (hlexed : cursor.Lexed) (hbody : functionBody function cursor = .ok body final) :
    cursor.Reaches final ∧
      ∃ entry, entry.body = body ∧ Grammar.Entry cursor.rest entry final.rest := by
  rw [functionBody, bind_eq_ok_iff] at hbody
  obtain ⟨result, first, haccept, hbody⟩ := hbody
  obtain ⟨rfl, rfl⟩ | ⟨opening, rfl, hrest, hopening, hfirst⟩ := accept_cases haccept
  · rw [Option.isSome_none, if_neg Bool.false_ne_true,
      bind_of_eq_ok (seesStatement_apply first)] at hbody
    split at hbody
    · rw [bind_eq_ok_iff] at hbody
      obtain ⟨single, last, hsingle, hbody⟩ := hbody
      obtain ⟨rfl, rfl⟩ := pure_eq_ok_iff.mp hbody
      obtain ⟨hreaches, hentry⟩ := entry_of_terminated hlexed hsingle
      exact ⟨hreaches, _, rfl, hentry⟩
    · exact absurd hbody unmet_ne_ok
  · rw [Option.isSome_some, if_pos rfl] at hbody
    obtain ⟨hreaches, hblock⟩ := blockOf_eq_ok sound_statement hlexed hrest hopening hfirst hbody
    exact ⟨hreaches, .block body, rfl, .block hblock⟩

theorem sound_mainBody : Sound mainBody Grammar.Entry := by
  intro cursor final entry hlexed hentry
  rw [mainBody, bind_eq_ok_iff] at hentry
  obtain ⟨result, first, haccept, hentry⟩ := hentry
  obtain ⟨rfl, rfl⟩ | ⟨opening, rfl, hrest, hopening, hfirst⟩ := accept_cases haccept
  · rw [Option.isSome_none, if_neg Bool.false_ne_true,
      bind_of_eq_ok (seesStatement_apply first)] at hentry
    split at hentry
    · rw [bind_eq_ok_iff] at hentry
      obtain ⟨single, last, hsingle, hentry⟩ := hentry
      obtain ⟨rfl, rfl⟩ := pure_eq_ok_iff.mp hentry
      exact entry_of_terminated hlexed hsingle
    · exact absurd hentry unmet_ne_ok
  · rw [Option.isSome_some, if_pos rfl, bind_eq_ok_iff] at hentry
    obtain ⟨body, last, hbody, hentry⟩ := hentry
    obtain ⟨rfl, rfl⟩ := pure_eq_ok_iff.mp hentry
    obtain ⟨hreaches, hblock⟩ := blockOf_eq_ok sound_statement hlexed hrest hopening hfirst hbody
    exact ⟨hreaches, .block hblock⟩

theorem definition_eq_ok {token : Token} {cursor first final : Cursor} {function : FunctionDef}
    (hlexed : cursor.Lexed) (hrest : cursor.rest = token :: first.rest)
    (hfirst : cursor.Reaches first) (htoken : token.kind = .keyword .kawaii)
    (hdefinition : definition token.span first = .ok function final) :
    cursor.Reaches final ∧ Grammar.Definition cursor.rest function final.rest := by
  rw [definition, bind_eq_ok_iff] at hdefinition
  obtain ⟨name, second, hexpect, hdefinition⟩ := hdefinition
  obtain ⟨hfirstRest, hname, hsecond⟩ := expect_eq_ok hexpect
  rw [bind_eq_ok_iff] at hdefinition
  obtain ⟨names, third, hparams, hdefinition⟩ := hdefinition
  obtain ⟨hthird, hdistinct, hparams⟩ := params_eq_ok hparams
  rw [bind_eq_ok_iff] at hdefinition
  obtain ⟨result, fourth, haccept, hdefinition⟩ := hdefinition
  rw [bind_eq_ok_iff] at hdefinition
  obtain ⟨body, last, hbody, hdefinition⟩ := hdefinition
  have hreaches := hsecond.trans hthird
  obtain ⟨rfl, rfl⟩ | ⟨arrow, rfl, hthirdRest, harrow, hfourth⟩ := accept_cases haccept
  · obtain ⟨hlast, entry, rfl, hentry⟩ :=
      functionBody_eq_ok (hlexed.of_reaches (hfirst.trans hreaches)) hbody
    have hfinal := hreaches.trans hlast
    rw [bind_of_eq_ok (spanFrom_of_reaches (hfirst.trans hfinal) hrest hfinal.suffix)] at hdefinition
    obtain ⟨rfl, rfl⟩ := pure_eq_ok_iff.mp hdefinition
    rw [hrest, hfirstRest]
    exact ⟨hfirst.trans hfinal, .plain htoken hname hparams hdistinct hentry⟩
  · have hreaches := hreaches.trans hfourth
    obtain ⟨hlast, entry, rfl, hentry⟩ :=
      functionBody_eq_ok (hlexed.of_reaches (hfirst.trans hreaches)) hbody
    have hfinal := hreaches.trans hlast
    rw [bind_of_eq_ok (spanFrom_of_reaches (hfirst.trans hfinal) hrest hfinal.suffix)] at hdefinition
    obtain ⟨rfl, rfl⟩ := pure_eq_ok_iff.mp hdefinition
    rw [hthirdRest] at hparams
    rw [hrest, hfirstRest]
    exact ⟨hfirst.trans hfinal, .arrow htoken hname hparams harrow hdistinct hentry⟩

theorem sound_definitions (bound : Nat) : Sound (definitions bound) Grammar.Definitions := by
  induction bound with
  | zero =>
    intro cursor final functions _ hdefinitions
    obtain ⟨rfl, rfl⟩ := pure_eq_ok_iff.mp hdefinitions
    exact ⟨.refl cursor, .none⟩
  | succ bound ih =>
    intro cursor final functions hlexed hdefinitions
    rw [definitions, bind_eq_ok_iff] at hdefinitions
    obtain ⟨result, first, haccept, hdefinitions⟩ := hdefinitions
    obtain ⟨rfl, rfl⟩ | ⟨token, rfl, hrest, htoken, hfirst⟩ := accept_cases haccept
    · obtain ⟨rfl, rfl⟩ := pure_eq_ok_iff.mp hdefinitions
      exact ⟨.refl first, .none⟩
    · dsimp only at hdefinitions
      rw [bind_eq_ok_iff] at hdefinitions
      obtain ⟨function, second, hfunction, hdefinitions⟩ := hdefinitions
      obtain ⟨hsecond, hfunction⟩ := definition_eq_ok hlexed hrest hfirst htoken hfunction
      rw [bind_eq_ok_iff] at hdefinitions
      obtain ⟨others, last, hothers, hdefinitions⟩ := hdefinitions
      obtain ⟨rfl, rfl⟩ := pure_eq_ok_iff.mp hdefinitions
      obtain ⟨hlast, hothers⟩ := ih (hlexed.of_reaches hsecond) hothers
      exact ⟨hsecond.trans hlast, .more hfunction hothers⟩

theorem finished_eq_ok {expectation : Expectation} {cursor final : Cursor} {result : Unit}
    (hfinished : finished expectation cursor = .ok result final) :
    cursor.rest = [] ∧ final = cursor := by
  rw [finished, bind_of_eq_ok (atEnd_apply cursor)] at hfinished
  split at hfinished
  · next hend =>
    obtain ⟨_, rfl⟩ := pure_eq_ok_iff.mp hfinished
    exact ⟨List.isEmpty_iff.mp hend, rfl⟩
  · exact absurd hfinished unmet_ne_ok

/-- What is read as a program is one. -/
theorem program_eq_ok {cursor final : Cursor} {result : Program} (hlexed : cursor.Lexed)
    (hprogram : program cursor = .ok result final) : Grammar.Whole cursor.rest result := by
  rw [program, bind_of_eq_ok (atEnd_apply cursor)] at hprogram
  split at hprogram
  · next hend =>
    obtain ⟨rfl, rfl⟩ := pure_eq_ok_iff.mp hprogram
    rw [List.isEmpty_iff.mp hend]
    exact .empty
  · rw [bind_of_eq_ok (remaining_apply cursor), bind_eq_ok_iff] at hprogram
    obtain ⟨functions, first, hfunctions, hprogram⟩ := hprogram
    obtain ⟨hfirst, hfunctions⟩ := sound_definitions _ hlexed hfunctions
    rw [bind_eq_ok_iff] at hprogram
    obtain ⟨entry, second, hmain, hprogram⟩ := hprogram
    rw [bind_eq_ok_iff] at hprogram
    obtain ⟨_, third, hfinished, hprogram⟩ := hprogram
    obtain ⟨hend, rfl⟩ := finished_eq_ok hfinished
    obtain ⟨rfl, rfl⟩ := pure_eq_ok_iff.mp hprogram
    rw [mainEntry, bind_eq_ok_iff] at hmain
    obtain ⟨token, fourth, hexpect, hmain⟩ := hmain
    obtain ⟨hfirstRest, htoken, hfourth⟩ := expect_eq_ok hexpect
    rw [bind_eq_ok_iff] at hmain
    obtain ⟨opening, fifth, hexpect, hmain⟩ := hmain
    obtain ⟨hfourthRest, hopening, hfifth⟩ := expect_eq_ok hexpect
    rw [bind_eq_ok_iff] at hmain
    obtain ⟨closing, sixth, hexpect, hmain⟩ := hmain
    obtain ⟨hfifthRest, hclosing, hsixth⟩ := expect_eq_ok hexpect
    rw [bind_eq_ok_iff] at hmain
    obtain ⟨arrow, seventh, hexpect, hmain⟩ := hmain
    obtain ⟨hsixthRest, harrow, hseventh⟩ := expect_eq_ok hexpect
    have hreaches := hfirst.trans (hfourth.trans (hfifth.trans (hsixth.trans hseventh)))
    obtain ⟨_, hentry⟩ := sound_mainBody (hlexed.of_reaches hreaches) hmain
    rw [hfirstRest, hfourthRest, hfifthRest, hsixthRest] at hfunctions
    rw [hend] at hentry
    exact .main hfunctions htoken hopening hclosing harrow hentry

end KawaiiLang.Parser
