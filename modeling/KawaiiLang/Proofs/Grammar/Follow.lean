import KawaiiLang.Proofs.Parse.Viable.Program

namespace KawaiiLang.Grammar

/-- The span of tokens does not depend on what follows them. -/
theorem spanOf_exchange (first : Token) (read rest other : List Token) :
    spanOf first (read ++ rest) rest = spanOf first (read ++ other) other := by
  rw [spanOf_append, spanOf_append]

section

variable {input rest : List Token}

theorem Prompt.exchange {text : Option String} (hprompt : Prompt input text rest) :
    ∃ own, own ≠ [] ∧ input = own ++ rest ∧ ∀ other, Prompt (own ++ other) text other := by
  cases hprompt with
  | @absent opening closing _ hopening hclosing =>
    exact ⟨[opening, closing], nofun, rfl, fun _ => .absent hopening hclosing⟩
  | @given opening token closing _ _ hopening hstring htext hclosing =>
    exact ⟨[opening, token, closing], nofun, rfl, fun _ => .given hopening hstring htext hclosing⟩

/-- Two phrases with a token between them are read so whatever follows the second one. -/
theorem Phrase.exchange_join {left right : Phrase} {first : left.Tree} {second : right.Tree}
    {token : Token} {middle : List Token}
    (hleft : ∃ own, own ≠ [] ∧ input = own ++ token :: middle ∧
      ∀ other, left.Derives (own ++ other) first other)
    (hright : ∃ own, own ≠ [] ∧ middle = own ++ rest ∧
      ∀ other, right.Derives (own ++ other) second other) :
    ∃ own, own ≠ [] ∧ input = own ++ rest ∧ ∀ other, ∃ next,
      left.Derives (own ++ other) first (token :: next) ∧ right.Derives next second other := by
  obtain ⟨before, _, rfl, hleft⟩ := hleft
  obtain ⟨behind, _, rfl, hright⟩ := hright
  refine ⟨before ++ token :: behind, by simp, by simp, fun other =>
    ⟨behind ++ other, ?_, hright other⟩⟩
  rw [List.append_assoc]
  exact hleft _

/-- What is read as a phrase is read so whatever follows. -/
theorem Phrase.Derives.exchange {phrase : Phrase} {tree : phrase.Tree}
    (hphrase : phrase.Derives input tree rest) :
    ∃ own, own ≠ [] ∧ input = own ++ rest ∧ ∀ other, phrase.Derives (own ++ other) tree other := by
  induction hphrase with
  | expression _ ih | simple _ ih | term _ ih | item _ ih =>
    obtain ⟨own, hown, rfl, hother⟩ := ih
    refine ⟨own, hown, rfl, fun other => ?_⟩
    constructor
    exact hother other
  | comparison _ hop _ ihleft ihright =>
    obtain ⟨own, hown, rfl, hother⟩ := exchange_join ihleft ihright
    refine ⟨own, hown, rfl, fun other => ?_⟩
    obtain ⟨next, hleft, hright⟩ := hother other
    exact .comparison hleft hop hright
  | sum _ hop _ ihleft ihright =>
    obtain ⟨own, hown, rfl, hother⟩ := exchange_join ihleft ihright
    refine ⟨own, hown, rfl, fun other => ?_⟩
    obtain ⟨next, hleft, hright⟩ := hother other
    exact .sum hleft hop hright
  | product _ hop _ ihleft ihright =>
    obtain ⟨own, hown, rfl, hother⟩ := exchange_join ihleft ihright
    refine ⟨own, hown, rfl, fun other => ?_⟩
    obtain ⟨next, hleft, hright⟩ := hother other
    exact .product hleft hop hright
  | items _ hcomma _ ihleft ihright =>
    obtain ⟨own, hown, rfl, hother⟩ := exchange_join ihleft ihright
    refine ⟨own, hown, rfl, fun other => ?_⟩
    obtain ⟨next, hleft, hright⟩ := hother other
    exact .items hleft hcomma hright
  | @negation token _ _ _ htoken _ ih =>
    obtain ⟨own, _, rfl, hother⟩ := ih
    exact ⟨token :: own, nofun, rfl, fun other => .negation htoken (hother other)⟩
  | @complement token _ _ _ htoken _ ih =>
    obtain ⟨own, _, rfl, hother⟩ := ih
    exact ⟨token :: own, nofun, rfl, fun other => .complement htoken (hother other)⟩
  | @group token closing _ rest inner htoken _ hclosing ih =>
    obtain ⟨own, _, rfl, hother⟩ := ih
    refine ⟨token :: (own ++ [closing]), nofun, by simp, fun other => ?_⟩
    have hspan := spanOf_exchange token (own ++ [closing]) rest other
    have hgroup := Derives.group htoken (hother (closing :: other)) hclosing
    simp only [List.append_assoc, List.cons_append, List.nil_append] at hspan ⊢
    rwa [hspan]
  | @call token _ rest _ htoken _ ih =>
    obtain ⟨own, _, rfl, hother⟩ := ih
    refine ⟨token :: own, nofun, rfl, fun other => ?_⟩
    rw [spanOf_exchange token own rest other]
    exact .call htoken (hother other)
  | @print token _ rest _ htoken _ ih =>
    obtain ⟨own, _, rfl, hother⟩ := ih
    refine ⟨token :: own, nofun, rfl, fun other => ?_⟩
    rw [spanOf_exchange token own rest other]
    exact .print htoken (hother other)
  | @input token _ rest _ htoken htext =>
    obtain ⟨own, _, rfl, hother⟩ := htext.exchange
    refine ⟨token :: own, nofun, rfl, fun other => ?_⟩
    rw [spanOf_exchange token own rest other]
    exact .input htoken (hother other)
  | @name token _ htoken => exact ⟨[token], nofun, rfl, fun _ => .name htoken⟩
  | @hai token _ htoken => exact ⟨[token], nofun, rfl, fun _ => .hai htoken⟩
  | @iie token _ htoken => exact ⟨[token], nofun, rfl, fun _ => .iie htoken⟩
  | @integer token _ _ htoken hvalue =>
    exact ⟨[token], nofun, rfl, fun _ => .integer htoken hvalue⟩
  | @float token _ _ htoken hvalue => exact ⟨[token], nofun, rfl, fun _ => .float htoken hvalue⟩
  | @string token _ _ htoken hvalue => exact ⟨[token], nofun, rfl, fun _ => .string htoken hvalue⟩
  | @noArguments opening closing _ hopening hclosing =>
    exact ⟨[opening, closing], nofun, rfl, fun _ => .noArguments hopening hclosing⟩
  | @arguments opening closing _ _ _ hopening _ hclosing ih =>
    obtain ⟨own, _, rfl, hother⟩ := ih
    refine ⟨opening :: (own ++ [closing]), nofun, by simp, fun other => ?_⟩
    have harguments := Derives.arguments hopening (hother (closing :: other)) hclosing
    simpa using harguments

namespace Clause

/-- Whether what follows a clause, `rest`, may give way to `other`. Only a statement or a body can
    end where it would go on with other tokens behind it, and a return without a value only where
    these are no value. -/
def Admits : (clause : Clause) → clause.Tree → List Token → List Token → Prop
  | statement, result, rest, other => statement.EndsAt rest ∧ statement.EndsAt other ∧
      ((∃ span, result = .returnWith none span) → ¬ TakesValue other)
  | body, _, rest, other => body.EndsAt rest ∧ body.EndsAt other
  | block, _, _, _ | loopBody, _, _, _ | elifs, _, _, _ | otherwise, _, _, _ => True

theorem EndsAt.statement_of_body (hend : body.EndsAt rest) : statement.EndsAt rest :=
  fun token htoken => .inr (.inl (hend token htoken))

theorem Derives.not_takesValue_of_bare {result : Stmt}
    (hstatement : statement.Derives input result rest)
    (hbare : ∃ span, result = .returnWith none span) : ¬ TakesValue rest := by
  obtain ⟨span, rfl⟩ := hbare
  cases hstatement with
  | returnNothing _ htakes => exact htakes

end Clause

/-- Whether a return in front of some tokens takes a value depends on these and not on what follows
    them. -/
theorem TakesValue.exchange {own other : List Token} (htakes : TakesValue (own ++ other))
    (hown : own ≠ []) (hrest : Clause.statement.EndsAt rest) : TakesValue (own ++ rest) := by
  cases own with
  | nil => exact absurd rfl hown
  | cons token own => exact TakesValue.replace htakes fun _ _ => hrest

/-- What is read as a clause is read so whatever follows, as far as that is admitted. -/
theorem Clause.Derives.exchange {clause : Clause} {tree : clause.Tree}
    (hclause : clause.Derives input tree rest) :
    ∃ own, input = own ++ rest ∧
      ∀ other, clause.Admits tree rest other → clause.Derives (own ++ other) tree other := by
  induction hclause with
  | @pass token _ htoken => exact ⟨[token], rfl, fun _ _ => .pass htoken⟩
  | @breakLoop token _ htoken => exact ⟨[token], rfl, fun _ _ => .breakLoop htoken⟩
  | @continueLoop token _ htoken => exact ⟨[token], rfl, fun _ _ => .continueLoop htoken⟩
  | @returnValue token _ rest _ htoken htakes hvalue =>
    obtain ⟨own, hown, rfl, hother⟩ := hvalue.exchange
    refine ⟨token :: own, rfl, fun other hadmits => ?_⟩
    rw [spanOf_exchange token own rest other]
    exact .returnValue htoken (htakes.exchange hown hadmits.2.1) (hother other)
  | @returnNothing token _ htoken _ =>
    exact ⟨[token], rfl, fun _ hadmits => .returnNothing htoken (hadmits.2.2 ⟨_, rfl⟩)⟩
  | @assign token sign _ _ _ htoken hsign hvalue =>
    obtain ⟨own, _, rfl, hother⟩ := hvalue.exchange
    exact ⟨token :: sign :: own, rfl, fun other _ => .assign htoken hsign (hother other)⟩
  | @increment token sign rest htoken hsign =>
    refine ⟨[token, sign], rfl, fun other _ => ?_⟩
    have hspan : spanOf token (sign :: rest) rest = spanOf token (sign :: other) other :=
      spanOf_exchange token [sign] rest other
    rw [hspan]
    exact .increment htoken hsign
  | @decrement token sign rest htoken hsign =>
    refine ⟨[token, sign], rfl, fun other _ => ?_⟩
    have hspan : spanOf token (sign :: rest) rest = spanOf token (sign :: other) other :=
      spanOf_exchange token [sign] rest other
    rw [hspan]
    exact .decrement htoken hsign
  | @call token _ rest _ htoken hargs =>
    obtain ⟨own, _, rfl, hother⟩ := hargs.exchange
    refine ⟨token :: own, rfl, fun other _ => ?_⟩
    rw [spanOf_exchange token own rest other]
    exact .call htoken (hother other)
  | @print token _ rest _ htoken hargs =>
    obtain ⟨own, _, rfl, hother⟩ := hargs.exchange
    refine ⟨token :: own, rfl, fun other _ => ?_⟩
    rw [spanOf_exchange token own rest other]
    exact .print htoken (hother other)
  | @input token _ rest _ htoken htext =>
    obtain ⟨own, _, rfl, hother⟩ := htext.exchange
    refine ⟨token :: own, rfl, fun other _ => ?_⟩
    rw [spanOf_exchange token own rest other]
    exact .input htoken (hother other)
  | @loop token opening closing _ _ rest _ _ htoken hopening hcondition hclosing _ ih =>
    obtain ⟨words, _, rfl, hwords⟩ := hcondition.exchange
    obtain ⟨own, rfl, hother⟩ := ih
    refine ⟨token :: opening :: (words ++ closing :: own), by simp, fun other _ => ?_⟩
    have hspan := spanOf_exchange token (opening :: (words ++ closing :: own)) rest other
    simp only [List.append_assoc, List.cons_append] at hspan ⊢
    rw [hspan]
    exact .loop htoken hopening (hwords _) hclosing (hother other trivial)
  | @branch token opening closing _ _ _ _ rest _ _ _ _ htoken hopening hcondition hclosing _ _ _
      ihbody ihelifs ihotherwise =>
    obtain ⟨words, _, rfl, hwords⟩ := hcondition.exchange
    obtain ⟨last, rfl, hlast⟩ := ihotherwise
    obtain ⟨between, rfl, hbetween⟩ := ihelifs
    obtain ⟨own, rfl, hown⟩ := ihbody
    refine ⟨token :: opening :: (words ++ closing :: (own ++ (between ++ last))), by simp,
      fun other _ => ?_⟩
    have hspan := spanOf_exchange token
      (opening :: (words ++ closing :: (own ++ (between ++ last)))) rest other
    simp only [List.append_assoc, List.cons_append] at hspan ⊢
    rw [hspan]
    exact .branch htoken hopening (hwords _) hclosing (hown _ trivial) (hbetween _ trivial)
      (hlast other trivial)
  | @guarded token handlerToken _ _ rest _ _ htoken _ hhandlerToken _ ihbody ihhandler =>
    obtain ⟨last, rfl, hlast⟩ := ihhandler
    obtain ⟨own, rfl, hown⟩ := ihbody
    refine ⟨token :: (own ++ handlerToken :: last), by simp, fun other _ => ?_⟩
    have hspan := spanOf_exchange token (own ++ handlerToken :: last) rest other
    simp only [List.append_assoc, List.cons_append] at hspan ⊢
    rw [hspan]
    exact .guarded htoken (hown _ trivial) hhandlerToken (hlast other trivial)
  | empty => exact ⟨[], rfl, fun _ _ => .empty⟩
  | @plain _ _ rest _ _ hfirst hothers ihfirst ihothers =>
    obtain ⟨last, rfl, hlast⟩ := ihothers
    obtain ⟨own, rfl, hown⟩ := ihfirst
    refine ⟨own ++ last, by simp, fun other hadmits => ?_⟩
    have hothers' := hlast other hadmits
    have hvalue (htakes : TakesValue (last ++ other)) : TakesValue (last ++ rest) := by
      by_cases hempty : last = []
      · subst hempty
        exact absurd htakes hadmits.2.not_takesValue
      · exact htakes.exchange hempty hadmits.1.statement_of_body
    rw [List.append_assoc]
    refine .plain (hown _ ⟨(hothers.onward hadmits.1).endsAt, (hothers'.onward hadmits.2).endsAt,
      fun hbare htakes => ?_⟩) hothers'
    exact hfirst.not_takesValue_of_bare hbare (hvalue htakes)
  | @terminated semicolon _ _ _ _ _ _ hsemicolon _ ihfirst ihothers =>
    obtain ⟨last, rfl, hlast⟩ := ihothers
    obtain ⟨own, rfl, hown⟩ := ihfirst
    refine ⟨own ++ semicolon :: last, by simp, fun other hadmits => ?_⟩
    rw [List.append_assoc]
    refine .terminated (hown _ ⟨.of_semicolon hsemicolon _, .of_semicolon hsemicolon _, fun _ => ?_⟩)
      hsemicolon (hlast other hadmits)
    exact not_takesValue_of_semicolon _ hsemicolon
  | @block opening closing _ _ _ hopening _ hclosing ih =>
    obtain ⟨own, rfl, hother⟩ := ih
    refine ⟨opening :: (own ++ [closing]), by simp, fun other _ => ?_⟩
    have hblock := Derives.block hopening
      (hother (closing :: other) ⟨.of_closing hclosing _, .of_closing hclosing _⟩) hclosing
    simpa using hblock
  | @breakOnly token _ htoken => exact ⟨[token], rfl, fun _ _ => .breakOnly htoken⟩
  | @continueOnly token _ htoken => exact ⟨[token], rfl, fun _ _ => .continueOnly htoken⟩
  | loopBlock _ ih =>
    obtain ⟨own, rfl, hother⟩ := ih
    exact ⟨own, rfl, fun other _ => .loopBlock (hother other trivial)⟩
  | noElif => exact ⟨[], rfl, fun _ _ => .noElif⟩
  | @elif token opening closing _ _ _ _ _ _ _ htoken hopening hcondition hclosing _ _ ihbody
      ihothers =>
    obtain ⟨words, _, rfl, hwords⟩ := hcondition.exchange
    obtain ⟨last, rfl, hlast⟩ := ihothers
    obtain ⟨own, rfl, hown⟩ := ihbody
    refine ⟨token :: opening :: (words ++ closing :: (own ++ last)), by simp, fun other _ => ?_⟩
    simp only [List.append_assoc, List.cons_append]
    exact .elif htoken hopening (hwords _) hclosing (hown _ trivial) (hlast other trivial)
  | noOtherwise => exact ⟨[], rfl, fun _ _ => .noOtherwise⟩
  | @otherwise token _ _ _ htoken _ ih =>
    obtain ⟨own, rfl, hother⟩ := ih
    exact ⟨token :: own, rfl, fun other _ => .otherwise htoken (hother other trivial)⟩

/-- The tokens of a clause are read as it in front of what is admitted there. -/
theorem Clause.Derives.onto {clause : Clause} {own other : List Token} {tree : clause.Tree}
    (hclause : clause.Derives (own ++ rest) tree rest) (hadmits : clause.Admits tree rest other) :
    clause.Derives (own ++ other) tree other := by
  obtain ⟨words, hsplit, hother⟩ := hclause.exchange
  rw [List.append_cancel_right hsplit]
  exact hother other hadmits

theorem Names.exchange {names : List String} (hnames : Names input names rest) :
    ∃ own, input = own ++ rest ∧ ∀ other, Names (own ++ other) names other := by
  induction hnames with
  | @last token _ htoken => exact ⟨[token], rfl, fun _ => .last htoken⟩
  | @more token comma _ _ _ htoken hcomma _ ih =>
    obtain ⟨own, rfl, hother⟩ := ih
    exact ⟨token :: comma :: own, rfl, fun other => .more htoken hcomma (hother other)⟩

theorem Params.exchange {names : List String} (hparams : Params input names rest) :
    ∃ own, input = own ++ rest ∧ ∀ other, Params (own ++ other) names other := by
  cases hparams with
  | @none opening closing _ hopening hclosing =>
    exact ⟨[opening, closing], rfl, fun _ => .none hopening hclosing⟩
  | @some opening closing _ _ _ hopening hnames hclosing =>
    obtain ⟨own, rfl, hother⟩ := hnames.exchange
    refine ⟨opening :: (own ++ [closing]), by simp, fun other => ?_⟩
    have hparams := Params.some hopening (hother (closing :: other)) hclosing
    simpa using hparams

theorem Entry.exchange {entry : MainEntry} (hentry : Entry input entry rest)
    (hrest : EntryEndsAt rest) :
    ∃ own, input = own ++ rest ∧ ∀ other, EntryEndsAt other → Entry (own ++ other) entry other := by
  cases hentry with
  | block hblock =>
    obtain ⟨own, rfl, hother⟩ := hblock.exchange
    exact ⟨own, rfl, fun other _ => .block (hother other trivial)⟩
  | plain hstatement =>
    obtain ⟨own, rfl, hother⟩ := hstatement.exchange
    refine ⟨own, rfl, fun other hend => .plain (hother other ?_)⟩
    exact ⟨hrest.statement, hend.statement, fun _ => hend.not_takesValue⟩
  | @terminated semicolon _ _ _ hstatement hsemicolon =>
    obtain ⟨own, rfl, hother⟩ := hstatement.exchange
    refine ⟨own ++ [semicolon], by simp, fun other _ => ?_⟩
    rw [List.append_assoc]
    refine .terminated (hother _ ⟨.of_semicolon hsemicolon _, .of_semicolon hsemicolon _, ?_⟩)
      hsemicolon
    exact fun _ => not_takesValue_of_semicolon _ hsemicolon

theorem Definition.exchange {function : FunctionDef} (hfunction : Definition input function rest)
    (hrest : EntryEndsAt rest) :
    ∃ own, input = own ++ rest ∧
      ∀ other, EntryEndsAt other → Definition (own ++ other) function other := by
  cases hfunction with
  | @plain token name _ _ _ _ _ htoken hname hparams hdistinct hentry =>
    obtain ⟨last, rfl, hlast⟩ := hentry.exchange hrest
    obtain ⟨own, rfl, hown⟩ := hparams.exchange
    refine ⟨token :: name :: (own ++ last), by simp, fun other hend => ?_⟩
    have hspan := spanOf_exchange token (name :: (own ++ last)) rest other
    simp only [List.append_assoc, List.cons_append] at hspan ⊢
    rw [hspan]
    exact .plain htoken hname (hown _) hdistinct (hlast other hend)
  | @arrow token name arrow _ _ _ _ _ htoken hname hparams harrow hdistinct hentry =>
    obtain ⟨last, rfl, hlast⟩ := hentry.exchange hrest
    obtain ⟨own, rfl, hown⟩ := hparams.exchange
    refine ⟨token :: name :: (own ++ arrow :: last), by simp, fun other hend => ?_⟩
    have hspan := spanOf_exchange token (name :: (own ++ arrow :: last)) rest other
    simp only [List.append_assoc, List.cons_append] at hspan ⊢
    rw [hspan]
    exact .arrow htoken hname (hown _) harrow hdistinct (hlast other hend)

theorem Definitions.exchange {functions : List FunctionDef}
    (hfunctions : Definitions input functions rest) (hrest : EntryEndsAt rest) :
    ∃ own, input = own ++ rest ∧
      ∀ other, EntryEndsAt other → Definitions (own ++ other) functions other := by
  induction hfunctions with
  | none => exact ⟨[], rfl, fun _ _ => .none⟩
  | more hfirst hothers ih =>
    obtain ⟨last, rfl, hlast⟩ := ih hrest
    obtain ⟨own, rfl, hown⟩ := hfirst.exchange (hothers.endsAt hrest)
    refine ⟨own ++ last, by simp, fun other hend => ?_⟩
    have hothers' := hlast other hend
    rw [List.append_assoc]
    exact .more (hown _ (hothers'.endsAt hend)) hothers'

end

end KawaiiLang.Grammar
