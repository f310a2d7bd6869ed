import KawaiiLang.Proofs.Parse.Lookahead.Cursor
import KawaiiLang.Proofs.Parse.Sound.Expression

namespace KawaiiLang

/-- A token that may stand in front of the end mark. -/
structure Token.Proper (token : Token) : Prop where
  kind_ne : token.kind ≠ .endOfInput
  literate : token.Literate

/-- Some token of a kind. -/
def Token.sample (kind : Token.Kind) : Token :=
  let literal : Option Literal :=
    match kind with
    | .integer => some (.int 0)
    | .float => some (.float 0)
    | .string => some (.str "")
    | _ => none
  { kind, lexeme := "", literal, span := default, position := default }

@[simp] theorem Token.kind_sample (kind : Token.Kind) : (sample kind).kind = kind :=
  rfl

theorem Token.proper_sample {kind : Token.Kind} (hkind : kind ≠ .endOfInput) :
    (sample kind).Proper := by
  refine ⟨hkind, ?_, ?_, ?_⟩
  all_goals
    rintro rfl
    exact ⟨_, rfl⟩

/-- What can be read in front of a rest. -/
abbrev Reading :=
  List Token → List Token → Prop

namespace Reading

variable {R T : Reading}

/-- What is left to be read past a token. -/
def past (T : Reading) (token : Token) : Reading :=
  fun input rest => T (token :: input) rest

/-- What is left to be read behind something else. -/
def after (T R : Reading) : Reading :=
  fun middle rest => ∀ input, R input middle → T input rest

/-- The tokens are read so whatever follows them. -/
def Word (T : Reading) (read : List Token) : Prop :=
  ∀ rest, T (read ++ rest) rest

/-- Tokens that can be completed to some that are read so. -/
def Opens (T : Reading) (read : List Token) : Prop :=
  ∃ more, (∀ token ∈ more, token.Proper) ∧ T.Word (read ++ more)

theorem Word.opens {read : List Token} (hread : T.Word read) : T.Opens read :=
  ⟨[], nofun, by rwa [List.append_nil]⟩

theorem Opens.after {read : List Token} (hread : R.Opens read) (hnext : (T.after R).Opens []) :
    T.Opens read := by
  obtain ⟨first, hfirst, hword⟩ := hread
  obtain ⟨second, hsecond, hwords⟩ := hnext
  refine ⟨first ++ second, List.forall_mem_append.mpr ⟨hfirst, hsecond⟩, ?_⟩
  intro rest
  have hinput := hwords rest _ (hword (second ++ rest))
  rwa [List.append_assoc, ← List.append_assoc first, ← List.append_assoc] at hinput

theorem Opens.cons {token : Token} (htoken : token.Proper) (hopens : (T.past token).Opens []) :
    T.Opens [] := by
  obtain ⟨more, hmore, hword⟩ := hopens
  exact ⟨token :: more, List.forall_mem_cons.mpr ⟨htoken, hmore⟩, hword⟩

theorem opens_sample (kind : Token.Kind) (hkind : kind ≠ .endOfInput)
    (hword : (T.past (.sample kind)).Word []) : T.Opens [] :=
  .cons (Token.proper_sample hkind) hword.opens

end Reading

namespace Parser

variable {α β : Type} {R T : Reading}

/-- What is read from the cursor is read as `T` has it, whatever follows. If there is an error, the
    tokens in front of it could have been completed so, and the token at fault is the next one. -/
def SpellsAt (T : Reading) (parser : Parser α) (cursor : Cursor) : Prop :=
  match parser cursor with
  | .ok _ next => next.stop = cursor.stop ∧ ∃ read, cursor.rest = read ++ next.rest ∧ T.Word read
  | .error error next => ∃ read, cursor.rest = read ++ error.onward next ∧
    error.found = (error.onward next).headD cursor.stop ∧ T.Opens read

/-- A step reads what `T` has, or fails where the tokens cannot be completed so. -/
structure Spells (T : Reading) (parser : Parser α) : Prop where
  opens : T.Opens []
  spellsAt : ∀ cursor : Cursor, cursor.Lexed → SpellsAt T parser cursor

/-- A step that goes on as another one does behind some tokens. -/
theorem SpellsAt.step {parser other : Parser α} {cursor middle : Cursor} {read : List Token}
    (hother : SpellsAt R other middle) (hread : cursor.rest = read ++ middle.rest)
    (hstop : middle.stop = cursor.stop) (hparser : parser cursor = other middle)
    (himp : ∀ input rest, R input rest → T (read ++ input) rest) : SpellsAt T parser cursor := by
  have hword {tokens : List Token} (htokens : R.Word tokens) : T.Word (read ++ tokens) := by
    intro rest
    rw [List.append_assoc]
    exact himp _ _ (htokens rest)
  rw [SpellsAt] at hother ⊢
  rw [hparser]
  cases hresult : other middle with
  | ok a next =>
    rw [hresult] at hother
    obtain ⟨hnext, tokens, hsplit, htokens⟩ := hother
    refine ⟨hnext.trans hstop, read ++ tokens, ?_, hword htokens⟩
    rw [hread, hsplit, List.append_assoc]
  | error error next =>
    rw [hresult] at hother
    obtain ⟨tokens, hsplit, hfound, more, hmore, htokens⟩ := hother
    refine ⟨read ++ tokens, ?_, hstop ▸ hfound, more, hmore, ?_⟩
    · rw [hread, hsplit, List.append_assoc]
    · rw [List.append_assoc]
      exact hword htokens

theorem SpellsAt.of_eq {parser other : Parser α} {cursor : Cursor}
    (hother : SpellsAt T other cursor) (hparser : parser cursor = other cursor) :
    SpellsAt T parser cursor := by
  rwa [SpellsAt, hparser]

theorem SpellsAt.mono {parser : Parser α} {cursor : Cursor} (hparser : SpellsAt R parser cursor)
    (himp : ∀ input rest, R input rest → T input rest) : SpellsAt T parser cursor :=
  hparser.step (List.nil_append _).symm rfl rfl himp

/-- The tokens behind those that have been read are as they come out of a text, too. -/
theorem lexed_of_split {cursor middle : Cursor} (hlexed : cursor.Lexed) {read : List Token}
    (hread : cursor.rest = read ++ middle.rest) (hstop : middle.stop = cursor.stop) :
    middle.Lexed where
  literate token htoken := hlexed.literate token (hread ▸ List.mem_append_right read htoken)
  stop_kind := hstop ▸ hlexed.stop_kind

theorem SpellsAt.bind [Inhabited α] {parser : Parser α} {next : α → Parser β} {cursor : Cursor}
    (hlexed : cursor.Lexed) (hparser : SpellsAt R parser cursor)
    (hnext : ∀ a, Spells (T.after R) (next a)) : SpellsAt T (parser >>= next) cursor := by
  cases hresult : parser cursor with
  | ok a middle =>
    rw [SpellsAt, hresult] at hparser
    obtain ⟨hstop, read, hread, hword⟩ := hparser
    have hmiddle := lexed_of_split hlexed hread hstop
    refine ((hnext a).spellsAt middle hmiddle).step hread hstop (bind_of_eq_ok hresult next) ?_
    exact fun input rest hinput => hinput _ (hword input)
  | error error middle =>
    rw [SpellsAt, hresult] at hparser
    rw [SpellsAt, bind_of_eq_error hresult]
    obtain ⟨read, hread, hfound, hopens⟩ := hparser
    exact ⟨read, hread, hfound, hopens.after (hnext default).opens⟩

theorem Spells.bind [Inhabited α] {parser : Parser α} {next : α → Parser β}
    (hparser : Spells R parser) (hnext : ∀ a, Spells (T.after R) (next a)) :
    Spells T (parser >>= next) where
  opens := hparser.opens.after (hnext default).opens
  spellsAt cursor hlexed := (hparser.spellsAt cursor hlexed).bind hlexed hnext

theorem Spells.mono {parser : Parser α} (hparser : Spells R parser)
    (himp : ∀ input rest, R input rest → T input rest) : Spells T parser where
  opens :=
    have ⟨more, hmore, hword⟩ := hparser.opens
    ⟨more, hmore, fun rest => himp _ _ (hword rest)⟩
  spellsAt cursor hlexed := (hparser.spellsAt cursor hlexed).mono himp

theorem spells_pure {a : α} (hT : ∀ rest, T rest rest) : Spells T (pure a) where
  opens := Reading.Word.opens hT
  spellsAt _ _ := ⟨rfl, [], rfl, hT⟩

/-- Nothing is wrong with the tokens in front of one that does not meet an expectation, if others
    would have met it. -/
theorem spells_unmet (hopens : T.Opens []) (expectation : Expectation) :
    Spells T (unmet expectation : Parser α) where
  opens := hopens
  spellsAt _ _ := ⟨[], rfl, rfl, hopens⟩

theorem spells_look_bind [Inhabited α] {look : Cursor → α} {next : α → Parser β}
    (hnext : ∀ a, Spells T (next a)) : Spells T ((do return look (← get)) >>= next) where
  opens := (hnext default).opens
  spellsAt cursor hlexed := (hnext (look cursor)).spellsAt cursor hlexed

theorem Spells.ite {condition : Prop} [Decidable condition] {first second : Parser α}
    (hfirst : Spells T first) (hsecond : Spells T second) :
    Spells T (if condition then first else second) := by
  split
  · exact hfirst
  · exact hsecond

/-- A token that has been read is refused for what it is. -/
def Refusal (token : Token) (parser : Parser α) : Prop :=
  ∃ fault, (∀ expectation, fault ≠ .expected expectation) ∧ parser = refuse token fault

/-- What is read behind a token for which there is a use. -/
theorem Spells.spellsAt_takeIf {select : Token → Option α} {next : Option α → Parser β}
    {cursor : Cursor} {token : Token} {rest : List Token} {a : α}
    (hnext : Spells (T.past token) (next (some a))) (hlexed : cursor.Lexed)
    (hrest : cursor.rest = token :: rest) (hselect : select token = some a) :
    SpellsAt T (takeIf select >>= next) cursor := by
  have hsplit : cursor.rest = [token] ++ (cursor.movedTo rest).rest := hrest
  have hbehind := hnext.spellsAt _ (lexed_of_split hlexed hsplit rfl)
  exact hbehind.step hsplit rfl (bind_of_eq_ok (takeIf_of_eq_some hrest hselect) next) fun _ _ => id

/-- A token that may be read, and then what follows it. The token itself may be refused later. -/
theorem spells_takeIf_bind {select : Token → Option α} {next : Option α → Parser β}
    (hnone : Spells T (next none))
    (hsome : ∀ token a, token.Literate → select token = some a →
      Spells (T.past token) (next (some a)) ∨ Refusal token (next (some a))) :
    Spells T (takeIf select >>= next) := by
  refine ⟨hnone.opens, ?_⟩
  intro cursor hlexed
  obtain hleft | ⟨token, rest, a, hrest, hselect⟩ := exists_selected select cursor
  · exact (hnone.spellsAt _ hlexed).of_eq (bind_of_eq_ok (takeIf_of_eq_none hleft) next)
  · have hliterate := hlexed.literate token (hrest ▸ List.mem_cons_self)
    obtain hspells | ⟨fault, hfault, hrefuse⟩ := hsome token a hliterate hselect
    · exact hspells.spellsAt_takeIf hlexed hrest hselect
    · rw [SpellsAt, bind_of_eq_ok (takeIf_of_eq_some hrest hselect), hrefuse]
      have honward : SyntaxError.onward ⟨fault, token, token.span⟩ (cursor.movedTo rest) =
          token :: rest := by
        rw [SyntaxError.onward]
        split
        · next hexpected => exact absurd hexpected (hfault _)
        · rfl
      exact ⟨[], hrest.trans honward.symm, by rw [honward]; rfl, hnone.opens⟩

section

variable {kind : Token.Kind}

theorem spells_accept_bind {next : Option Token → Parser β} (hnone : Spells T (next none))
    (hsome : ∀ token : Token, token.Literate → token.kind = kind →
      Spells (T.past token) (next (some token))) : Spells T (accept kind >>= next) := by
  refine spells_takeIf_bind hnone ?_
  intro token found hliterate hselect
  split at hselect
  · next hkind =>
    cases hselect
    exact .inl (hsome token hliterate hkind)
  · cases hselect

theorem spells_expect_bind_of_opens {expectation : Expectation} {next : Token → Parser β}
    (hopens : T.Opens [])
    (hnext : ∀ token : Token, token.kind = kind →
      Spells (T.past token) (next token) ∨ Refusal token (next token)) :
    Spells T (expect kind expectation >>= next) := by
  simp only [expect, bind_assoc]
  refine spells_takeIf_bind ⟨hopens, fun cursor _ => ⟨[], rfl, rfl, hopens⟩⟩ ?_
  intro token found _ hselect
  split at hselect
  · next hkind =>
    cases hselect
    exact hnext token hkind
  · cases hselect

/-- A token that has to come next, and what is read behind it. -/
theorem spells_expect_bind {expectation : Expectation} {next : Token → Parser β}
    (hkind : kind ≠ .endOfInput)
    (hnext : ∀ token : Token, token.kind = kind → Spells (T.past token) (next token)) :
    Spells T (expect kind expectation >>= next) := by
  refine spells_expect_bind_of_opens ?_ fun token htoken => .inl (hnext token htoken)
  exact .cons (Token.proper_sample hkind) (hnext _ (Token.kind_sample kind)).opens

end

theorem spells_spanFrom {node : Span → β} {first : Span} (hT : ∀ rest, T rest rest) :
    Spells T (do return node (← spanFrom first)) :=
  spells_look_bind fun _ => spells_pure hT

/-- A node made of what a step reads. -/
theorem Spells.node [Inhabited α] {parser : Parser α} {node : α → Span → β} {first : Span}
    (hparser : Spells R parser) (hT : ∀ input rest, R input rest → T input rest) :
    Spells T (do let a ← parser; return node a (← spanFrom first)) :=
  hparser.bind fun _ => spells_spanFrom fun rest input => hT input rest

end Parser
end KawaiiLang
