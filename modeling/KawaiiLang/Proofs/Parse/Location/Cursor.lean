import KawaiiLang.Parse.Program
import KawaiiLang.Proofs.Parse.Sound.Expression
import KawaiiLang.Proofs.Program.Node

namespace KawaiiLang

/-- A syntax error lies at a word, or just behind the last one if it is about the end mark
    `stop`. -/
inductive SyntaxError.Located (words : List Token) (stop : Token) : SyntaxError → Prop where
  | atWord {fault : SyntaxFault} {word : Token} (hword : word ∈ words) :
      Located words stop ⟨fault, word, word.span⟩
  | atEnd {fault : SyntaxFault} {last : Token} (hlast : words.getLast? = some last) :
      Located words stop ⟨fault, stop, .single last.span.stop⟩

/-- An expectation that can be unmet. The parenthesis of a call is expected only where it stands,
    and so it is missed behind the output alone. -/
def Expectation.Arises : Expectation → Prop
  | argsOpen callee => callee = Keyword.purinto.spelling
  | _ => True

/-- A fault that can arise at the token `found`. -/
def SyntaxFault.ArisesAt (found : Token) : SyntaxFault → Prop
  | expected expectation => expectation.Arises
  | malformedLiteral => ¬ found.Literate
  | noExpression | duplicateParam _ _ => True

/-- What is literate has a literal. -/
theorem Token.not_literate {token : Token}
    (hkind : token.kind = .integer ∨ token.kind = .float ∨ token.kind = .string)
    (hliteral : token.literal = none) : ¬ token.Literate := by
  intro hliterate
  obtain hkind | hkind | hkind := hkind
  · obtain ⟨value, hvalue⟩ := hliterate.integer hkind
    cases hliteral.symm.trans hvalue
  · obtain ⟨value, hvalue⟩ := hliterate.float hkind
    cases hliteral.symm.trans hvalue
  · obtain ⟨value, hvalue⟩ := hliterate.string hkind
    cases hliteral.symm.trans hvalue

/-- Words that are read, in spans that are all as `p` says, also when they are joined. -/
structure Readable (words : List Token) (p : Span → Prop) : Prop where
  ne_nil : words ≠ []
  span : ∀ word ∈ words, p word.span
  through {first last : Span} : p first → p last → p (first.through last)

namespace Cursor

/-- The cursor stands somewhere in `words`, with the end mark `stop` behind them. -/
structure Over (words : List Token) (stop : Token) (cursor : Cursor) : Prop where
  split : ∃ read, words = read ++ cursor.rest ∧ cursor.last = read.getLast?
  stop_eq : cursor.stop = stop

variable {words : List Token} {stop : Token} {p : Span → Prop} {cursor : Cursor}

theorem Over.of_words (words : List Token) (stop : Token) : Over words stop ⟨none, words, stop⟩ :=
  ⟨⟨[], rfl, rfl⟩, rfl⟩

theorem Over.mem_of_mem_rest (hover : cursor.Over words stop) {token : Token}
    (htoken : token ∈ cursor.rest) : token ∈ words := by
  obtain ⟨read, rfl, _⟩ := hover.split
  exact List.mem_append_right read htoken

theorem Over.step (hover : cursor.Over words stop) {token : Token} {rest : List Token}
    (hrest : cursor.rest = token :: rest) :
    Over words stop { cursor with last := some token, rest } := by
  obtain ⟨read, hsplit, _⟩ := hover.split
  refine ⟨⟨read ++ [token], ?_, by simp⟩, hover.stop_eq⟩
  rw [hsplit, hrest, List.append_assoc, List.singleton_append]

/-- The span that stands for the token read last is that of a word. -/
theorem Over.exists_lastSpan (hover : cursor.Over words stop) (hwords : words ≠ []) :
    ∃ word ∈ words, cursor.lastSpan = word.span := by
  obtain ⟨read, hsplit, hlast⟩ := hover.split
  rw [lastSpan, hlast]
  cases hread : read.getLast? with
  | some last =>
    have hmem := List.mem_append_left cursor.rest (List.mem_of_getLast? hread)
    exact ⟨last, hsplit ▸ hmem, rfl⟩
  | none =>
    rw [List.getLast?_eq_none_iff.mp hread, List.nil_append] at hsplit
    cases hrest : cursor.rest with
    | nil => exact absurd (hsplit.trans hrest) hwords
    | cons token rest =>
      refine ⟨token, hsplit ▸ hrest ▸ List.mem_cons_self, ?_⟩
      rw [Option.getD_none, current, hrest, List.headD_cons]

/-- An error about the current token is located. -/
theorem Over.located (hover : cursor.Over words stop) (hwords : words ≠ []) (fault : SyntaxFault) :
    SyntaxError.Located words stop ⟨fault, cursor.current, cursor.errorSpan⟩ := by
  obtain ⟨last, rest, mark⟩ := cursor
  cases rest with
  | cons token rest => exact .atWord (hover.mem_of_mem_rest List.mem_cons_self)
  | nil =>
    obtain ⟨⟨read, hsplit, rfl⟩, rfl⟩ := hover
    have hread : read = words := by rw [hsplit, List.append_nil]
    obtain ⟨last, hlast⟩ := Option.isSome_iff_exists.mp (List.getLast?_isSome.mpr hwords)
    rw [hread, hlast]
    exact .atEnd hlast

end Cursor

namespace Parser

variable {α β : Type} {words : List Token} {stop : Token} {p : Span → Prop}

/-- A step of reading stays in the words, gives a result as it should be, and locates its
    errors, which are such as can arise there. -/
def Locates (words : List Token) (stop : Token) (result : α → Prop) (parser : Parser α) : Prop :=
  ∀ cursor : Cursor, cursor.Over words stop →
    match parser cursor with
    | .ok value next => result value ∧ next.Over words stop
    | .error error _ => error.Located words stop ∧ error.fault.ArisesAt error.found

theorem locates_pure {result : α → Prop} {value : α} (hvalue : result value) :
    Locates words stop result (pure value) :=
  fun _ hover => ⟨hvalue, hover⟩

theorem Locates.bind {first : α → Prop} {second : β → Prop} {step : Parser α}
    {next : α → Parser β} (hstep : Locates words stop first step)
    (hnext : ∀ value, first value → Locates words stop second (next value)) :
    Locates words stop second (step >>= next) := by
  intro cursor hover
  have hfirst := hstep cursor hover
  cases hresult : step cursor with
  | ok value middle =>
    rw [hresult] at hfirst
    rw [bind_of_eq_ok hresult]
    exact hnext value hfirst.1 middle hfirst.2
  | error error middle =>
    rw [hresult] at hfirst
    rw [bind_of_eq_error hresult]
    exact hfirst

theorem Locates.imp {first second : α → Prop} {parser : Parser α}
    (hparser : Locates words stop first parser) (himp : ∀ value, first value → second value) :
    Locates words stop second parser := by
  intro cursor hover
  have hfirst := hparser cursor hover
  cases hresult : parser cursor with
  | ok value next =>
    rw [hresult] at hfirst
    exact ⟨himp value hfirst.1, hfirst.2⟩
  | error error next =>
    rw [hresult] at hfirst
    exact hfirst

theorem Locates.ite {result : α → Prop} {condition : Prop} [Decidable condition]
    {first second : Parser α} (hfirst : Locates words stop result first)
    (hsecond : Locates words stop result second) :
    Locates words stop result (if condition then first else second) := by
  split
  · exact hfirst
  · exact hsecond

theorem locates_get : Locates words stop (fun _ => True) get :=
  fun _ hover => ⟨trivial, hover⟩

/-- What only looks at the cursor leaves it where it is. -/
theorem locates_get_bind {result : β → Prop} {look : Cursor → α} {next : α → Parser β}
    (hnext : ∀ value, Locates words stop result (next value)) :
    Locates words stop result ((do return look (← get)) >>= next) :=
  fun cursor hover => hnext (look cursor) cursor hover

/-- What is read where a token of one kind comes next may be read otherwise elsewhere. -/
theorem locates_sees_bind {result : α → Prop} {kind : Token.Kind} {step alike other : Parser α}
    (hsame : ∀ cursor : Cursor, cursor.rest.head?.any (·.kind = kind) → step cursor = alike cursor)
    (halike : Locates words stop result alike) (hother : Locates words stop result other) :
    Locates words stop result (do if ← sees kind then step else other) := by
  intro cursor hover
  rw [bind_of_eq_ok (sees_apply kind cursor)]
  by_cases hsees : cursor.rest.head?.any (·.kind = kind)
  · rw [if_pos hsees, hsame cursor hsees]
    exact halike cursor hover
  · rw [if_neg hsees]
    exact hother cursor hover

theorem locates_refuse {result : α → Prop} {token : Token} (htoken : token ∈ words)
    {fault : SyntaxFault} (harises : fault.ArisesAt token) :
    Locates words stop result (refuse token fault) :=
  fun _ _ => ⟨.atWord htoken, harises⟩

/-- What is read is read from a word. -/
theorem locates_takeIf (select : Token → Option α) :
    Locates words stop (fun found => ∀ value ∈ found, ∃ word ∈ words, select word = some value)
      (takeIf select) := by
  intro cursor hover
  cases hrest : cursor.rest with
  | nil =>
    rw [takeIf_of_eq_none (by simp [hrest])]
    exact ⟨nofun, hover⟩
  | cons token rest =>
    cases hselect : select token with
    | none =>
      rw [takeIf_of_eq_none (by simpa [hrest] using hselect)]
      exact ⟨nofun, hover⟩
    | some value =>
      rw [takeIf_of_eq_some hrest hselect, Cursor.movedTo_of_eq_append [token] hrest]
      refine ⟨?_, hover.step hrest⟩
      rintro _ ⟨⟩
      exact ⟨token, hover.mem_of_mem_rest (hrest ▸ List.mem_cons_self), hselect⟩

theorem locates_takeIf_some :
    Locates words stop (fun found => ∀ token ∈ found, token ∈ words) (takeIf some) := by
  refine (locates_takeIf some).imp ?_
  intro found hfound token htoken
  obtain ⟨word, hword, hsame⟩ := hfound token htoken
  cases hsame
  exact hword

theorem locates_accept (kind : Token.Kind) :
    Locates words stop (fun found => ∀ token ∈ found, token ∈ words) (accept kind) := by
  refine (locates_takeIf _).imp ?_
  intro found hfound token htoken
  obtain ⟨word, hword, hsame⟩ := hfound token htoken
  split at hsame <;> cases hsame
  exact hword

section

variable (hreadable : Readable words p)

include hreadable

theorem locates_unmet {result : α → Prop} {expectation : Expectation}
    (harises : expectation.Arises) : Locates words stop result (unmet expectation) :=
  fun _ hover => ⟨hover.located hreadable.ne_nil (.expected expectation), harises⟩

theorem locates_expect (kind : Token.Kind) (expectation : Expectation)
    (harises : expectation.Arises) : Locates words stop (· ∈ words) (expect kind expectation) := by
  refine (locates_accept kind).bind ?_
  intro found hfound
  cases found with
  | none => exact locates_unmet hreadable harises
  | some token => exact locates_pure (hfound token rfl)

/-- A token that has to come next, and what is read behind it. -/
theorem locates_expect_bind {result : α → Prop} {next : Parser α} {kind : Token.Kind}
    {expectation : Expectation} (harises : expectation.Arises)
    (hnext : Locates words stop result next) :
    Locates words stop result (expect kind expectation >>= fun _ => next) :=
  (locates_expect hreadable kind expectation harises).bind fun _ _ => hnext

/-- A node from a word on has a span as it should be. -/
theorem locates_spanFrom {result : α → Prop} {node : Span → α} {first : Span} (hfirst : p first)
    (hnode : ∀ span, p span → result (node span)) :
    Locates words stop result (do return node (← spanFrom first)) := by
  intro cursor hover
  obtain ⟨word, hword, hspan⟩ := hover.exists_lastSpan hreadable.ne_nil
  refine ⟨hnode _ ?_, hover⟩
  exact hreadable.through hfirst (hspan ▸ hreadable.span word hword)

/-- A node made of what a step reads behind its first word. -/
theorem locates_node {part : α → Prop} {result : β → Prop} {parser : Parser α} {node : α → Span → β}
    {first : Span} (hparser : Locates words stop part parser) (hfirst : p first)
    (hnode : ∀ value, part value → ∀ span, p span → result (node value span)) :
    Locates words stop result
      (do let value ← parser; return node value (← spanFrom first)) :=
  hparser.bind fun value hvalue => locates_spanFrom hreadable hfirst (hnode value hvalue)

end

end Parser
end KawaiiLang
