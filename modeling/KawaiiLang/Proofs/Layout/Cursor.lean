import KawaiiLang.Parse.Cursor
import KawaiiLang.Proofs.Layout.Syntax
import KawaiiLang.Proofs.Lockstep

namespace KawaiiLang

/-- The same fault at the same word. -/
structure SyntaxError.Relocated (first second : SyntaxError) : Prop where
  fault : first.fault = second.fault
  found : first.found.Relocated second.found

/-- The same words are still to be read. The word read last only lends its span, so that it
    does not matter. -/
structure Cursor.Relocated (first second : Cursor) : Prop where
  rest : List.Forall₂ Token.Relocated first.rest second.rest
  stop : first.stop.Relocated second.stop

namespace Token.Relocated

variable {first second : Token}

theorem describe_eq (htoken : first.Relocated second) : first.describe = second.describe := by
  rw [Token.describe, Token.describe, htoken.kind, htoken.lexeme]

theorem wording_eq (htoken : first.Relocated second) (expectation : Expectation) :
    expectation.wording first = expectation.wording second := by
  unfold Expectation.wording
  rw [htoken.describe_eq]

/-- The wording of an error shows of the word at fault only what it is, not where. -/
theorem message_eq (htoken : first.Relocated second) (fault : SyntaxFault) :
    fault.message first = fault.message second := by
  unfold SyntaxFault.message
  rw [htoken.describe_eq]
  cases fault with
  | expected expectation =>
    dsimp only
    rw [htoken.wording_eq]
  | noExpression | malformedLiteral | duplicateParam => rfl

end Token.Relocated

namespace Cursor.Relocated

variable {first second : Cursor}

theorem ofTokens {tokens tokens' : List Token}
    (htokens : List.Forall₂ Token.Relocated tokens tokens') :
    (Cursor.ofTokens tokens).Relocated (.ofTokens tokens') := by
  induction htokens with
  | nil => exact ⟨.nil, rfl, rfl, rfl⟩
  | @cons token token' tokens tokens' htoken htokens ih =>
    have hkind := htoken.kind
    by_cases hend : token.kind = .endOfInput
    · have hend' : token'.kind = .endOfInput := hkind ▸ hend
      constructor <;> simp [Cursor.ofTokens, hend, hend', htoken]
    · have hend' : token'.kind ≠ .endOfInput := hkind ▸ hend
      obtain ⟨hrest, hstop⟩ := ih
      constructor
      · simpa [Cursor.ofTokens, hend, hend', htoken] using hrest
      · simpa [Cursor.ofTokens, hend, hend'] using hstop

theorem current (hcursor : first.Relocated second) : first.current.Relocated second.current := by
  obtain ⟨last, rest, stop⟩ := first
  obtain ⟨last', rest', stop'⟩ := second
  obtain ⟨hrest, hstop⟩ := hcursor
  cases hrest with
  | nil => exact hstop
  | cons htoken _ => exact htoken

theorem following (hcursor : first.Relocated second) :
    first.following.Relocated second.following := by
  obtain ⟨last, rest, stop⟩ := first
  obtain ⟨last', rest', stop'⟩ := second
  obtain ⟨hrest, hstop⟩ := hcursor
  cases hrest with
  | nil => exact hstop
  | cons _ hrest =>
    cases hrest with
    | nil => exact hstop
    | cons htoken _ => exact htoken

theorem atNameStatement_eq (hcursor : first.Relocated second) :
    first.atNameStatement = second.atNameStatement := by
  rw [Cursor.atNameStatement, Cursor.atNameStatement, hcursor.current.kind, hcursor.following.kind]

end Cursor.Relocated

namespace Parser

/-- Two readers of the same words. -/
def layout : Likeness SyntaxError Cursor where
  errors := SyntaxError.Relocated
  states := Cursor.Relocated

open Likeness (lockstep_pure lockstep_throw lockstep_get)

theorem lockstep_remaining : layout.Lockstep Eq remaining remaining :=
  fun _ _ hcursor => .ok hcursor.rest.length_eq hcursor

theorem lockstep_atEnd : layout.Lockstep Eq atEnd atEnd := by
  refine lockstep_get.bind ?_
  rintro ⟨last, rest, stop⟩ ⟨last', rest', stop'⟩ ⟨hrest, hstop⟩
  refine lockstep_pure ?_
  cases hrest with
  | nil | cons => rfl

theorem lockstep_sees (kind : Token.Kind) : layout.Lockstep Eq (sees kind) (sees kind) := by
  refine lockstep_get.bind ?_
  rintro ⟨last, rest, stop⟩ ⟨last', rest', stop'⟩ ⟨hrest, hstop⟩
  refine lockstep_pure ?_
  cases hrest with
  | nil => rfl
  | cons htoken _ => simp [htoken.kind]

/-- Both readers have a use for the next word, or neither has. -/
theorem lockstep_takeIf {α : Type} {values : α → α → Prop} {select select' : Token → Option α}
    (hselect : ∀ token token', token.Relocated token' →
      Option.Rel values (select token) (select' token')) :
    layout.Lockstep (Option.Rel values) (takeIf select) (takeIf select') := by
  refine lockstep_get.bind ?_
  rintro ⟨last, rest, stop⟩ ⟨last', rest', stop'⟩ ⟨hrest, hstop⟩
  cases hrest with
  | nil => exact lockstep_pure .none
  | @cons token token' rest rest' htoken hrest =>
    have hselected := hselect token token' htoken
    dsimp only
    generalize select token = selected at hselected
    generalize select' token' = selected' at hselected
    cases hselected with
    | none => exact lockstep_pure .none
    | some hvalue => exact fun _ _ _ => .ok (.some hvalue) ⟨hrest, hstop⟩

/-- A use that only asks what kind of word comes next. -/
theorem lockstep_takeIf_kind {α : Type} (select : Token.Kind → Option α) :
    layout.Lockstep (Option.Rel Eq) (takeIf (select ·.kind)) (takeIf (select ·.kind)) := by
  refine lockstep_takeIf ?_
  intro token token' htoken
  rw [htoken.kind]
  cases select token'.kind with
  | none => exact .none
  | some a => exact .some rfl

theorem lockstep_takeIf_some :
    layout.Lockstep (Option.Rel Token.Relocated) (takeIf some) (takeIf some) :=
  lockstep_takeIf fun _ _ htoken => .some htoken

theorem lockstep_accept (kind : Token.Kind) :
    layout.Lockstep (Option.Rel Token.Relocated) (accept kind) (accept kind) := by
  refine lockstep_takeIf ?_
  intro token token' htoken
  rw [htoken.kind]
  split
  · exact .some htoken
  · exact .none

theorem lockstep_unmet {α : Type} {values : α → α → Prop} (expectation : Expectation) :
    layout.Lockstep values (unmet expectation) (unmet expectation) := by
  refine lockstep_get.bind ?_
  intro cursor cursor' hcursor
  exact lockstep_throw ⟨rfl, hcursor.current⟩

theorem lockstep_refuse {α : Type} {values : α → α → Prop} {token token' : Token}
    (htoken : token.Relocated token') (fault : SyntaxFault) :
    layout.Lockstep values (refuse token fault) (refuse token' fault) :=
  lockstep_throw ⟨rfl, htoken⟩

theorem lockstep_expect (kind : Token.Kind) (expectation : Expectation) :
    layout.Lockstep Token.Relocated (expect kind expectation) (expect kind expectation) := by
  refine (lockstep_accept kind).bind ?_
  intro found found' hfound
  cases hfound with
  | none => exact lockstep_unmet expectation
  | some htoken => exact lockstep_pure htoken

/-- What follows a word that has to come next, and of which nothing else is used. -/
theorem lockstep_expect_bind {α β : Type} {values : α → β → Prop} (kind : Token.Kind)
    (expectation : Expectation) {next : Parser α} {next' : Parser β}
    (hnext : layout.Lockstep values next next') :
    layout.Lockstep values (expect kind expectation >>= fun _ => next)
      (expect kind expectation >>= fun _ => next') :=
  (lockstep_expect kind expectation).bind fun _ _ _ => hnext

/-- Spans may differ: they end in what was read, and no reader looks at them. -/
theorem lockstep_spanFrom {α β : Type} {values : α → β → Prop} (first first' : Span)
    {make : Span → α} {make' : Span → β} (hmake : ∀ span span', values (make span) (make' span')) :
    layout.Lockstep values (spanFrom first >>= fun span => pure (make span))
      (spanFrom first' >>= fun span => pure (make' span)) :=
  fun _ _ hcursor => .ok (hmake _ _) hcursor

end Parser
end KawaiiLang
