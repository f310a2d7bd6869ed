import KawaiiLang.Parse.Cursor
import KawaiiLang.Proofs.Computation
import KawaiiLang.Proofs.Grammar.Expression

namespace KawaiiLang

namespace Cursor

/-- The end mark of a cursor is one, even if the tokens have none. -/
theorem kind_stop_ofTokens (tokens : List Token) : (ofTokens tokens).stop.kind = .endOfInput := by
  rw [ofTokens]
  cases hfind : tokens.find? fun token => decide (token.kind = .endOfInput) with
  | none => rfl
  | some stop => simpa using List.find?_some hfind

/-- The cursor once the tokens in front of `rest` have been read. -/
def movedTo (cursor : Cursor) (rest : List Token) : Cursor :=
  let read := cursor.rest.take (cursor.rest.length - rest.length)
  { cursor with last := read.getLast?.or cursor.last, rest }

theorem movedTo_of_eq_append {cursor : Cursor} (read : List Token) {rest : List Token}
    (hrest : cursor.rest = read ++ rest) :
    cursor.movedTo rest = { cursor with last := read.getLast?.or cursor.last, rest } := by
  simp [movedTo, hrest]

@[simp] theorem rest_movedTo (cursor : Cursor) (rest : List Token) :
    (cursor.movedTo rest).rest = rest :=
  rfl

@[simp] theorem movedTo_rest (cursor : Cursor) : cursor.movedTo cursor.rest = cursor := by
  simp [movedTo]

/-- Moving in two steps is moving in one. -/
theorem movedTo_movedTo {cursor : Cursor} {middle rest : List Token}
    (hmiddle : middle <:+ cursor.rest) (hrest : rest <:+ middle) :
    (cursor.movedTo middle).movedTo rest = cursor.movedTo rest := by
  obtain ⟨first, hfirst⟩ := hmiddle
  obtain ⟨second, rfl⟩ := hrest
  have hall : cursor.rest = (first ++ second) ++ rest := by simp [← hfirst]
  rw [movedTo_of_eq_append _ hall, movedTo_of_eq_append _ hfirst.symm,
    movedTo_of_eq_append second rfl, List.getLast?_append, Option.or_assoc]

/-- A cursor moves by reading tokens, and only forwards. -/
structure Reaches (cursor next : Cursor) : Prop where
  suffix : next.rest <:+ cursor.rest
  eq_movedTo : next = cursor.movedTo next.rest

theorem Reaches.refl (cursor : Cursor) : cursor.Reaches cursor :=
  ⟨List.suffix_refl _, (movedTo_rest cursor).symm⟩

theorem Reaches.trans {first second third : Cursor} (hfirst : first.Reaches second)
    (hsecond : second.Reaches third) : first.Reaches third := by
  refine ⟨hsecond.suffix.trans hfirst.suffix, ?_⟩
  have hthird := hsecond.eq_movedTo
  rw [hfirst.eq_movedTo, movedTo_movedTo hfirst.suffix hsecond.suffix] at hthird
  exact hthird

/-- The token read last ends the span of a node that was read from `token` on. -/
theorem Reaches.span_eq {cursor next : Cursor} {token : Token} {input : List Token}
    (hreaches : cursor.Reaches next) (hrest : cursor.rest = token :: input)
    (hmoved : next.rest <:+ input) :
    token.span.through next.lastSpan = Grammar.spanOf token input next.rest := by
  obtain ⟨read, hread⟩ := hmoved
  have hcons : cursor.rest = (token :: read) ++ next.rest := by simp [hrest, ← hread]
  have hlast : next.last = (token :: read).getLast? := by
    rw [hreaches.eq_movedTo, movedTo_of_eq_append _ hcons]
    simp [List.getLast?_cons]
  rw [← hread, Grammar.spanOf_append, lastSpan, hlast, List.getLast?_cons, Option.getD_some]

end Cursor

namespace Parser

variable {α β : Type}

@[simp] theorem remaining_apply (cursor : Cursor) :
    remaining cursor = .ok cursor.rest.length cursor :=
  rfl

@[simp] theorem sees_apply (kind : Token.Kind) (cursor : Cursor) :
    sees kind cursor = .ok (cursor.rest.head?.any (·.kind = kind)) cursor :=
  rfl

theorem sees_of_kind_eq {kind : Token.Kind} {cursor : Cursor} {token : Token} {rest : List Token}
    (hrest : cursor.rest = token :: rest) (hkind : token.kind = kind) :
    sees kind cursor = .ok true cursor := by
  rw [sees_apply, hrest, List.head?_cons, Option.any_some, decide_eq_true hkind]

theorem sees_of_kind_ne {kind : Token.Kind} {cursor : Cursor}
    (hkind : ∀ token ∈ cursor.rest.head?, token.kind ≠ kind) :
    sees kind cursor = .ok false cursor := by
  rw [sees_apply]
  cases hhead : cursor.rest.head? with
  | none => rfl
  | some token => rw [Option.any_some, decide_eq_false (hkind token hhead)]

@[simp] theorem atEnd_apply (cursor : Cursor) : atEnd cursor = .ok cursor.rest.isEmpty cursor :=
  rfl

theorem unmet_ne_ok {expectation : Expectation} {cursor final : Cursor} {a : α} :
    unmet expectation cursor ≠ .ok a final :=
  nofun

theorem refuse_ne_ok {token : Token} {fault : SyntaxFault} {cursor final : Cursor} {a : α} :
    refuse token fault cursor ≠ .ok a final :=
  nofun

/-- A token for which there is a use is read. -/
theorem takeIf_of_eq_some {select : Token → Option α} {cursor : Cursor} {token : Token}
    {rest : List Token} {a : α} (hrest : cursor.rest = token :: rest)
    (hselect : select token = some a) :
    takeIf select cursor = .ok (some a) (cursor.movedTo rest) := by
  rw [Cursor.movedTo_of_eq_append [token] hrest, takeIf, bind_of_eq_ok (get_apply cursor)]
  simp only [hrest, hselect]
  rfl

/-- A token for which there is no use is left. -/
theorem takeIf_of_eq_none {select : Token → Option α} {cursor : Cursor}
    (hselect : ∀ token ∈ cursor.rest.head?, select token = none) :
    takeIf select cursor = .ok none cursor := by
  rw [takeIf, bind_of_eq_ok (get_apply cursor)]
  cases hrest : cursor.rest with
  | nil => rfl
  | cons token rest =>
    have hnone := hselect token (by simp [hrest])
    simp only [hnone]
    rfl

/-- Either nothing is read, or the next token is. -/
theorem takeIf_cases {select : Token → Option α} {cursor final : Cursor} {result : Option α}
    (htake : takeIf select cursor = .ok result final) :
    (result = none ∧ final = cursor ∧ ∀ token ∈ cursor.rest.head?, select token = none) ∨
      ∃ token a, result = some a ∧ cursor.rest = token :: final.rest ∧ select token = some a ∧
        cursor.Reaches final := by
  cases hrest : cursor.rest with
  | nil =>
    rw [takeIf_of_eq_none (by simp [hrest])] at htake
    cases htake
    exact .inl ⟨rfl, rfl, by simp⟩
  | cons token rest =>
    cases hselect : select token with
    | none =>
      have hnone : ∀ token ∈ cursor.rest.head?, select token = none := by simpa [hrest] using hselect
      rw [takeIf_of_eq_none hnone] at htake
      cases htake
      exact .inl ⟨rfl, rfl, by simpa [hrest] using hnone⟩
    | some a =>
      rw [takeIf_of_eq_some hrest hselect] at htake
      cases htake
      refine .inr ⟨token, a, rfl, rfl, hselect, ?_, rfl⟩
      exact hrest ▸ List.suffix_cons token rest

theorem takeIf_movedTo {select : Token → Option α} {cursor : Cursor} {token : Token}
    {rest : List Token} {a : α} (hinput : token :: rest <:+ cursor.rest)
    (hselect : select token = some a) :
    takeIf select (cursor.movedTo (token :: rest)) = .ok (some a) (cursor.movedTo rest) := by
  rw [takeIf_of_eq_some rfl hselect, Cursor.movedTo_movedTo hinput (List.suffix_cons token rest)]

theorem accept_movedTo {kind : Token.Kind} {cursor : Cursor} {token : Token} {rest : List Token}
    (hinput : token :: rest <:+ cursor.rest) (hkind : token.kind = kind) :
    accept kind (cursor.movedTo (token :: rest)) = .ok (some token) (cursor.movedTo rest) :=
  takeIf_movedTo hinput (if_pos hkind)

theorem accept_of_kind_ne {kind : Token.Kind} {cursor : Cursor}
    (hkind : ∀ token ∈ cursor.rest.head?, token.kind ≠ kind) :
    accept kind cursor = .ok none cursor :=
  takeIf_of_eq_none fun token htoken => if_neg (hkind token htoken)

theorem accept_cases {kind : Token.Kind} {cursor final : Cursor} {result : Option Token}
    (haccept : accept kind cursor = .ok result final) :
    (result = none ∧ final = cursor) ∨
      ∃ token, result = some token ∧ cursor.rest = token :: final.rest ∧ token.kind = kind ∧
        cursor.Reaches final := by
  obtain ⟨hresult, hfinal, _⟩ | ⟨token, found, hresult, hrest, hselect, hreaches⟩ :=
    takeIf_cases haccept
  · exact .inl ⟨hresult, hfinal⟩
  · split at hselect
    · next hkind =>
      cases hselect
      exact .inr ⟨token, hresult, hrest, hkind, hreaches⟩
    · cases hselect

theorem expect_movedTo {kind : Token.Kind} {expectation : Expectation} {cursor : Cursor}
    {token : Token} {rest : List Token} (hinput : token :: rest <:+ cursor.rest)
    (hkind : token.kind = kind) :
    expect kind expectation (cursor.movedTo (token :: rest)) = .ok token (cursor.movedTo rest) := by
  rw [expect, bind_of_eq_ok (accept_movedTo hinput hkind)]
  rfl

theorem expect_eq_ok {kind : Token.Kind} {expectation : Expectation} {cursor final : Cursor}
    {token : Token} (hexpect : expect kind expectation cursor = .ok token final) :
    cursor.rest = token :: final.rest ∧ token.kind = kind ∧ cursor.Reaches final := by
  rw [expect, bind_eq_ok_iff] at hexpect
  obtain ⟨result, middle, haccept, hnext⟩ := hexpect
  obtain ⟨rfl, rfl⟩ | ⟨found, rfl, hrest, hkind, hreaches⟩ := accept_cases haccept
  · exact absurd hnext unmet_ne_ok
  · obtain ⟨rfl, rfl⟩ := pure_eq_ok_iff.mp hnext
    exact ⟨hrest, hkind, hreaches⟩

theorem spanFrom_of_reaches {cursor next : Cursor} {token : Token} {input : List Token}
    (hreaches : cursor.Reaches next) (hrest : cursor.rest = token :: input)
    (hmoved : next.rest <:+ input) :
    spanFrom token.span next = .ok (Grammar.spanOf token input next.rest) next := by
  rw [← hreaches.span_eq hrest hmoved]
  rfl

theorem spanFrom_movedTo {cursor : Cursor} {token : Token} {input rest : List Token}
    (hinput : token :: input <:+ cursor.rest) (hrest : rest <:+ input) :
    spanFrom token.span (cursor.movedTo rest) =
      .ok (Grammar.spanOf token input rest) (cursor.movedTo rest) := by
  have hreaches : (cursor.movedTo (token :: input)).Reaches (cursor.movedTo rest) := by
    have hpast := hrest.trans (List.suffix_cons token input)
    exact ⟨hpast, (Cursor.movedTo_movedTo hinput hpast).symm⟩
  exact spanFrom_of_reaches hreaches rfl hrest

end Parser
end KawaiiLang
