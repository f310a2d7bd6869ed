import KawaiiLang.Proofs.Grammar.Placement
import KawaiiLang.Proofs.Interpreter.Phases
import KawaiiLang.Proofs.Parse.Program
import KawaiiLang.Proofs.Token.Tiling

namespace KawaiiLang

open Grammar (Whole)
open Lexeme (Cuts cut)

namespace Lexeme

/-- A token with what has been found is literate. -/
def Found.Literate : Found → Prop
  | token kind literal => ∀ word : Token, word.kind = kind → word.literal = literal → word.Literate
  | blank | fault _ => True

/-- Only numbers and strings need a literal. -/
theorem literate_plain {kind : Token.Kind} (hinteger : kind ≠ .integer) (hfloat : kind ≠ .float)
    (hstring : kind ≠ .string) {literal : Option Literal} : (Found.token kind literal).Literate := by
  rintro word rfl _
  exact ⟨fun hkind => absurd hkind hinteger, fun hkind => absurd hkind hfloat,
    fun hkind => absurd hkind hstring⟩

theorem literate_integer (digits : List Char) : (integer digits).Literate := by
  unfold integer
  dsimp only
  split
  · intro word hkind hliteral
    rw [Token.literate_iff, hkind, hliteral]
    exact ⟨fun _ => ⟨_, rfl⟩, nofun, nofun⟩
  · trivial

theorem literate_number (c : Char) (cs : List Char) : (number c cs).found.Literate := by
  unfold number
  dsimp only
  split
  · split
    · intro word hkind hliteral
      rw [Token.literate_iff, hkind, hliteral]
      exact ⟨nofun, fun _ => ⟨_, rfl⟩, nofun⟩
    · exact literate_integer _
  · exact literate_integer _

theorem literate_string (cs : List Char) : (string cs).found.Literate := by
  unfold string
  dsimp only
  split
  · intro word hkind hliteral
    rw [Token.literate_iff, hkind, hliteral]
    exact ⟨nofun, nofun, fun _ => ⟨_, rfl⟩⟩
  · trivial

theorem literate_word (text : List Char) : (word text).Literate := by
  unfold word
  split <;> exact literate_plain (by simp) (by simp) (by simp)

theorem literate_symbol (c : Char) (cs : List Char) : (symbol c cs).found.Literate := by
  unfold symbol
  cases cs with
  | nil =>
    dsimp only
    split
    · exact literate_plain (by simp) (by simp) (by simp)
    · trivial
  | cons d rest =>
    dsimp only
    split
    · exact literate_plain (by simp) (by simp) (by simp)
    · split
      · exact literate_plain (by simp) (by simp) (by simp)
      · trivial

theorem literate_cut (c : Char) (cs : List Char) : (cut c cs).found.Literate := by
  unfold cut
  split
  · exact trivial
  split
  · exact trivial
  split
  · exact literate_string cs
  split
  · exact literate_number c cs
  split
  · exact literate_word _
  · exact literate_symbol c cs

end Lexeme

/-- The tokens of a text are as the parser takes them to be. -/
theorem Token.asLexed_of_ofSource {source : String} {tokens : List Token}
    (htokens : ofSource source = .ok tokens) : AsLexed tokens := by
  obtain ⟨words, hcuts, rfl⟩ := ofSource_eq_ok htokens
  constructor
  · exact ⟨words, _, rfl, rfl, fun word => hcuts.kind_ne_endOfInput⟩
  · intro token htoken
    obtain hword | hstop := List.mem_append.mp htoken
    · obtain ⟨before, c, cs, kind, literal, _, hfound, rfl⟩ := hcuts.cutOff_of_mem hword
      have hliterate := Lexeme.literate_cut c cs
      rw [hfound] at hliterate
      exact hliterate _ rfl rfl
    · obtain rfl := List.mem_singleton.mp hstop
      constructor <;> exact nofun

/-- The words of a text lie in it one behind the other. -/
theorem Lexeme.Cuts.ordered {text : List Char} {words : List Token} (hcuts : Cuts .start text words) :
    Token.Ordered words where
  nonempty word hword := (hcuts.tiling.inside word hword).1
  apart := hcuts.apart

namespace Program

/-- A text that is accepted has words in order, and these are the program. -/
theorem ofSource_eq_ok {source : String} {program : Program}
    (hprogram : ofSource source = .ok program) :
    ∃ words stop, Token.ofSource source = .ok (words ++ [stop]) ∧ stop.kind = .endOfInput ∧
      Token.Ordered words ∧ Whole words program := by
  obtain ⟨tokens, htokens, hparse⟩ := readWith_eq_ok_iff.mp hprogram
  have hlexed := Token.asLexed_of_ofSource htokens
  obtain ⟨words, hcuts, rfl⟩ := Token.ofSource_eq_ok htokens
  obtain ⟨others, stop, hsplit, hstop, hwords⟩ := hlexed.ends
  obtain ⟨rfl, hlast⟩ := List.append_inj' hsplit rfl
  cases hlast
  have hliterate : ∀ word ∈ words, word.Literate :=
    fun word hword => hlexed.literate word (List.mem_append_left _ hword)
  exact ⟨words, _, htokens, hstop, hcuts.ordered,
    (ofTokens_append_eq_ok_iff hstop hwords hliterate).mp hparse⟩

/-- Every node and every definition of a program that is read from a text has words of its own,
    from the first of which to the last it spans. Below it, and at the top, spans lie one behind
    the other. -/
theorem ofSource_placed {source : String} {program : Program}
    (hprogram : ofSource source = .ok program) :
    ∃ words stop, Token.ofSource source = .ok (words ++ [stop]) ∧ stop.kind = .endOfInput ∧
      (∀ node, program.Contains node → node.Placed words) ∧
      (∀ function ∈ program.functions, function.Placed words) ∧
      Span.Apart (program.functions.map FunctionDef.span ++
        (program.main.elim [] MainEntry.body).map Stmt.span) := by
  obtain ⟨words, stop, htokens, hstop, hordered, hwhole⟩ := ofSource_eq_ok hprogram
  refine ⟨words, stop, htokens, hstop, ?_, ?_, hwhole.apart hordered⟩
  · intro node hnode
    obtain ⟨start, rest, hstart, hlaid⟩ := hwhole.node_laid hordered hnode
    exact hlaid.placed hstart hordered
  · intro function hfunction
    obtain ⟨start, rest, hstart, hlaid, hrest⟩ := hwhole.function_laid hordered hfunction
    exact hlaid.placed hstart hordered hrest

/-- A function with a semicolon behind its only statement, and a call of it. -/
def terminated : String :=
  "kawaii f(x) sayonara x;uWu_nyaa() => f(1);"

/-- The semicolon belongs to the function, and not to its statement. -/
theorem ofSource_placed_terminated :
    ∃ program words stop, ofSource terminated = .ok program ∧
      Token.ofSource terminated = .ok (words ++ [stop]) ∧
      program.functions.map (fun function => (function.span, function.body.map Stmt.span)) =
        [(⟨0, 23⟩, [⟨12, 22⟩])] ∧
      (∀ node, program.Contains node → node.Placed words) ∧
      ∀ function ∈ program.functions, function.Placed words := by
  have hspans : (ofSource terminated).toOption.map (fun program => program.functions.map
      fun function => (function.span, function.body.map Stmt.span)) =
        some [(⟨0, 23⟩, [⟨12, 22⟩])] := by decide +kernel
  cases hprogram : ofSource terminated with
  | error failure =>
    rw [hprogram] at hspans
    cases hspans
  | ok program =>
    rw [hprogram] at hspans
    obtain ⟨words, stop, htokens, _, hnodes, hfunctions, _⟩ := ofSource_placed hprogram
    exact ⟨program, words, stop, rfl, htokens, Option.some.inj hspans, hnodes, hfunctions⟩

end Program
end KawaiiLang
