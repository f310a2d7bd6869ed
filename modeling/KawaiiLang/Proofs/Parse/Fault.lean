import Mathlib
import KawaiiLang.Proofs.Parse.Lookahead.Program
import KawaiiLang.Proofs.Parse.Program
import KawaiiLang.Proofs.Parse.Viable.Program

namespace KawaiiLang

/-- Tokens that go on like others up to two behind some place are read like them up to there. -/
theorem Cursor.fork_ofTokens {read onward accepted : List Token} {stop : Token}
    (hstop : stop.kind = .endOfInput) (hwords : ∀ token ∈ read ++ onward, token.kind ≠ .endOfInput)
    (hbegins : read ++ (onward ++ [stop]).take 2 <+: accepted) :
    ∃ rest, Parser.Fork (read ++ onward) (ofTokens accepted).rest onward rest := by
  obtain ⟨others, rfl⟩ := hbegins
  obtain ⟨hread, honward⟩ := List.forall_mem_append.mp hwords
  have htake : ∀ token ∈ read, (!decide (token.kind = .endOfInput)) = true := by
    simpa using hread
  rw [List.append_assoc]
  refine ⟨_, read, rfl, List.takeWhile_append_of_pos htake, ?_⟩
  cases onward with
  | nil => simp [hstop]
  | cons first onward =>
    have hfirst := honward first List.mem_cons_self
    cases onward with
    | nil => simp [hstop, hfirst]
    | cons second onward =>
      have hsecond := honward second (List.mem_cons_of_mem _ List.mem_cons_self)
      simp [hfirst, hsecond]

namespace Program

section

-- Words with an end mark behind them.
variable {words : List Token} {stop : Token} (hstop : stop.kind = .endOfInput)
  (hwords : ∀ token ∈ words, token.kind ≠ .endOfInput)

include hstop hwords

theorem ofTokens_append_eq_error {error : SyntaxError}
    (herror : ofTokens (words ++ [stop]) = .error error) :
    ∃ next, Parser.program ⟨none, words, stop⟩ = .error error next := by
  rw [ofTokens, Cursor.ofTokens_append hstop hwords] at herror
  split at herror
  · cases herror
  · next hprogram =>
    cases herror
    exact ⟨_, hprogram⟩

/-- No tokens are read that begin with those in front of an error, the one at fault and the next. -/
theorem not_prefix_of_ofTokens_eq_ok {error : SyntaxError} {next : Cursor} {read : List Token}
    (herror : Parser.program ⟨none, words, stop⟩ = .error error next)
    (hread : words = read ++ error.onward next) {accepted : List Token} {result : Program}
    (haccepted : ofTokens accepted = .ok result) :
    ¬ read ++ (error.onward next ++ [stop]).take 2 <+: accepted := by
  intro hbegins
  obtain ⟨rest, hfork⟩ := Cursor.fork_ofTokens hstop (hread ▸ hwords) hbegins
  rw [← hread] at hfork
  obtain ⟨error', next', hother⟩ :=
    Parser.program_error_of_fork hstop (Cursor.kind_stop_ofTokens accepted) herror hfork
  rw [ofTokens, hother] at haccepted
  cases haccepted

end

section

-- The words in front of an error and those from it on, with an end mark behind them.
variable {read onward : List Token} {stop : Token} (hstop : stop.kind = .endOfInput)
  (hwords : ∀ token ∈ read ++ onward, token.kind ≠ .endOfInput)

include hstop hwords

/-- The words in front of an error begin a list that is read, if they can be completed. -/
theorem exists_ofTokens_of_opens (hliterate : ∀ token ∈ read ++ onward, token.Literate)
    (hopens : Grammar.Wholly.Opens read) :
    ∃ accepted result, read <+: accepted ∧ Token.AsLexed accepted ∧
      ofTokens accepted = .ok result := by
  obtain ⟨more, hmore, hword⟩ := hopens
  obtain ⟨result, hwhole⟩ := hword [] rfl
  rw [List.append_nil] at hwhole
  have hkinds : ∀ token ∈ read ++ more, token.kind ≠ .endOfInput :=
    List.forall_mem_append.mpr ⟨(List.forall_mem_append.mp hwords).1,
      fun token htoken => (hmore token htoken).kind_ne⟩
  have hliterates : ∀ token ∈ read ++ more, token.Literate :=
    List.forall_mem_append.mpr ⟨(List.forall_mem_append.mp hliterate).1,
      fun token htoken => (hmore token htoken).literate⟩
  have hstopLiterate : stop.Literate := ⟨by simp [hstop], by simp [hstop], by simp [hstop]⟩
  refine ⟨read ++ more ++ [stop], result, ?_, ⟨⟨read ++ more, stop, rfl, hstop, hkinds⟩, ?_⟩, ?_⟩
  · exact (List.prefix_append read more).trans (List.prefix_append _ _)
  · exact List.forall_mem_append.mpr ⟨hliterates, List.forall_mem_singleton.mpr hstopLiterate⟩
  · exact (ofTokens_append_eq_ok_iff hstop hkinds hliterates).mpr hwhole

/-- The token at fault and the next one are what is taken of the others. Behind the end mark there
    is nothing more to take. -/
theorem take_of_fault {token : Token} (htoken : token = onward.headD stop) :
    (read ++ onward ++ [stop]).take
        (if token.kind = .endOfInput then read.length + 1 else read.length + 2) =
      read ++ (onward ++ [stop]).take 2 := by
  subst htoken
  rw [List.append_assoc]
  cases onward with
  | nil =>
    rw [List.headD_nil, if_pos hstop, List.take_length_add_append]
    rfl
  | cons first onward =>
    have hfirst := hwords first (List.mem_append_right _ List.mem_cons_self)
    rw [List.headD_cons, if_neg hfirst, List.take_length_add_append]

end

/-- A syntax error is about the right token. The tokens in front of it begin a list that is read as
    a program, and no list that is read begins with them, that token and the next one. At the end
    mark, which no other token follows, already that mark is one too many. -/
theorem ofTokens_fault {tokens : List Token} (htokens : Token.AsLexed tokens) {error : SyntaxError}
    (herror : ofTokens tokens = .error error) :
    ∃ (index : Nat) (token : Token), tokens[index]? = some token ∧
      error.toDiagnostic.position = some token.position ∧
      (∃ accepted result, tokens.take index <+: accepted ∧ Token.AsLexed accepted ∧
        ofTokens accepted = .ok result) ∧
      ∀ accepted result, ofTokens accepted = .ok result →
        ¬ tokens.take (if token.kind = .endOfInput then index + 1 else index + 2) <+: accepted := by
  obtain ⟨words, stop, rfl, hstop, hwords⟩ := htokens.ends
  obtain ⟨hliterate, _⟩ := List.forall_mem_append.mp htokens.literate
  obtain ⟨next, hprogram⟩ := ofTokens_append_eq_error hstop hwords herror
  have hspells := Parser.spells_program.spellsAt ⟨none, words, stop⟩ ⟨hliterate, hstop⟩
  rw [Parser.SpellsAt, hprogram] at hspells
  obtain ⟨read, hread, hfound, hopens⟩ := hspells
  have hread : words = read ++ error.onward next := hread
  refine ⟨read.length, error.found, ?_, rfl, ?_, ?_⟩
  · rw [hfound, hread, List.append_assoc, List.getElem?_append_right (Nat.le_refl _), Nat.sub_self]
    cases error.onward next with
    | nil => rfl
    | cons token onward => rfl
  · have htake : (words ++ [stop]).take read.length = read := by simp [hread]
    rw [htake]
    exact exists_ofTokens_of_opens hstop (hread ▸ hwords) (hread ▸ hliterate) hopens
  · intro accepted result haccepted
    have hnot := not_prefix_of_ofTokens_eq_ok hstop hwords hprogram hread haccepted
    rw [hread] at hwords ⊢
    rwa [take_of_fault hstop hwords hfound]

/-- The tokens of `uWu_nyaa ( ) => sayonara x ++`, each of them one character wide. -/
def updateBehindReturn : List Token :=
  let words : List Token.Kind :=
    [.keyword .uWuNyaa, .symbol .leftParen, .symbol .rightParen, .symbol .arrow,
      .keyword .sayonara, .identifier, .symbol .increment, .endOfInput]
  words.mapIdx fun index kind =>
    { kind, lexeme := "x", literal := none, span := .single index, position := ⟨1, index + 1⟩ }

/-- The name is at fault. It could be the value of the return, but not in front of the operator. -/
theorem ofTokens_fault_updateBehindReturn :
    Token.AsLexed updateBehindReturn ∧
      (∃ error, ofTokens updateBehindReturn = .error error ∧
        error.toDiagnostic.position = some ⟨1, 6⟩) ∧
      ∃ (index : Nat) (token : Token), updateBehindReturn[index]? = some token ∧
        token.position = ⟨1, 6⟩ ∧
        ∀ accepted result, ofTokens accepted = .ok result →
          ¬ updateBehindReturn.take (if token.kind = .endOfInput then index + 1 else index + 2) <+:
            accepted := by
  have hlexed : Token.AsLexed updateBehindReturn := by
    have hsome : updateBehindReturn ≠ [] := by decide
    refine ⟨⟨_, _, (List.dropLast_concat_getLast hsome).symm, rfl, by decide⟩, ?_⟩
    simp [updateBehindReturn, Token.literate_iff]
  have herror : ofTokens updateBehindReturn = .error
      ⟨.expected .endAfterMain, updateBehindReturn.getD 5 default, .single 5⟩ := by cbv
  obtain ⟨index, token, hindex, hposition, _, hnone⟩ := ofTokens_fault hlexed herror
  refine ⟨hlexed, ⟨_, herror, rfl⟩, index, token, hindex, ?_, hnone⟩
  exact (Option.some.inj hposition).symm

-- The name alone is a value, so up to it there is nothing wrong yet.
example :
    (ofTokens (updateBehindReturn.take 6 ++ [updateBehindReturn.getD 7 default])).toBool = true := by
  cbv

end Program
end KawaiiLang
