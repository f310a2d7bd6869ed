import KawaiiLang.Proofs.Parse.Tape.Statement

namespace KawaiiLang.Track

open Tape (Reading)

variable {track : Track} {depth head : Nat}

theorem follows_param (hhead : head ≤ track.goal) (function : String) (earlier : List String) :
    track.Follows (head + 1) head (Tape.param function earlier)
      (Parser.param function earlier) := by
  rw [Tape.param, Parser.param]
  refine (follows_expect hhead _ _).bind fun token next hle hnext => ?_
  split
  · exact follows_refuse token _ hnext
  · exact follows_pure _ hle hnext

theorem follows_moreParams (function : String) (commas : Nat) (earlier : List String) :
    track.FollowsWithin 1 commas (Tape.moreParams function earlier)
      (Parser.moreParams function earlier commas) := by
  induction commas generalizing earlier with
  | zero =>
    refine .of_succ fun depth head hhead hleft hdepth => ?_
    rw [Tape.moreParams, Parser.moreParams]
    refine (follows_param hhead function earlier).bind fun name next hle hnext => ?_
    omega
  | succ commas ih =>
    refine .of_succ fun depth head hhead hleft hdepth => ?_
    rw [Tape.moreParams, Parser.moreParams]
    refine (follows_param hhead function earlier).bind fun name next hle hnext => ?_
    refine follows_accept_bind hnext ?_ (follows_pure _ (by omega) hnext)
    intro comma hcomma
    have hgoal := lt_goal hcomma
    exact (ih _ depth (next + 1) hgoal (by omega) (by omega)).mono (by omega)

theorem follows_block (hhead : head ≤ track.goal) (hdepth : 5 * (track.goal - head) + 4 ≤ depth) :
    track.Follows head head (Tape.block depth) (Parser.blockOf Parser.statement) :=
  follows_blockOf statementWithin_statement depth head hhead (Nat.sub_le _ _) hdepth

theorem follows_params (hhead : head ≤ track.goal) (function : String)
    (hdepth : 5 * (track.goal - head) ≤ depth) :
    track.Follows head head (Tape.params function depth) (Parser.params function) := by
  rw [Tape.params, Parser.params]
  refine (follows_expect hhead _ _).bind fun _ next hle hnext => ?_
  refine follows_check_bind hnext ?_ ?_
  · refine (follows_pure [] (Nat.le_refl _) hnext).bind fun names last hlast hgoal => ?_
    exact follows_enclosed names (by omega) hgoal _ _
  · refine follows_remaining_bind ?_
    refine (follows_moreParams function _ [] depth next hnext (Nat.le_refl _) (by omega)).bind ?_
    intro names last hlast hgoal
    exact follows_enclosed names (by omega) hgoal _ _

theorem follows_functionBody (hhead : head ≤ track.goal) (function : String)
    (hdepth : 5 * (track.goal - head) + 2 ≤ depth) :
    track.Follows head head (Tape.functionBody function depth)
      (Parser.functionBody function) := by
  rw [Tape.functionBody, Parser.functionBody]
  refine follows_accept_bind hhead ?_ ?_
  · intro brace hbrace
    have hgoal := lt_goal hbrace
    exact (follows_block hgoal (by omega)).mono (Nat.le_succ head)
  refine follows_seesStatement_bind hhead ?_ (follows_unmet hhead _)
  intro hlt
  refine (follows_terminated statementWithin_statement hlt (Nat.sub_le _ _) hdepth).bind ?_
  intro only next hle hnext
  exact follows_pure _ (by omega) hnext

/-- A definition begins behind its keyword, from which it spans. -/
theorem follows_definition {keyword : Token} (hword : track.words[head]? = some keyword)
    (hdepth : 5 * (track.goal - head) ≤ depth) :
    track.Follows (head + 1) (head + 1) (Tape.definition depth)
      (Parser.definition keyword.span) := by
  have hgoal := lt_goal hword
  rw [Tape.definition, Parser.definition]
  refine (does_previous_of_word hword).follows_same ?_
  refine (follows_expect hgoal _ _).bind fun name first _ hfirst => ?_
  refine (follows_params hfirst name.lexeme (by omega)).bind fun params second _ hsecond => ?_
  refine follows_skip_bind hsecond fun third _ hthird => ?_
  refine (follows_functionBody hthird name.lexeme (by omega)).bind fun body last _ hlast => ?_
  exact follows_node (FunctionDef.mk name.lexeme params body) (by omega) hlast _

theorem follows_definitions (definitions : Nat) :
    track.FollowsWithin 1 definitions Tape.definitions (Parser.definitions definitions) := by
  induction definitions with
  | zero =>
    refine .of_succ fun depth head hhead hleft hdepth => ?_
    obtain rfl : head = track.goal := by omega
    rw [Tape.definitions, Parser.definitions]
    exact (does_accept_goal _).follows_same (follows_pure [] (Nat.le_refl _) hhead)
  | succ definitions ih =>
    refine .of_succ fun depth head hhead hleft hdepth => ?_
    rw [Tape.definitions, Parser.definitions]
    refine follows_accept_bind hhead ?_ (follows_pure [] (Nat.le_refl head) hhead)
    intro keyword hkeyword
    refine (follows_definition hkeyword hdepth).bind fun first next hle hnext => ?_
    refine (ih depth next hnext (by omega) (by omega)).bind fun rest last hlast hend => ?_
    exact follows_pure _ (by omega) hend

theorem follows_mainBody (hhead : head ≤ track.goal)
    (hdepth : 5 * (track.goal - head) + 2 ≤ depth) :
    track.Follows head head (Tape.mainBody depth) Parser.mainBody := by
  rw [Tape.mainBody, Parser.mainBody]
  refine follows_accept_bind hhead ?_ ?_
  · intro brace hbrace
    have hgoal := lt_goal hbrace
    refine (follows_block hgoal (by omega)).bind fun body next hle hnext => ?_
    exact follows_pure _ (by omega) hnext
  refine follows_seesStatement_bind hhead ?_ (follows_unmet hhead _)
  intro hlt
  refine (follows_terminated statementWithin_statement hlt (Nat.sub_le _ _) hdepth).bind ?_
  intro only next hle hnext
  exact follows_pure _ (by omega) hnext

theorem follows_mainEntry (hhead : head ≤ track.goal)
    (hdepth : 5 * (track.goal - head) ≤ depth) :
    track.Follows head head (Tape.mainEntry depth) Parser.mainEntry := by
  rw [Tape.mainEntry, Parser.mainEntry]
  refine (follows_expect hhead _ _).bind fun _ first _ hfirst => ?_
  refine (follows_expect hfirst _ _).bind fun _ second _ hsecond => ?_
  refine (follows_expect hsecond _ _).bind fun _ third _ hthird => ?_
  refine (follows_expect hthird _ _).bind fun _ last _ hlast => ?_
  exact (follows_mainBody hlast (by omega)).mono (by omega)

theorem follows_finished (hhead : head ≤ track.goal) (expectation : Expectation) :
    track.Follows track.goal head (Tape.finished expectation) (Parser.finished expectation) := by
  rw [Tape.finished, Parser.finished]
  refine follows_atEnd_bind hhead ?_ fun _ => follows_unmet hhead _
  rintro rfl
  exact follows_pure () hhead hhead

/-- A program is read to the end. -/
theorem follows_program (hhead : head ≤ track.goal)
    (hdepth : 5 * (track.goal - head) + 1 ≤ depth) :
    track.Follows track.goal head (Tape.program depth) Parser.program := by
  rw [Tape.program, Parser.program]
  refine follows_atEnd_bind hhead ?_ fun _ => ?_
  · rintro rfl
    exact follows_pure _ hhead hhead
  refine follows_remaining_bind ?_
  refine (follows_definitions _ depth head hhead (Nat.le_refl _) hdepth).bind ?_
  intro functions first _ hfirst
  refine (follows_mainEntry hfirst (by omega)).bind fun main second _ hsecond => ?_
  refine (follows_finished hsecond _).bind fun _ last hlast hend => ?_
  exact follows_pure _ hlast hend

theorem attempt_of_eq {α : Type} {reading : Reading α} {tape next : Tape}
    {outcome : Except SyntaxError α}
    (hreading : reading tape = some (outcome.mapError .wrong, next)) :
    Tape.attempt reading tape = some (.ok outcome, next) := by
  unfold Tape.attempt ExceptT.mk ExceptT.run
  simp only [Bind.bind, StateT.bind, hreading]
  cases outcome <;> rfl

theorem Yields.attempt {α : Type} {reading : Reading α} {next : Nat}
    (outcome : Except SyntaxError α)
    (hyields : track.Yields reading (outcome.mapError .wrong) head next) :
    track.Does (Tape.attempt reading) outcome head next := by
  intro looks
  obtain ⟨more, hmore, hrun⟩ := hyields looks
  exact ⟨more, hmore, attempt_of_eq hrun⟩

theorem does_back (next : Nat) :
    track.Does (do modify fun tape => { tape with head := next }; return none)
      (none : Option Expr) head next :=
  (does_move head next).bind (does_pure none next)

/-- All words are read as one expression in both ways, or else the head is put back from wherever
    the expression has left it. -/
theorem does_wholeExpression? (hhead : head ≤ track.goal)
    (hdepth : 5 * (track.goal - head) + 4 ≤ depth) :
    (∃ value, track.Does (Tape.wholeExpression? depth) (some value) head track.goal ∧
      Parser.wholeExpression? (track.cursorAt head) =
        .ok (some value) (track.cursorAt track.goal)) ∨
    track.Does (Tape.wholeExpression? depth) none head head ∧
      Parser.wholeExpression? (track.cursorAt head) = .ok none (track.cursorAt head) := by
  have hstarts := does_atValue hhead Token.Kind.startsExpression
  have hexpression := follows_expression hhead hdepth
  rw [Follows] at hexpression
  rw [Parser.wholeExpression?]
  cases hvalue : ((track.cursorAt head).current.kind.startsExpression &&
    !(track.cursorAt head).atNameStatement) with
  | false =>
    rw [hvalue] at hstarts
    exact .inr ⟨hstarts.bind (does_pure none head), rfl⟩
  | true =>
    rw [hvalue] at hstarts
    rw [if_pos rfl]
    generalize Parser.expression (track.cursorAt head) = result at hexpression
    cases hexpression with
    | @ok value next hle hnext hdoes =>
      dsimp only
      obtain ⟨token, hword⟩ | rfl := word_cases hnext
      · rw [rest_of_word hword]
        refine .inr ⟨hstarts.bind (does_get_bind fun _ => ?_), rfl⟩
        exact (hdoes.attempt (.ok value)).bind ((does_atEnd_of_word hword).bind (does_back head))
      · rw [rest_goal]
        refine .inl ⟨value, hstarts.bind (does_get_bind fun _ => ?_), rfl⟩
        exact (hdoes.attempt (.ok value)).bind (does_atEnd_goal.bind (does_pure _ _))
    | @error error next hnext hyields =>
      refine .inr ⟨hstarts.bind (does_get_bind fun _ => ?_), rfl⟩
      exact (hyields.attempt (.error error)).bind (does_back head)

theorem follows_line (hhead : head ≤ track.goal) (hdepth : 5 * (track.goal - head) + 4 ≤ depth) :
    track.Follows track.goal head (Tape.line depth) Parser.line := by
  rw [Tape.line, Parser.line]
  refine follows_atEnd_bind hhead ?_ fun _ => ?_
  · rintro rfl
    exact follows_pure _ hhead hhead
  refine follows_accept_bind hhead ?_ ?_
  · intro keyword hkeyword
    refine (follows_definition hkeyword (by omega)).bind fun function next _ hnext => ?_
    refine (follows_finished hnext _).bind fun _ last hlast hend => ?_
    exact follows_pure _ hlast hend
  obtain ⟨value, hdoes, hvalue⟩ | ⟨hdoes, hnone⟩ := does_wholeExpression? hhead hdepth
  · refine hdoes.follows (bind_of_eq_ok hvalue _) ?_
    exact follows_pure _ (Nat.le_refl _) (Nat.le_refl _)
  · refine hdoes.follows (bind_of_eq_ok hnone _) ?_
    have hbody : track.FollowsWithin 3 track.goal Tape.body _ :=
      follows_bodyOf statementWithin_statement
    refine (hbody depth head hhead (Nat.sub_le _ _) (by omega)).bind fun body next _ hnext => ?_
    refine (follows_finished hnext _).bind fun _ last hlast hend => ?_
    exact follows_pure _ hlast hend

end KawaiiLang.Track
