import KawaiiLang.Proofs.Parse.Tape.Program

namespace KawaiiLang

namespace Tape

/-- What a reader can be asked for, again and again. -/
inductive Call where
  | program
  | line

/-- What it gives then. -/
inductive Answer where
  | program (outcome : Except SyntaxError Program)
  | line (outcome : Except SyntaxError Line)

namespace Answer

/-- What has been asked for. -/
def call : Answer → Call
  | program _ => .program
  | line _ => .line

/-- No syntax error. -/
def Succeeds : Answer → Prop
  | program outcome => outcome.isOk
  | line outcome => outcome.isOk

/-- The empty program, or the empty line. -/
def IsNothing : Answer → Prop
  | program outcome => outcome = .ok ⟨[], none⟩
  | line outcome => outcome = .ok .empty

theorem IsNothing.succeeds {answer : Answer} (hnothing : answer.IsNothing) : answer.Succeeds := by
  cases answer with
  | program | line => rw [IsNothing] at hnothing; rw [Succeeds, hnothing]; rfl

end Answer

/-- A tape with its head in front of the first token. -/
def ofTokens (tokens : List Token) : Tape :=
  ⟨tokens, 0, []⟩

def answer (depth : Nat) : Call → Reading Answer
  | .program => return .program (← attempt (program depth))
  | .line => return .line (← attempt (line depth))

/-- The answers to calls, each of which begins where the one before it has left the head. -/
def answers (depth : Nat) : List Call → Reading (List Answer)
  | [] => return []
  | call :: calls => return (← answer depth call) :: (← answers depth calls)

/-- The calls on a tape of `tokens` end with `answers`. Nothing gets behind the index `limit`:
    neither the head nor a look, each of which finds a token. For every index up to there the
    calls of the reader nest at most five times deeper. -/
def AnswersWithin (limit : Nat) (calls : List Call) (tokens : List Token)
    (answers : List Answer) : Prop :=
  ∀ depth, 5 * (limit + 1) ≤ depth → ∃ tape,
    Tape.answers depth calls (.ofTokens tokens) = some (.ok answers, tape) ∧
    tape.head ≤ limit ∧ ∀ look ∈ tape.looks, look.head ≤ limit ∧ look.index ≤ limit

end Tape

namespace Parser

open Tape (Answer Call)

/-- The outcome of a step of reading, be it a syntax error. -/
def attempt {α : Type} (parser : Parser α) : Parser (Except SyntaxError α) := fun cursor =>
  match parser cursor with
  | .ok a next => .ok (.ok a) next
  | .error error next => .ok (.error error) next

def answer : Call → Parser Answer
  | .program => return .program (← attempt program)
  | .line => return .line (← attempt line)

/-- The answers to calls, each of which begins where the one before it has left the cursor. -/
def answers : List Call → Parser (List Answer)
  | [] => return []
  | call :: calls => return (← answer call) :: (← answers calls)

end Parser

namespace Track

open Tape (Answer Call Reading)

variable {track : Track} {depth head : Nat}

theorem Follows.attempt {α : Type} {least : Nat} {reading : Reading α} {parser : Parser α}
    (hfollows : track.Follows least head reading parser) :
    ∃ outcome next, next ≤ track.goal ∧ track.Does (Tape.attempt reading) outcome head next ∧
      Parser.attempt parser (track.cursorAt head) = .ok outcome (track.cursorAt next) ∧
      (outcome.isOk → least ≤ next) := by
  rw [Follows] at hfollows
  unfold Parser.attempt
  generalize parser (track.cursorAt head) = result at hfollows
  cases hfollows with
  | @ok a next hleast hnext hdoes =>
    exact ⟨.ok a, next, hnext, hdoes.attempt (.ok a), rfl, fun _ => hleast⟩
  | @error error next hnext hyields =>
    exact ⟨.error error, next, hnext, hyields.attempt (.error error), rfl,
      fun hok => absurd hok Bool.false_ne_true⟩

/-- A call is answered in both ways alike, and at the end if it succeeds. -/
theorem does_answer (hhead : head ≤ track.goal) (hdepth : 5 * (track.goal + 1) ≤ depth)
    (call : Call) :
    ∃ answer next, next ≤ track.goal ∧ track.Does (Tape.answer depth call) answer head next ∧
      Parser.answer call (track.cursorAt head) = .ok answer (track.cursorAt next) ∧
      answer.call = call ∧ (answer.Succeeds → next = track.goal) := by
  cases call with
  | program =>
    have hneed : 5 * (track.goal - head) + 1 ≤ depth := by omega
    obtain ⟨outcome, next, hnext, hdoes, hattempt, hend⟩ := (follows_program hhead hneed).attempt
    refine ⟨.program outcome, next, hnext, hdoes.bind (does_pure _ _), ?_, rfl, ?_⟩
    · exact bind_of_eq_ok hattempt _
    · exact fun hok => Nat.le_antisymm hnext (hend hok)
  | line =>
    have hneed : 5 * (track.goal - head) + 4 ≤ depth := by omega
    obtain ⟨outcome, next, hnext, hdoes, hattempt, hend⟩ := (follows_line hhead hneed).attempt
    refine ⟨.line outcome, next, hnext, hdoes.bind (does_pure _ _), ?_, rfl, ?_⟩
    · exact bind_of_eq_ok hattempt _
    · exact fun hok => Nat.le_antisymm hnext (hend hok)

/-- At the end there is nothing more to be read. -/
theorem isNothing_of_goal {call : Call} {answer : Answer} {cursor : Cursor}
    (hanswer : Parser.answer call (track.cursorAt track.goal) = .ok answer cursor) :
    answer.IsNothing := by
  have hrest : (track.cursorAt track.goal).rest = [] := rest_goal
  generalize track.cursorAt track.goal = last at hanswer hrest
  have hatEnd : Parser.atEnd last = .ok true last := by rw [Parser.atEnd_apply, hrest]; rfl
  cases call with
  | program =>
    have hprogram : Parser.attempt Parser.program last = .ok (.ok ⟨[], none⟩) last := by
      rw [Parser.attempt, Parser.program, bind_of_eq_ok hatEnd]
      rfl
    rw [Parser.answer, bind_of_eq_ok hprogram] at hanswer
    cases hanswer
    rfl
  | line =>
    have hline : Parser.attempt Parser.line last = .ok (.ok .empty) last := by
      rw [Parser.attempt, Parser.line, bind_of_eq_ok hatEnd]
      rfl
    rw [Parser.answer, bind_of_eq_ok hline] at hanswer
    cases hanswer
    rfl

/-- Calls are answered in both ways alike. Behind a success, as at the end, there is nothing more
    to be read. -/
theorem does_answers (hdepth : 5 * (track.goal + 1) ≤ depth) (calls : List Call)
    (hhead : head ≤ track.goal) :
    ∃ answers next, next ≤ track.goal ∧
      track.Does (Tape.answers depth calls) answers head next ∧
      Parser.answers calls (track.cursorAt head) = .ok answers (track.cursorAt next) ∧
      answers.map Answer.call = calls ∧
      (answers.Pairwise fun earlier later => earlier.Succeeds → later.IsNothing) ∧
      (head = track.goal → ∀ answer ∈ answers, answer.IsNothing) := by
  induction calls generalizing head with
  | nil =>
    exact ⟨[], head, hhead, does_pure [] head, rfl, rfl, .nil, fun _ => List.forall_mem_nil _⟩
  | cons call calls ih =>
    obtain ⟨answer, next, hnext, hdoes, hanswer, hcall, hend⟩ := does_answer hhead hdepth call
    obtain ⟨answers, last, hlast, hmore, hanswers, hcalls, hpairs, hnothing⟩ := ih hnext
    have hrun : track.Does (Tape.answers depth (call :: calls)) (answer :: answers) head last :=
      hdoes.bind (hmore.bind (does_pure _ last))
    have hparse : Parser.answers (call :: calls) (track.cursorAt head) =
        .ok (answer :: answers) (track.cursorAt last) := by
      rw [Parser.answers, bind_of_eq_ok hanswer, bind_of_eq_ok hanswers]
      rfl
    refine ⟨answer :: answers, last, hlast, hrun, hparse, ?_, ?_, ?_⟩
    · rw [List.map_cons, hcall, hcalls]
    · exact .cons (fun later hlater hsucceeds => hnothing (hend hsucceeds) later hlater) hpairs
    · intro hgoal
      have hfirst : answer.IsNothing := isNothing_of_goal (hgoal ▸ hanswer)
      exact List.forall_mem_cons.mpr ⟨hfirst, hnothing (hend hfirst.succeeds)⟩

/-- The same words and end mark with other tokens behind them. -/
def withBehind (track : Track) (behind : List Token) : Track :=
  { track with behind }

theorem findIdx?_tokens :
    track.tokens.findIdx? (·.kind = .endOfInput) = some track.goal := by
  have hwords : track.words.findIdx? (·.kind = .endOfInput) = none := by
    simpa using track.words_kind
  rw [tokens, List.findIdx?_append, hwords, List.findIdx?_cons, decide_eq_true track.stop_kind]
  simp [goal]

theorem ofTokens_tokens : Cursor.ofTokens track.tokens = track.cursorAt 0 := by
  have hwords : ∀ word ∈ track.words, (!decide (word.kind = .endOfInput)) = true := by
    simpa using track.words_kind
  have hfind : track.words.find? (fun word => decide (word.kind = .endOfInput)) = none := by
    simpa using track.words_kind
  simp [Cursor.ofTokens, tokens, cursorAt, List.takeWhile_append_of_pos hwords, hfind,
    track.stop_kind]

/-- Whatever stands behind the first end mark can be replaced. -/
theorem tokens_withBehind (behind : List Token) :
    (track.withBehind behind).tokens = track.tokens.take (track.goal + 1) ++ behind := by
  have htake : track.tokens.take (track.goal + 1) = track.words ++ [track.stop] := by
    rw [tokens, goal, List.take_length_add_append]
    rfl
  rw [htake, List.append_assoc]
  rfl

/-- What the parser answers is answered from the tape with any depth that is enough. -/
theorem answersWithin {calls : List Call} {answers : List Answer} {cursor : Cursor}
    (hanswers : Parser.answers calls (track.cursorAt 0) = .ok answers cursor) :
    Tape.AnswersWithin track.goal calls track.tokens answers := by
  intro depth hdepth
  obtain ⟨others, next, hnext, hdoes, hothers, _⟩ :
    ∃ others next, next ≤ track.goal ∧ track.Does (Tape.answers depth calls) others 0 next ∧
      Parser.answers calls (track.cursorAt 0) = .ok others (track.cursorAt next) ∧ _ :=
    does_answers hdepth calls (Nat.zero_le _)
  have hsame : others = answers := (EStateM.Result.ok.inj (hothers.symm.trans hanswers)).1
  obtain ⟨looks, hlooks, hrun⟩ := hdoes []
  rw [hsame, List.nil_append] at hrun
  exact ⟨track.tapeAt next looks, hrun, hnext, hlooks⟩

/-- Tokens with an end mark among them can be taken apart at the first one. -/
theorem exists_tokens_eq {tokens : List Token} {mark : Token} (hmem : mark ∈ tokens)
    (hmark : mark.kind = .endOfInput) : ∃ track : Track, track.tokens = tokens := by
  induction tokens with
  | nil => cases hmem
  | cons token tokens ih =>
    by_cases hkind : token.kind = .endOfInput
    · exact ⟨⟨[], token, tokens, hkind, nofun⟩, rfl⟩
    · have hne : mark ≠ token := fun hsame => hkind (hsame ▸ hmark)
      obtain ⟨track, htrack⟩ := ih ((List.mem_cons.mp hmem).resolve_left hne)
      refine ⟨⟨token :: track.words, track.stop, track.behind, track.stop_kind, ?_⟩, ?_⟩
      · exact List.forall_mem_cons.mpr ⟨hkind, track.words_kind⟩
      · exact congrArg (token :: ·) htrack

end Track

namespace Tape

/-- A reader of tokens with an end mark behind them ends every call, even if there are other end
    marks among them or its earlier calls have failed. It answers as the parser does. It never gets
    behind the first end mark, and so what stands there makes no difference. Once a call has
    succeeded nothing is left to be read. -/
theorem answers_within_first_mark {tokens : List Token} {mark : Token}
    (hlast : tokens.getLast? = some mark) (hmark : mark.kind = .endOfInput) (calls : List Call) :
    ∃ first answers cursor,
      tokens.findIdx? (·.kind = .endOfInput) = some first ∧ first < tokens.length ∧
      Parser.answers calls (.ofTokens tokens) = .ok answers cursor ∧
      answers.map Answer.call = calls ∧
      AnswersWithin first calls tokens answers ∧
      (∀ behind, AnswersWithin first calls (tokens.take (first + 1) ++ behind) answers) ∧
      answers.Pairwise fun earlier later => earlier.Succeeds → later.IsNothing := by
  obtain ⟨track, rfl⟩ := Track.exists_tokens_eq (List.mem_of_getLast? hlast) hmark
  obtain ⟨answers, next, _, _, hanswers, hcalls, hpairs, _⟩ :
    ∃ answers next, next ≤ track.goal ∧
      track.Does (Tape.answers (5 * (track.goal + 1)) calls) answers 0 next ∧
      Parser.answers calls (track.cursorAt 0) = .ok answers (track.cursorAt next) ∧ _ :=
    Track.does_answers (Nat.le_refl _) calls (Nat.zero_le _)
  refine ⟨track.goal, answers, track.cursorAt next, Track.findIdx?_tokens, ?_, ?_, hcalls,
    Track.answersWithin hanswers, ?_, hpairs⟩
  · exact (List.getElem?_eq_some_iff.mp (Track.getElem?_tokens (Nat.le_refl _))).1
  · rw [Track.ofTokens_tokens]
    exact hanswers
  · intro behind
    -- With the same words in front of the mark the cursor is the same.
    have hother : Parser.answers calls ((track.withBehind behind).cursorAt 0) =
        .ok answers (track.cursorAt next) := hanswers
    rw [← Track.tokens_withBehind]
    exact Track.answersWithin hother

/-- The tokens `kawaii 5`, an end mark, `kawaii` once more and another end mark. They all claim to
    stand at the same place, and the value of the number is no number. -/
def twiceEnded : List Token :=
  let kinds : List Token.Kind :=
    [.keyword .kawaii, .integer, .endOfInput, .keyword .kawaii, .endOfInput]
  kinds.map fun kind => ⟨kind, "", some (.bool true), .single 0, .start⟩

/-- The first line fails behind its first token. The second one is what is left of it, and then
    there is nothing more to be read, whatever stands behind the first end mark. -/
theorem answers_within_first_mark_twiceEnded :
    ∃ error, AnswersWithin 2 [.line, .line, .program, .line] twiceEnded
      [.line (.error error), .line (.ok (.expression (.literal (.bool true) (.single 0)))),
        .program (.ok ⟨[], none⟩), .line (.ok .empty)] := by
  have hlast : twiceEnded.getLast? = some (twiceEnded.getD 4 default) := rfl
  obtain ⟨first, answers, cursor, hfirst, _, hanswers, _, hwithin, _⟩ :=
    answers_within_first_mark hlast rfl [.line, .line, .program, .line]
  obtain rfl : first = 2 := (Option.some.inj hfirst).symm
  refine ⟨⟨.expected .functionName, twiceEnded.getD 1 default, .single 0⟩, ?_⟩
  rwa [← (EStateM.Result.ok.inj hanswers).1] at hwithin

end Tape
end KawaiiLang
