import KawaiiLang.Proofs.Parse.Tape.Expression

namespace KawaiiLang.Track

open Tape (Reading)

variable {track : Track} {bound depth head least : Nat}

section

variable {α : Type}

theorem does_seesStatement (hhead : head ≤ track.goal) :
    track.Does Tape.seesStatement (track.tokenAt head).kind.startsStatement head head :=
  (does_peek hhead).bind (does_pure _ head)

theorem follows_seesStatement_bind {first second : Reading α} {next : Bool → Parser α}
    (hhead : head ≤ track.goal)
    (hfirst : head < track.goal → track.Follows least head first (next true))
    (hsecond : track.Follows least head second (next false)) :
    track.Follows least head (do if ← Tape.seesStatement then first else second)
      (Parser.seesStatement >>= next) := by
  have hstep : (Parser.seesStatement >>= next) (track.cursorAt head) =
      next (track.tokenAt head).kind.startsStatement (track.cursorAt head) := by
    rw [← current_cursorAt]
    rfl
  refine (does_seesStatement hhead).follows hstep ?_
  cases hstarts : (track.tokenAt head).kind.startsStatement with
  | true =>
    refine hfirst (Nat.lt_of_le_of_ne hhead ?_)
    rintro rfl
    rw [kind_tokenAt_goal] at hstarts
    cases hstarts
  | false => exact hsecond

theorem does_atNameStatement (hhead : head ≤ track.goal) :
    track.Does Tape.atNameStatement (track.cursorAt head).atNameStatement head head := by
  rw [Cursor.atNameStatement, current_cursorAt, following_cursorAt]
  obtain ⟨token, hword⟩ | rfl := word_cases hhead
  · have hcheck := does_check_of_word hword .identifier
    rw [tokenAt_of_word hword]
    by_cases hkind : token.kind = .identifier
    · rw [decide_eq_true hkind] at hcheck ⊢
      refine hcheck.bind ((does_peekNext (lt_goal hword)).bind ?_)
      exact does_pure _ head
    · rw [decide_eq_false hkind] at hcheck ⊢
      exact hcheck.bind (does_pure false head)
  · rw [kind_tokenAt_goal]
    exact (does_check_goal _).bind (does_pure false _)

theorem does_atValue (hhead : head ≤ track.goal) (starts : Token.Kind → Bool) :
    track.Does (Tape.atValue starts)
      (starts (track.cursorAt head).current.kind && !(track.cursorAt head).atNameStatement) head
      head := by
  rw [current_cursorAt]
  refine (does_peek hhead).bind ?_
  cases starts (track.tokenAt head).kind with
  | true => exact (does_atNameStatement hhead).bind (does_pure _ head)
  | false => exact does_pure false head

end

/-- A return of nothing spans its keyword, which is what has been read last. -/
theorem follows_returnAt {token : Token} (hword : track.words[head]? = some token)
    (hdepth : 5 * (track.goal - (head + 1)) + 4 ≤ depth) :
    track.Follows (head + 1) (head + 1) (Tape.returnAt token.span depth)
      (Parser.returnAt token.span) := by
  have hgoal : head + 1 ≤ track.goal := lt_goal hword
  have hvalue : track.Does (Tape.atValue fun kind => kind.startsExpression &&
      kind ≠ .keyword .purinto && kind ≠ .keyword .ohayo)
      (track.cursorAt (head + 1)).atReturnValue (head + 1) (head + 1) := does_atValue hgoal _
  have hstep : Parser.returnAt token.span (track.cursorAt (head + 1)) = (
      if (track.cursorAt (head + 1)).atReturnValue then do
        let value ← Parser.expression
        return .returnWith (some value) (← Parser.spanFrom token.span)
      else return .returnWith none token.span : Parser Stmt) (track.cursorAt (head + 1)) := rfl
  refine hvalue.follows hstep ?_
  cases (track.cursorAt (head + 1)).atReturnValue with
  | true =>
    refine (follows_expression hgoal hdepth).bind fun value next hle hnext => ?_
    exact follows_node _ hle hnext _
  | false =>
    have hsame : token.span.through token.span = token.span := by rw [Span.through, Nat.max_self]
    have hspan := does_spanFrom hgoal token.span
    rw [Nat.add_sub_cancel, tokenAt_of_word hword, hsame] at hspan
    have hnothing : track.Does (do return Stmt.returnWith none (← Tape.spanFrom token.span))
        (.returnWith none token.span) (head + 1) (head + 1) := hspan.bind (does_pure _ _)
    exact hnothing.to_follows rfl (Nat.le_refl _) hgoal

theorem follows_nameStatement (hhead : head ≤ track.goal) (name : Token)
    (hdepth : 5 * (track.goal - head) + 1 ≤ depth) :
    track.Follows head head (Tape.nameStatement name depth) (Parser.nameStatement name) := by
  rw [Tape.nameStatement]
  unfold Parser.nameStatement
  refine follows_accept_bind hhead ?_ ?_
  · intro sign hsign
    have hgoal := lt_goal hsign
    refine (follows_expression hgoal (by omega)).bind fun value next hle hnext => ?_
    exact follows_pure _ (by omega) hnext
  have hkinds (token : Token) : token.kind ∈ [.symbol .increment, .symbol .decrement] ↔
      (Parser.updateOp token.kind).isSome := by
    cases token.kind with
    | symbol symbol => cases symbol <;> decide
    | _ => simp [Parser.updateOp]
  refine follows_takeIf_bind hhead hkinds ?_ ?_
  · intro sign op hsign hop
    refine (does_previous_of_word hsign).follows_same ?_
    have hnode := follows_node (Stmt.update name.lexeme op) (Nat.le_succ head) (lt_goal hsign)
      name.span
    unfold Parser.updateOp at hop
    split at hop
    · next hkind =>
      cases hop
      rw [hkind]
      exact hnode
    · next hkind =>
      cases hop
      rw [hkind]
      exact hnode
    · cases hop
  refine follows_check_bind hhead ?_ (follows_unmet hhead _)
  refine (follows_arguments hhead _ hdepth).bind fun args next hle hnext => ?_
  exact follows_node _ hle hnext _

/-- From where at most `bound` words are left, but at least one, a statement is read as `nested`
    reads it, and takes a word. -/
def StatementWithin (track : Track) (bound : Nat) (nested : Parser Stmt) : Prop :=
  ∀ depth, ∀ head < track.goal, track.goal - head ≤ bound →
    5 * (track.goal - head) + 1 ≤ depth →
    track.Follows (head + 1) head (Tape.statement depth) nested

section

variable {nested : Parser Stmt} (hnested : track.StatementWithin bound nested)

include hnested

theorem follows_terminated (hhead : head < track.goal) (hleft : track.goal - head ≤ bound)
    (hdepth : 5 * (track.goal - head) + 2 ≤ depth) :
    track.Follows (head + 1) head (Tape.terminated depth) (Parser.terminated nested) := by
  cases depth with
  | zero => omega
  | succ depth =>
    rw [Tape.terminated, Parser.terminated]
    refine (hnested depth head hhead hleft (by omega)).bind fun first next hle hnext => ?_
    exact follows_skip_bind hnext fun last hlast hgoal => follows_pure first (by omega) hgoal

theorem follows_sequence (statements : Nat) :
    track.FollowsWithin 3 (min bound statements) Tape.body
      (Parser.sequence nested statements) := by
  induction statements with
  | zero =>
    refine .of_succ fun depth head hhead hleft hdepth => ?_
    obtain ⟨hbound, hnone⟩ := Nat.le_min.mp hleft
    obtain rfl : head = track.goal := by omega
    have hsees : track.Does Tape.seesStatement (track.tokenAt track.goal).kind.startsStatement
        track.goal track.goal := does_seesStatement hhead
    rw [kind_tokenAt_goal] at hsees
    rw [Tape.body, Parser.sequence]
    exact hsees.follows_same (follows_pure [] (Nat.le_refl _) hhead)
  | succ statements ih =>
    refine .of_succ fun depth head hhead hleft hdepth => ?_
    obtain ⟨hbound, hmore⟩ := Nat.le_min.mp hleft
    rw [Tape.body, Parser.sequence]
    refine follows_seesStatement_bind hhead ?_ (follows_pure [] (Nat.le_refl head) hhead)
    intro hlt
    refine (follows_terminated hnested hlt hbound hdepth).bind fun first next hle hnext => ?_
    have hmin : track.goal - next ≤ min bound statements := Nat.le_min.mpr (by omega)
    refine (ih depth next hnext hmin (by omega)).bind fun rest last hlast hgoal => ?_
    exact follows_pure _ (by omega) hgoal

theorem follows_bodyOf : track.FollowsWithin 3 bound Tape.body (Parser.bodyOf nested) :=
  .of_remaining (follows_sequence hnested)

theorem follows_blockOf : track.FollowsWithin 4 bound Tape.block (Parser.blockOf nested) := by
  refine .of_succ fun depth head hhead hleft hdepth => ?_
  rw [Tape.block, Parser.blockOf]
  refine (follows_bodyOf hnested depth head hhead hleft hdepth).bind fun body next hle hnext => ?_
  exact follows_enclosed body hle hnext _ _

theorem follows_branchOf (keyword : Keyword) :
    track.FollowsWithin 1 bound (Tape.branch keyword) (Parser.branchOf nested keyword) := by
  refine .of_succ fun depth head hhead hleft hdepth => ?_
  rw [Tape.branch, Parser.branchOf]
  refine (follows_expect hhead _ _).bind fun _ first _ hfirst => ?_
  refine (follows_expression hfirst (by omega)).bind fun condition second _ hsecond => ?_
  refine (follows_expect hsecond _ _).bind fun _ third _ hthird => ?_
  refine (follows_expect hthird _ _).bind fun _ fourth _ hfourth => ?_
  refine (follows_blockOf hnested depth fourth hfourth (by omega) (by omega)).bind ?_
  exact fun body last _ hlast => follows_pure _ (by omega) hlast

theorem follows_elifsOf (elifs : Nat) :
    track.FollowsWithin 1 (min bound elifs) Tape.elifs (Parser.elifsOf nested elifs) := by
  induction elifs with
  | zero =>
    refine .of_succ fun depth head hhead hleft hdepth => ?_
    obtain ⟨hbound, hnone⟩ := Nat.le_min.mp hleft
    obtain rfl : head = track.goal := by omega
    rw [Tape.elifs, Parser.elifsOf]
    exact (does_accept_goal _).follows_same (follows_pure [] (Nat.le_refl _) hhead)
  | succ elifs ih =>
    refine .of_succ fun depth head hhead hleft hdepth => ?_
    obtain ⟨hbound, hmore⟩ := Nat.le_min.mp hleft
    rw [Tape.elifs, Parser.elifsOf]
    refine follows_accept_bind hhead ?_ (follows_pure [] (Nat.le_refl head) hhead)
    intro keyword hkeyword
    have hgoal := lt_goal hkeyword
    refine (follows_branchOf hnested .nyanyan depth (head + 1) hgoal (by omega) (by omega)).bind ?_
    intro first next hle hnext
    have hmin : track.goal - next ≤ min bound elifs := Nat.le_min.mpr (by omega)
    refine (ih depth next hnext hmin (by omega)).bind fun rest last hlast hend => ?_
    exact follows_pure _ (by omega) hend

theorem follows_otherwiseOf :
    track.FollowsWithin 1 bound Tape.otherwise (Parser.otherwiseOf nested) := by
  refine .of_succ fun depth head hhead hleft hdepth => ?_
  rw [Tape.otherwise, Parser.otherwiseOf]
  refine follows_accept_bind hhead ?_ (follows_pure none (Nat.le_refl head) hhead)
  intro keyword hkeyword
  have hgoal := lt_goal hkeyword
  refine (follows_expect hgoal _ _).bind fun _ next hle hnext => ?_
  refine (follows_blockOf hnested depth next hnext (by omega) (by omega)).bind ?_
  exact fun body last hlast hend => follows_pure _ (by omega) hend

theorem follows_loopBodyOf :
    track.FollowsWithin 1 bound Tape.loopBody (Parser.loopBodyOf nested) := by
  refine .of_succ fun depth head hhead hleft hdepth => ?_
  rw [Tape.loopBody, Parser.loopBodyOf]
  refine follows_accept_bind hhead ?_ ?_
  · exact fun keyword hkeyword => follows_pure _ (Nat.le_succ head) (lt_goal hkeyword)
  refine follows_accept_bind hhead ?_ ?_
  · exact fun keyword hkeyword => follows_pure _ (Nat.le_succ head) (lt_goal hkeyword)
  refine (follows_expect hhead _ _).bind fun _ next hle hnext => ?_
  refine (follows_blockOf hnested depth next hnext (by omega) (by omega)).bind ?_
  exact fun body last hlast hend => follows_pure _ (by omega) hend

theorem follows_loopOf (first : Span) :
    track.FollowsWithin 1 bound (Tape.loop first) (Parser.loopOf nested first) := by
  refine .of_succ fun depth head hhead hleft hdepth => ?_
  rw [Tape.loop, Parser.loopOf]
  refine (follows_expect hhead _ _).bind fun _ opened _ hopened => ?_
  refine (follows_expression hopened (by omega)).bind fun condition next _ hnext => ?_
  refine (follows_expect hnext _ _).bind fun _ closed _ hclosed => ?_
  refine (follows_loopBodyOf hnested depth closed hclosed (by omega) (by omega)).bind ?_
  exact fun body last _ hlast => follows_node _ (by omega) hlast first

theorem follows_conditionalOf (first : Span) :
    track.FollowsWithin 2 bound (Tape.conditional first) (Parser.conditionalOf nested first) := by
  refine .of_succ fun depth head hhead hleft hdepth => ?_
  rw [Tape.conditional, Parser.conditionalOf]
  refine (follows_branchOf hnested .nyan depth head hhead hleft hdepth).bind ?_
  intro branch next _ hnext
  refine follows_remaining_bind ?_
  have hmin : track.goal - next ≤ min bound (track.goal - next) := Nat.le_min.mpr (by omega)
  refine (follows_elifsOf hnested _ depth next hnext hmin (by omega)).bind ?_
  intro elifs last _ hlast
  refine (follows_otherwiseOf hnested depth last hlast (by omega) (by omega)).bind ?_
  exact fun otherwise final _ hfinal => follows_node _ (by omega) hfinal first

theorem follows_guardedOf (first : Span) :
    track.FollowsWithin 1 bound (Tape.guarded first) (Parser.guardedOf nested first) := by
  refine .of_succ fun depth head hhead hleft hdepth => ?_
  rw [Tape.guarded, Parser.guardedOf]
  refine (follows_expect hhead _ _).bind fun _ opened _ hopened => ?_
  refine (follows_blockOf hnested depth opened hopened (by omega) (by omega)).bind ?_
  intro body next _ hnext
  refine (follows_expect hnext _ _).bind fun _ keyword _ hkeyword => ?_
  refine (follows_expect hkeyword _ _).bind fun _ handling _ hhandling => ?_
  refine (follows_blockOf hnested depth handling hhandling (by omega) (by omega)).bind ?_
  intro handler last _ hlast
  exact follows_node _ (by omega) hlast first

theorem follows_statementFrom {token : Token} (hword : track.words[head]? = some token)
    (hleft : track.goal - (head + 1) ≤ bound)
    (hdepth : 5 * (track.goal - (head + 1)) + 4 ≤ depth) :
    track.Follows (head + 1) (head + 1) (Tape.statementFrom token (depth + 1))
      (Parser.statementFrom nested token) := by
  have hgoal := lt_goal hword
  have hreturn := follows_returnAt hword hdepth
  rw [Tape.statementFrom]
  unfold Parser.statementFrom
  generalize token.kind = kind
  cases kind with
  | keyword keyword =>
    cases keyword with
    | pasu | yamete | motto => exact follows_pure _ (Nat.le_refl _) hgoal
    | sayonara => exact hreturn
    | nani => exact follows_loopOf hnested _ depth _ hgoal hleft (by omega)
    | nyan => exact follows_conditionalOf hnested _ depth _ hgoal hleft (by omega)
    | ganbatte => exact follows_guardedOf hnested _ depth _ hgoal hleft (by omega)
    | purinto =>
      refine (follows_arguments hgoal _ (by omega)).bind fun args next hle hnext => ?_
      exact follows_node _ hle hnext _
    | ohayo =>
      exact (follows_prompt hgoal).bind fun prompt next hle hnext => follows_node _ hle hnext _
    | _ => exact follows_refuse token _ hgoal
  | identifier => exact follows_nameStatement hgoal token (by omega)
  | _ => exact follows_refuse token _ hgoal

end

theorem statementWithin_nestedStatement (bound : Nat) :
    track.StatementWithin bound (Parser.nestedStatement bound) := by
  induction bound with
  | zero => exact fun depth head hhead hleft => absurd hhead (by omega)
  | succ bound ih =>
    intro depth head hhead hleft hdepth
    obtain ⟨token, hword⟩ := exists_word hhead
    obtain ⟨depth, rfl⟩ : ∃ lower, depth = lower + 2 := ⟨depth - 2, by omega⟩
    rw [Tape.statement, Parser.nestedStatement]
    refine (does_advance hword).follows ?_ (follows_statementFrom ih hword (by omega) (by omega))
    exact bind_of_eq_ok (takeIf_cursorAt hword rfl) _

theorem statementWithin_statement : track.StatementWithin track.goal Parser.statement := by
  intro depth head hhead _ hdepth
  refine follows_remaining_bind ?_
  exact statementWithin_nestedStatement _ depth head hhead (Nat.le_refl _) hdepth

end KawaiiLang.Track
