import KawaiiLang.Proofs.Parse.Tape.Track

namespace KawaiiLang

namespace Tape

/-- The operator of a tier that a token stands for. -/
def Tier.operator : Tier → Token.Kind → Option BinaryOp
  | relational => Parser.relational
  | additive => Parser.additive
  | multiplicative => Parser.multiplicative

/-- What stands between the operators of a tier. -/
def Tier.operand : Tier → Nat → Reading Expr
  | relational => level .additive
  | additive => level .multiplicative
  | multiplicative => factor

theorem Tier.mem_kinds_iff (tier : Tier) (kind : Token.Kind) :
    kind ∈ tier.kinds ↔ (tier.operator kind).isSome := by
  cases kind with
  | symbol symbol => cases tier <;> cases symbol <;> decide
  | keyword keyword => cases tier <;> cases keyword <;> decide
  | identifier | string | integer | float | endOfInput => cases tier <;> decide

theorem level_eq (tier : Tier) (depth : Nat) :
    level tier (depth + 1) = do
      let left ← tier.operand depth
      if ← accept tier.kinds then
        let op ← operator
        let right ← level tier depth
        return .binary op left right (left.span.through right.span)
      else
        return left := by
  cases tier <;> rw [level] <;> rfl

/-- What operands take of depth besides the words that are left. -/
def Tier.reserve : Tier → Nat
  | relational => 3
  | additive => 2
  | multiplicative => 1

end Tape

namespace Track

open Tape (Reading Tier)

/-- From where at most `bound` words are left, a reading does what a step of the cursor does. Its
    calls nest at most five times deeper with each word, and `reserve` times besides. -/
def FollowsWithin (track : Track) {α : Type} (reserve bound : Nat) (reading : Nat → Reading α)
    (parser : Parser α) : Prop :=
  ∀ depth, ∀ head ≤ track.goal, track.goal - head ≤ bound →
    5 * (track.goal - head) + reserve ≤ depth → track.Follows head head (reading depth) parser

variable {track : Track} {bound : Nat} {operand : Parser Expr}

/-- A call takes one of the depth from the calls that it makes. -/
theorem FollowsWithin.of_succ {α : Type} {reserve : Nat} {reading : Nat → Reading α}
    {parser : Parser α}
    (hreading : ∀ depth, ∀ head ≤ track.goal, track.goal - head ≤ bound →
      5 * (track.goal - head) + reserve ≤ depth →
      track.Follows head head (reading (depth + 1)) parser) :
    track.FollowsWithin (reserve + 1) bound reading parser := by
  intro depth head hhead hleft hdepth
  cases depth with
  | zero => omega
  | succ depth => exact hreading depth head hhead hleft (Nat.le_of_succ_le_succ hdepth)

/-- A bound that counts the words that are left is one that is never reached. -/
theorem FollowsWithin.of_remaining {α : Type} {reserve : Nat} {reading : Nat → Reading α}
    {parser : Nat → Parser α}
    (hreading : ∀ count, track.FollowsWithin reserve (min bound count) reading (parser count)) :
    track.FollowsWithin reserve bound reading (Parser.remaining >>= parser) := by
  intro depth head hhead hleft hdepth
  refine follows_remaining_bind ?_
  exact hreading _ depth head hhead (Nat.le_min.mpr ⟨hleft, Nat.le_refl _⟩) hdepth

/-- The operator of a tier is what has been read as one. -/
theorem does_operator {head : Nat} {token : Token} {tier : Tier} {op : BinaryOp}
    (hword : track.words[head]? = some token) (hop : tier.operator token.kind = some op) :
    track.Does Tape.operator op (head + 1) (head + 1) := by
  refine (does_previous_of_word hword).bind ?_
  generalize token.kind = kind at hop
  cases tier
  case relational =>
    change Parser.relational kind = some op at hop
    unfold Parser.relational at hop
    split at hop <;> cases hop <;> exact does_pure _ _
  case additive =>
    change Parser.additive kind = some op at hop
    unfold Parser.additive at hop
    split at hop <;> cases hop <;> exact does_pure _ _
  case multiplicative =>
    change Parser.multiplicative kind = some op at hop
    unfold Parser.multiplicative at hop
    split at hop <;> cases hop <;> exact does_pure _ _

/-- One tier of operators follows another. The bound on the number of operators is never
    reached, as each of them takes a word. -/
theorem follows_level (tier : Tier)
    (hoperand : track.FollowsWithin tier.reserve bound tier.operand operand) (operators : Nat) :
    track.FollowsWithin (tier.reserve + 1) (min bound operators) (Tape.level tier)
      (Parser.chain tier.operator operand operators) := by
  induction operators with
  | zero =>
    refine .of_succ fun depth head hhead hleft hdepth => ?_
    obtain ⟨hbound, hnone⟩ := Nat.le_min.mp hleft
    rw [Tape.level_eq, Parser.chain, ← bind_pure operand]
    refine (hoperand depth head hhead hbound hdepth).bind fun left next hle hnext => ?_
    obtain rfl : next = track.goal := by omega
    exact (does_accept_goal tier.kinds).follows_same (follows_pure left hle hnext)
  | succ operators ih =>
    refine .of_succ fun depth head hhead hleft hdepth => ?_
    obtain ⟨hbound, hmore⟩ := Nat.le_min.mp hleft
    rw [Tape.level_eq, Parser.chain]
    refine (hoperand depth head hhead hbound hdepth).bind fun left next hle hnext => ?_
    refine follows_takeIf_bind hnext (fun token => tier.mem_kinds_iff token.kind) ?_
      (follows_pure left hle hnext)
    intro token op hword hop
    refine (does_operator hword hop).follows_same ?_
    have hgoal := lt_goal hword
    have hmin : track.goal - (next + 1) ≤ min bound operators := Nat.le_min.mpr (by omega)
    refine (ih depth (next + 1) hgoal hmin (by omega)).bind fun right last hright hlast => ?_
    exact follows_pure _ (by omega) hlast

theorem follows_tier (tier : Tier)
    (hoperand : track.FollowsWithin tier.reserve bound tier.operand operand) :
    track.FollowsWithin (tier.reserve + 1) bound (Tape.level tier)
      (Parser.tier tier.operator operand) :=
  .of_remaining (follows_level tier hoperand)

theorem follows_expressionOf {factor : Parser Expr}
    (hfactor : track.FollowsWithin 1 bound Tape.factor factor) :
    track.FollowsWithin 4 bound Tape.expression (Parser.expressionOf factor) :=
  follows_tier .relational (follows_tier .additive (follows_tier .multiplicative hfactor))

section

variable {expression : Parser Expr}
  (hexpression : track.FollowsWithin 4 bound Tape.expression expression)

include hexpression

theorem follows_items (commas : Nat) :
    track.FollowsWithin 5 (min bound commas) Tape.items
      (Parser.commaSeparated expression commas) := by
  induction commas with
  | zero =>
    refine .of_succ fun depth head hhead hleft hdepth => ?_
    obtain ⟨hbound, hnone⟩ := Nat.le_min.mp hleft
    rw [Tape.items, Parser.commaSeparated]
    refine (hexpression depth head hhead hbound hdepth).bind fun first next hle hnext => ?_
    obtain rfl : next = track.goal := by omega
    exact (does_accept_goal _).follows_same (follows_pure _ hle hnext)
  | succ commas ih =>
    refine .of_succ fun depth head hhead hleft hdepth => ?_
    obtain ⟨hbound, hmore⟩ := Nat.le_min.mp hleft
    rw [Tape.items, Parser.commaSeparated]
    refine (hexpression depth head hhead hbound hdepth).bind fun first next hle hnext => ?_
    refine follows_accept_bind hnext ?_ (follows_pure _ hle hnext)
    intro comma hcomma
    have hgoal := lt_goal hcomma
    have hmin : track.goal - (next + 1) ≤ min bound commas := Nat.le_min.mpr (by omega)
    refine (ih depth (next + 1) hgoal hmin (by omega)).bind fun rest last hrest hlast => ?_
    exact follows_pure _ (by omega) hlast

theorem follows_argumentsOf (callee : String) :
    track.FollowsWithin 1 bound (Tape.arguments callee)
      (Parser.argumentsOf expression callee) := by
  refine .of_succ fun depth head hhead hleft hdepth => ?_
  rw [Tape.arguments, Parser.argumentsOf]
  refine (follows_expect hhead _ _).bind fun _ next hle hnext => ?_
  refine follows_check_bind hnext ?_ ?_
  · refine (follows_pure [] (Nat.le_refl _) hnext).bind fun args last hlast hgoal => ?_
    exact follows_enclosed args (by omega) hgoal _ _
  · refine follows_remaining_bind ?_
    have hmin : track.goal - next ≤ min bound (track.goal - next) := Nat.le_min.mpr (by omega)
    refine (follows_items hexpression _ depth next hnext hmin (by omega)).bind ?_
    intro args last hlast hgoal
    exact follows_enclosed args (by omega) hgoal _ _

end

theorem follows_prompt {head : Nat} (hhead : head ≤ track.goal) :
    track.Follows head head Tape.prompt Parser.prompt := by
  rw [Tape.prompt, Parser.prompt]
  refine (follows_expect hhead _ _).bind fun _ next hle hnext => ?_
  have hclose {start : Nat} (hle : head ≤ start) (hstart : start ≤ track.goal)
      (text : Option String) :=
    (follows_pure text (Nat.le_refl start) hstart).bind fun text _ hlast hgoal =>
      follows_enclosed text (Nat.le_trans hle hlast) hgoal (.symbol .rightParen) .promptClose
  refine follows_accept_bind hnext ?_ (hclose (by omega) hnext none)
  intro token hword
  refine (does_previous_of_word hword).follows_same ?_
  have hgoal := lt_goal hword
  obtain ⟨kind, lexeme, _ | (_ | _ | _ | _), span, position⟩ := token
  all_goals exact hclose (by omega) hgoal _

/-- The smallest part of an expression that begins with a word follows, if smaller parts do. -/
theorem follows_factorFrom {nested : Parser Expr} (token : Token)
    (hnested : track.FollowsWithin 1 bound Tape.factor nested) :
    track.FollowsWithin 5 bound (Tape.factorFrom token) (Parser.factorFrom nested token) := by
  refine .of_succ fun depth head hhead hleft hdepth => ?_
  have hunary (op : UnaryOp) : track.Follows head head
      (do
        let operand ← Tape.factor depth
        return Expr.unary op operand (token.span.through operand.span))
      (do
        let operand ← nested
        return Expr.unary op operand (token.span.through operand.span)) :=
    (hnested depth head hhead hleft (by omega)).bind fun _ _ hle hnext => follows_pure _ hle hnext
  have hexpression := follows_expressionOf hnested
  have hargs (callee : String) :=
    follows_argumentsOf hexpression callee depth head hhead hleft (by omega)
  rw [Tape.factorFrom]
  unfold Parser.factorFrom
  generalize token.kind = kind
  cases kind with
  | symbol symbol =>
    cases symbol with
    | minus => exact hunary .negate
    | leftParen =>
      refine (hexpression depth head hhead hleft hdepth).bind fun inner next hle hnext => ?_
      refine (follows_expect hnext _ _).bind fun _ last hlast hgoal => ?_
      exact follows_node _ (by omega) hgoal _
    | _ => exact follows_refuse token _ hhead
  | keyword keyword =>
    cases keyword with
    | not => exact hunary .not
    | purinto => exact (hargs _).bind fun args next hle hnext => follows_node _ hle hnext _
    | ohayo =>
      exact (follows_prompt hhead).bind fun prompt next hle hnext => follows_node _ hle hnext _
    | hai | iie => exact follows_pure _ (Nat.le_refl head) hhead
    | _ => exact follows_refuse token _ hhead
  | identifier =>
    -- A name, or a call of it.
    refine follows_check_bind hhead ?_ (follows_pure _ (Nat.le_refl head) hhead)
    exact (hargs _).bind fun args next hle hnext => follows_node _ hle hnext _
  | integer | float | string =>
    cases token.literal with
    | some value => exact follows_pure _ (Nat.le_refl head) hhead
    | none => exact follows_refuse token _ hhead
  | endOfInput => exact follows_refuse token _ hhead

theorem follows_factor (bound : Nat) :
    track.FollowsWithin 1 bound Tape.factor (Parser.factor bound) := by
  induction bound with
  | zero =>
    refine .of_succ fun depth head hhead hleft hdepth => ?_
    obtain rfl : head = track.goal := by omega
    rw [Tape.factor, Parser.factor]
    exact does_atEnd_goal.follows_same (follows_unmet hhead _)
  | succ bound ih =>
    refine .of_succ fun depth head hhead hleft hdepth => ?_
    rw [Tape.factor, Parser.factor]
    obtain ⟨token, hword⟩ | rfl := word_cases hhead
    · have hgoal := lt_goal hword
      have hfrom : track.Follows (head + 1) (head + 1) (Tape.factorFrom token depth)
          (Parser.factorFrom (Parser.factor bound) token) :=
        follows_factorFrom token ih depth (head + 1) hgoal (by omega) (by omega)
      refine (does_atEnd_of_word hword).follows_same ((does_advance hword).follows ?_
        (hfrom.mono (Nat.le_succ head)))
      exact bind_of_eq_ok (takeIf_cursorAt hword rfl) _
    · refine does_atEnd_goal.follows ?_ (follows_unmet hhead _)
      refine bind_of_eq_ok (takeIf_cursorAt_none ?_) _
      intro token hword
      cases words_goal.symm.trans hword

section

variable {depth head : Nat} (hhead : head ≤ track.goal)

include hhead

theorem follows_expression (hdepth : 5 * (track.goal - head) + 4 ≤ depth) :
    track.Follows head head (Tape.expression depth) Parser.expression :=
  follows_remaining_bind
    (follows_expressionOf (follows_factor _) depth head hhead (Nat.le_refl _) hdepth)

theorem follows_arguments (callee : String) (hdepth : 5 * (track.goal - head) + 1 ≤ depth) :
    track.Follows head head (Tape.arguments callee depth) (Parser.arguments callee) := by
  have hfactor : track.FollowsWithin 1 (track.goal - head) Tape.factor _ := follows_factor _
  exact follows_remaining_bind (follows_argumentsOf (follows_expressionOf hfactor) callee depth
    head hhead (Nat.le_refl _) hdepth)

end

end Track
end KawaiiLang
