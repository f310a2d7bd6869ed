import Mathlib.Data.List.Basic
import KawaiiLang.Proofs.Parse.Cursor
import KawaiiLang.Proofs.Parse.Tape.Reader

namespace KawaiiLang

open Tape (Halt Reading)

namespace Tape

variable {α β : Type} {reading : Reading α} {tape next : Tape}

theorem bind_of_eq_ok {a : α} (hreading : reading tape = some (.ok a, next))
    (continuation : α → Reading β) : (reading >>= continuation) tape = continuation a next := by
  change StateT.bind reading _ tape = _
  rw [StateT.bind, hreading]
  rfl

theorem bind_of_eq_error {halt : Halt} (hreading : reading tape = some (.error halt, next))
    (continuation : α → Reading β) :
    (reading >>= continuation) tape = some (.error halt, next) := by
  change StateT.bind reading _ tape = _
  rw [StateT.bind, hreading]
  rfl

end Tape

/-- Tokens with an end mark among them, taken apart at the first one. -/
structure Track where
  words : List Token
  stop : Token
  /-- The tokens behind the end mark, which may be of any kind. -/
  behind : List Token
  stop_kind : stop.kind = .endOfInput
  words_kind : ∀ word ∈ words, word.kind ≠ .endOfInput

namespace Track

variable (track : Track)

def tokens : List Token :=
  track.words ++ track.stop :: track.behind

/-- The index of the first end mark. -/
def goal : Nat :=
  track.words.length

/-- The token number `index`, up to the first end mark. -/
def tokenAt (index : Nat) : Token :=
  track.words[index]?.getD track.stop

/-- The cursor that stands where the head of a tape stands at `head`. -/
def cursorAt (head : Nat) : Cursor :=
  ⟨(track.words.take head).getLast?, track.words.drop head, track.stop⟩

/-- The tape with its head at `head`. -/
def tapeAt (head : Nat) (looks : List Look) : Tape :=
  ⟨track.tokens, head, looks⟩

/-- Neither the head nor the looks went beyond the first end mark. -/
def Within (looks : List Look) : Prop :=
  ∀ look ∈ looks, look.head ≤ track.goal ∧ look.index ≤ track.goal

variable {track}

theorem Within.nil : track.Within [] :=
  nofun

theorem Within.append {first second : List Look} (hfirst : track.Within first)
    (hsecond : track.Within second) : track.Within (first ++ second) :=
  List.forall_mem_append.mpr ⟨hfirst, hsecond⟩

section

variable {head index : Nat} {token : Token}

theorem getElem?_tokens (hindex : index ≤ track.goal) :
    track.tokens[index]? = some (track.tokenAt index) := by
  obtain hlt | rfl := Nat.lt_or_eq_of_le hindex
  · rw [tokens, List.getElem?_append_left hlt, tokenAt, List.getElem?_eq_getElem hlt,
      Option.getD_some]
  · rw [tokens, tokenAt, goal, List.getElem?_append_right (Nat.le_refl _), Nat.sub_self,
      List.getElem?_cons_zero, List.getElem?_eq_none (Nat.le_refl _), Option.getD_none]

theorem goal_le_length : track.goal ≤ track.tokens.length - 1 := by
  rw [tokens, goal, List.length_append, List.length_cons]
  omega

theorem lt_goal (hword : track.words[head]? = some token) : head < track.goal :=
  (List.getElem?_eq_some_iff.mp hword).1

theorem exists_word (hhead : head < track.goal) : ∃ token, track.words[head]? = some token :=
  ⟨_, List.getElem?_eq_getElem hhead⟩

theorem tokenAt_of_word (hword : track.words[head]? = some token) : track.tokenAt head = token := by
  rw [tokenAt, hword, Option.getD_some]

theorem words_goal : track.words[track.goal]? = none :=
  List.getElem?_eq_none (Nat.le_refl _)

theorem kind_word (hword : track.words[head]? = some token) : token.kind ≠ .endOfInput :=
  track.words_kind token (List.mem_of_getElem? hword)

theorem kind_tokenAt_goal : (track.tokenAt track.goal).kind = .endOfInput := by
  rw [tokenAt, words_goal, Option.getD_none, track.stop_kind]

/-- Where the end has not been reached there is a word, and where it has there is none. -/
theorem word_cases (hhead : head ≤ track.goal) :
    (∃ token, track.words[head]? = some token) ∨ head = track.goal := by
  obtain hlt | rfl := Nat.lt_or_eq_of_le hhead
  · exact .inl (exists_word hlt)
  · exact .inr rfl

theorem head?_rest (head : Nat) : (track.cursorAt head).rest.head? = track.words[head]? :=
  List.head?_drop

theorem rest_of_word (hword : track.words[head]? = some token) :
    (track.cursorAt head).rest = token :: (track.cursorAt (head + 1)).rest := by
  obtain ⟨hlt, rfl⟩ := List.getElem?_eq_some_iff.mp hword
  exact List.drop_eq_getElem_cons hlt

theorem rest_goal : (track.cursorAt track.goal).rest = [] :=
  List.drop_length

@[simp] theorem length_rest (head : Nat) :
    (track.cursorAt head).rest.length = track.goal - head :=
  List.length_drop

theorem current_cursorAt (head : Nat) : (track.cursorAt head).current = track.tokenAt head := by
  rw [Cursor.current, List.headD_eq_head?_getD, head?_rest]
  rfl

theorem following_cursorAt (head : Nat) :
    (track.cursorAt head).following = track.tokenAt (head + 1) := by
  rw [Cursor.following, List.headD_eq_head?_getD]
  change ((track.words.drop head).tail.head?).getD track.stop = _
  rw [List.tail_drop, List.head?_drop]
  rfl

/-- The token in front of the head is the one read last. -/
theorem last_cursorAt (hword : track.words[head]? = some token) :
    (track.cursorAt (head + 1)).last = some token := by
  rw [cursorAt, List.take_add_one, hword]
  simp

/-- In front of the first token it is itself what counts as the one read last. -/
theorem lastSpan_cursorAt (hhead : head ≤ track.goal) :
    (track.cursorAt head).lastSpan = (track.tokenAt (head - 1)).span := by
  rw [Cursor.lastSpan]
  cases head with
  | zero => rw [current_cursorAt, cursorAt, List.take_zero]; rfl
  | succ head =>
    obtain ⟨token, hword⟩ : ∃ token, track.words[head]? = some token := exists_word hhead
    rw [last_cursorAt hword, Nat.add_sub_cancel, tokenAt_of_word hword, Option.getD_some]

/-- Reading a word moves the cursor as it moves the head. -/
theorem movedTo_cursorAt (hword : track.words[head]? = some token) :
    (track.cursorAt head).movedTo (track.cursorAt (head + 1)).rest = track.cursorAt (head + 1) := by
  rw [Cursor.movedTo_of_eq_append [token] (rest_of_word hword)]
  change Cursor.mk (some token) _ _ = _
  rw [← last_cursorAt hword]
  rfl

end

section

variable (track) {α β : Type}

/-- From `head` on, a reading ends with `outcome` and leaves the head at `next`. -/
def Yields (reading : Reading α) (outcome : Except Halt α) (head next : Nat) : Prop :=
  ∀ looks, ∃ more, track.Within more ∧
    reading (track.tapeAt head looks) = some (outcome, track.tapeAt next (looks ++ more))

/-- From `head` on, a reading gives `a` and leaves the head at `next`. -/
def Does (reading : Reading α) (a : α) (head next : Nat) : Prop :=
  track.Yields reading (.ok a) head next

/-- A reading ends as a step of a cursor does, with the head where the cursor stands, and at least
    at `least` unless it fails. -/
inductive Ends (least head : Nat) (reading : Reading α) :
    EStateM.Result SyntaxError Cursor α → Prop where
  | ok {a : α} {next : Nat} (hleast : least ≤ next) (hnext : next ≤ track.goal)
      (hdoes : track.Does reading a head next) :
      Ends least head reading (.ok a (track.cursorAt next))
  | error {error : SyntaxError} {next : Nat} (hnext : next ≤ track.goal)
      (hyields : track.Yields reading (.error (.wrong error)) head next) :
      Ends least head reading (.error error (track.cursorAt next))

/-- From `head` on, a reading of the tape does what a step of the cursor does. -/
def Follows (least head : Nat) (reading : Reading α) (parser : Parser α) : Prop :=
  track.Ends least head reading (parser (track.cursorAt head))

end

section

variable {α β : Type} {head next last least : Nat} {reading : Reading α} {parser : Parser α}

theorem does_pure (a : α) (head : Nat) : track.Does (pure a) a head head := by
  intro looks
  refine ⟨[], .nil, ?_⟩
  rw [List.append_nil]
  rfl

theorem yields_throw (halt : Halt) (head : Nat) :
    track.Yields (throw halt : Reading α) (.error halt) head head := by
  intro looks
  refine ⟨[], .nil, ?_⟩
  rw [List.append_nil]
  rfl

theorem Does.bind_yields {a : α} {outcome : Except Halt β} {continuation : α → Reading β}
    (hreading : track.Does reading a head next)
    (hnext : track.Yields (continuation a) outcome next last) :
    track.Yields (reading >>= continuation) outcome head last := by
  intro looks
  obtain ⟨first, hfirst, hrun⟩ := hreading looks
  obtain ⟨second, hsecond, hlast⟩ := hnext (looks ++ first)
  refine ⟨first ++ second, hfirst.append hsecond, ?_⟩
  rw [Tape.bind_of_eq_ok hrun, hlast, List.append_assoc]

theorem Does.bind {a : α} {b : β} {continuation : α → Reading β}
    (hreading : track.Does reading a head next) (hnext : track.Does (continuation a) b next last) :
    track.Does (reading >>= continuation) b head last :=
  hreading.bind_yields hnext

theorem Yields.bind {halt : Halt} (hreading : track.Yields reading (.error halt) head next)
    (continuation : α → Reading β) :
    track.Yields (reading >>= continuation) (.error halt) head next := by
  intro looks
  obtain ⟨more, hmore, hrun⟩ := hreading looks
  exact ⟨more, hmore, Tape.bind_of_eq_error hrun continuation⟩

theorem Ends.of_does {a : α} {continuation : α → Reading β}
    {result : EStateM.Result SyntaxError Cursor β} (hreading : track.Does reading a head next)
    (hends : track.Ends least next (continuation a) result) :
    track.Ends least head (reading >>= continuation) result := by
  cases hends with
  | ok hleast hlast hdoes => exact .ok hleast hlast (hreading.bind hdoes)
  | error hlast hyields => exact .error hlast (hreading.bind_yields hyields)

/-- A reading that does what a step of the cursor does follows it. -/
theorem Does.to_follows {a : α} (hreading : track.Does reading a head next)
    (hparser : parser (track.cursorAt head) = .ok a (track.cursorAt next)) (hleast : least ≤ next)
    (hnext : next ≤ track.goal) : track.Follows least head reading parser := by
  rw [Follows, hparser]
  exact .ok hleast hnext hreading

theorem follows_pure (a : α) (hleast : least ≤ head) (hhead : head ≤ track.goal) :
    track.Follows least head (pure a) (pure a) :=
  (does_pure a head).to_follows rfl hleast hhead

theorem Follows.bind {middle : Nat} {continuation : α → Reading β} {after : α → Parser β}
    (hreading : track.Follows middle head reading parser)
    (hnext : ∀ a next, middle ≤ next → next ≤ track.goal →
      track.Follows least next (continuation a) (after a)) :
    track.Follows least head (reading >>= continuation) (parser >>= after) := by
  rw [Follows] at hreading ⊢
  generalize hparse : parser (track.cursorAt head) = result at hreading
  cases hreading with
  | ok hmiddle hgoal hdoes =>
    rw [bind_of_eq_ok hparse]
    exact .of_does hdoes (hnext _ _ hmiddle hgoal)
  | error hgoal hyields =>
    rw [bind_of_eq_error hparse]
    exact .error hgoal (hyields.bind continuation)

theorem Follows.mono {least' : Nat} (hfollows : track.Follows least head reading parser)
    (hleast : least' ≤ least) : track.Follows least' head reading parser := by
  rw [Follows] at hfollows ⊢
  generalize parser (track.cursorAt head) = result at hfollows ⊢
  cases hfollows with
  | ok hle hnext hdoes => exact .ok (Nat.le_trans hleast hle) hnext hdoes
  | error hnext hyields => exact .error hnext hyields

/-- What a reading does without a step of the cursor, or as such steps do, can be passed over. -/
theorem Does.follows {a : α} {continuation : α → Reading β} {step after : Parser β}
    (hreading : track.Does reading a head next)
    (hstep : step (track.cursorAt head) = after (track.cursorAt next))
    (hnext : track.Follows least next (continuation a) after) :
    track.Follows least head (reading >>= continuation) step := by
  rw [Follows, hstep]
  exact .of_does hreading hnext

/-- The same, where the cursor does not move. -/
theorem Does.follows_same {a : α} {continuation : α → Reading β} {step : Parser β}
    (hreading : track.Does reading a head head)
    (hnext : track.Follows least head (continuation a) step) :
    track.Follows least head (reading >>= continuation) step :=
  hreading.follows rfl hnext

theorem Follows.congr {step : Parser α}
    (hstep : step (track.cursorAt head) = parser (track.cursorAt head))
    (hfollows : track.Follows least head reading parser) :
    track.Follows least head reading step := by
  rwa [Follows, hstep]

theorem follows_throw {error : SyntaxError} (hhead : head ≤ track.goal)
    (hparser : parser (track.cursorAt head) = .error error (track.cursorAt head)) :
    track.Follows least head (throw (.wrong error)) parser := by
  rw [Follows, hparser]
  exact .error hhead (yields_throw _ head)

theorem follows_refuse (token : Token) (fault : SyntaxFault) (hhead : head ≤ track.goal) :
    track.Follows least head (Tape.refuse token fault : Reading α) (Parser.refuse token fault) :=
  follows_throw hhead rfl

end

section

variable {α : Type} {head least : Nat} {token : Token} {kind : Token.Kind}

theorem does_look {index : Nat} (hhead : head ≤ track.goal) (hindex : index ≤ track.goal) :
    track.Does (Tape.look index) (track.tokenAt index) head head := by
  intro looks
  refine ⟨[⟨head, index⟩], List.forall_mem_singleton.mpr ⟨hhead, hindex⟩, ?_⟩
  change Tape.found track.tokens[index]? _ = _
  rw [getElem?_tokens hindex]
  rfl

theorem does_peek (hhead : head ≤ track.goal) :
    track.Does Tape.peek (track.tokenAt head) head head := by
  intro looks
  change ∃ more, _ ∧ Tape.look (min head (track.tokens.length - 1)) _ = _
  rw [Nat.min_eq_left (Nat.le_trans hhead goal_le_length)]
  exact does_look hhead hhead looks

theorem does_peekNext (hhead : head < track.goal) :
    track.Does Tape.peekNext (track.tokenAt (head + 1)) head head := by
  intro looks
  change ∃ more, _ ∧ Tape.look (min (head + 1) (track.tokens.length - 1)) _ = _
  rw [Nat.min_eq_left (Nat.le_trans hhead goal_le_length)]
  exact does_look (Nat.le_of_lt hhead) hhead looks

theorem does_previous (hhead : head ≤ track.goal) :
    track.Does Tape.previous (track.tokenAt (head - 1)) head head :=
  fun looks => does_look hhead (Nat.le_trans (Nat.sub_le head 1) hhead) looks

/-- Behind a word it is the one read last. -/
theorem does_previous_of_word (hword : track.words[head]? = some token) :
    track.Does Tape.previous token (head + 1) (head + 1) := by
  have hprevious : track.Does Tape.previous (track.tokenAt head) (head + 1) (head + 1) :=
    does_previous (lt_goal hword)
  rwa [tokenAt_of_word hword] at hprevious

theorem does_atEnd_of_word (hword : track.words[head]? = some token) :
    track.Does Tape.atEnd false head head := by
  have hkind := kind_word hword
  have hpeek : track.Does Tape.peek (track.tokenAt head) head head :=
    does_peek (Nat.le_of_lt (lt_goal hword))
  rw [tokenAt_of_word hword] at hpeek
  refine hpeek.bind ?_
  rw [decide_eq_false hkind]
  exact does_pure false head

theorem does_atEnd_goal : track.Does Tape.atEnd true track.goal track.goal := by
  refine (does_peek (Nat.le_refl _)).bind ?_
  rw [decide_eq_true kind_tokenAt_goal]
  exact does_pure true track.goal

theorem does_check_of_word (hword : track.words[head]? = some token) (kind : Token.Kind) :
    track.Does (Tape.check kind) (decide (token.kind = kind)) head head := by
  have hpeek : track.Does Tape.peek (track.tokenAt head) head head :=
    does_peek (Nat.le_of_lt (lt_goal hword))
  rw [tokenAt_of_word hword] at hpeek
  exact (does_atEnd_of_word hword).bind (hpeek.bind (does_pure _ head))

theorem does_check_goal (kind : Token.Kind) :
    track.Does (Tape.check kind) false track.goal track.goal :=
  does_atEnd_goal.bind (does_pure false track.goal)

theorem does_check (hhead : head ≤ track.goal) (kind : Token.Kind) :
    track.Does (Tape.check kind) ((track.cursorAt head).rest.head?.any (·.kind = kind)) head
      head := by
  rw [head?_rest]
  obtain ⟨token, hword⟩ | rfl := word_cases hhead
  · rw [hword]
    exact does_check_of_word hword kind
  · rw [words_goal]
    exact does_check_goal kind

/-- Moving the head is no look. -/
theorem does_move (head next : Nat) :
    track.Does (modify fun tape => { tape with head := next }) () head next := by
  intro looks
  refine ⟨[], .nil, ?_⟩
  rw [List.append_nil]
  rfl

theorem does_advance (hword : track.words[head]? = some token) :
    track.Does Tape.advance token head (head + 1) := by
  have hmove : track.Does (modify fun tape => { tape with head := tape.head + 1 }) () head
      (head + 1) := does_move head (head + 1)
  exact (does_atEnd_of_word hword).bind (hmove.bind (does_previous_of_word hword))

theorem does_accept_of_mem (hword : track.words[head]? = some token) {kinds : List Token.Kind}
    (hkind : token.kind ∈ kinds) : track.Does (Tape.accept kinds) true head (head + 1) := by
  induction kinds with
  | nil => cases hkind
  | cons kind kinds ih =>
    have hcheck := does_check_of_word hword kind
    by_cases hsame : token.kind = kind
    · rw [decide_eq_true hsame] at hcheck
      exact hcheck.bind ((does_advance hword).bind (does_pure true (head + 1)))
    · rw [decide_eq_false hsame] at hcheck
      exact hcheck.bind (ih ((List.mem_cons.mp hkind).resolve_left hsame))

theorem does_accept_of_not_mem (hword : track.words[head]? = some token)
    {kinds : List Token.Kind} (hkind : token.kind ∉ kinds) :
    track.Does (Tape.accept kinds) false head head := by
  induction kinds with
  | nil => exact does_pure false head
  | cons kind kinds ih =>
    obtain ⟨hother, hkinds⟩ := not_or.mp fun hmem => hkind (List.mem_cons.mpr hmem)
    have hcheck := does_check_of_word hword kind
    rw [decide_eq_false hother] at hcheck
    exact hcheck.bind (ih hkinds)

theorem does_accept_goal (kinds : List Token.Kind) :
    track.Does (Tape.accept kinds) false track.goal track.goal := by
  induction kinds with
  | nil => exact does_pure false track.goal
  | cons kind kinds ih => exact (does_check_goal kind).bind ih

theorem does_get_bind {a : α} {next : Nat} {continuation : Tape → Reading α}
    (hcontinuation : ∀ looks,
      track.Does (continuation (track.tapeAt head looks)) a head next) :
    track.Does (get >>= continuation) a head next :=
  fun looks => hcontinuation looks looks

/-- An error at the end is shown behind the last word, if there is one. -/
theorem does_errorSpan (hhead : head ≤ track.goal) :
    track.Does (Tape.errorSpan (track.tokenAt head)) (track.cursorAt head).errorSpan head head := by
  obtain ⟨token, hword⟩ | rfl := word_cases hhead
  · have hspan : (track.cursorAt head).errorSpan = (track.tokenAt head).span := by
      rw [Cursor.errorSpan, rest_of_word hword, current_cursorAt]
    rw [hspan]
    exact (does_atEnd_of_word hword).bind (does_pure _ head)
  refine does_atEnd_goal.bind (does_get_bind fun _ => ?_)
  rw [Cursor.errorSpan, rest_goal, current_cursorAt]
  change track.Does (if track.goal > 0 then _ else _) _ _ _
  split
  · next hgoal =>
    obtain ⟨token, hword⟩ : ∃ token, track.words[track.goal - 1]? = some token :=
      exists_word (Nat.sub_lt hgoal Nat.one_pos)
    have hlast : (track.cursorAt track.goal).last = some token := by
      have hlast := last_cursorAt hword
      rwa [Nat.sub_add_cancel hgoal] at hlast
    have hlook : track.Does (Tape.look (track.goal - 1)) (track.tokenAt (track.goal - 1)) track.goal
        track.goal := does_look (Nat.le_refl _) (Nat.sub_le track.goal 1)
    rw [tokenAt_of_word hword] at hlook
    rw [hlast]
    exact hlook.bind (does_pure _ _)
  · next hgoal =>
    have hlast : (track.cursorAt track.goal).last = none := by
      rw [Nat.eq_zero_of_not_pos hgoal]
      rfl
    rw [hlast]
    exact does_pure _ _

theorem follows_unmet (hhead : head ≤ track.goal) (expectation : Expectation) :
    track.Follows least head (Tape.unmet expectation : Reading α) (Parser.unmet expectation) := by
  refine (does_peek hhead).follows_same ((does_errorSpan hhead).follows_same ?_)
  rw [← current_cursorAt]
  exact follows_throw hhead rfl

theorem takeIf_cursorAt {select : Token → Option α} {value : α}
    (hword : track.words[head]? = some token) (hselect : select token = some value) :
    Parser.takeIf select (track.cursorAt head) = .ok (some value) (track.cursorAt (head + 1)) := by
  rw [Parser.takeIf_of_eq_some (rest_of_word hword) hselect, movedTo_cursorAt hword]

theorem takeIf_cursorAt_none {select : Token → Option α}
    (hselect : ∀ token, track.words[head]? = some token → select token = none) :
    Parser.takeIf select (track.cursorAt head) = .ok none (track.cursorAt head) := by
  refine Parser.takeIf_of_eq_none fun token htoken => hselect token ?_
  rwa [head?_rest] at htoken

end

section

variable {α β : Type} {head least : Nat}

theorem follows_atEnd_bind {first second : Reading α} {next : Bool → Parser α}
    (hhead : head ≤ track.goal)
    (hfirst : head = track.goal → track.Follows least head first (next true))
    (hsecond : head < track.goal → track.Follows least head second (next false)) :
    track.Follows least head (do if ← Tape.atEnd then first else second)
      (Parser.atEnd >>= next) := by
  have hstep : (Parser.atEnd >>= next) (track.cursorAt head) =
      next (track.cursorAt head).rest.isEmpty (track.cursorAt head) :=
    bind_of_eq_ok (Parser.atEnd_apply _) next
  obtain ⟨token, hword⟩ | rfl := word_cases hhead
  · rw [rest_of_word hword] at hstep
    exact (does_atEnd_of_word hword).follows hstep (hsecond (lt_goal hword))
  · rw [rest_goal] at hstep
    exact does_atEnd_goal.follows hstep (hfirst rfl)

/-- Counting the words that are left is nothing that a tape has to do. -/
theorem follows_remaining_bind {reading : Reading α} {next : Nat → Parser α}
    (hnext : track.Follows least head reading (next (track.goal - head))) :
    track.Follows least head reading (Parser.remaining >>= next) := by
  refine Follows.congr (bind_of_eq_ok (Parser.remaining_apply _) next) ?_
  rwa [length_rest]

theorem follows_check_bind {kind : Token.Kind} {first second : Reading α}
    {next : Bool → Parser α} (hhead : head ≤ track.goal)
    (hfirst : track.Follows least head first (next true))
    (hsecond : track.Follows least head second (next false)) :
    track.Follows least head (do if ← Tape.check kind then first else second)
      (Parser.sees kind >>= next) := by
  refine (does_check hhead kind).follows (bind_of_eq_ok (Parser.sees_apply kind _) next) ?_
  cases (track.cursorAt head).rest.head?.any (·.kind = kind) with
  | true => exact hfirst
  | false => exact hsecond

section

variable {kinds : List Token.Kind} {select : Token → Option α} (hhead : head ≤ track.goal)
  (hkinds : ∀ token, token.kind ∈ kinds ↔ (select token).isSome)

include hhead hkinds

/-- Either the next word is read in both ways, or in none. -/
theorem accept_cases :
    (∃ token value, track.words[head]? = some token ∧ select token = some value ∧
      track.Does (Tape.accept kinds) true head (head + 1) ∧
      Parser.takeIf select (track.cursorAt head) =
        .ok (some value) (track.cursorAt (head + 1))) ∨
    track.Does (Tape.accept kinds) false head head ∧
      Parser.takeIf select (track.cursorAt head) = .ok none (track.cursorAt head) := by
  obtain ⟨token, hword⟩ | rfl := word_cases hhead
  · cases hselect : select token with
    | some value =>
      have hkind : token.kind ∈ kinds := (hkinds token).mpr (by rw [hselect, Option.isSome_some])
      exact .inl ⟨token, value, hword, hselect, does_accept_of_mem hword hkind,
        takeIf_cursorAt hword hselect⟩
    | none =>
      have hkind : token.kind ∉ kinds := by
        rw [hkinds token, hselect]
        exact Bool.false_ne_true
      refine .inr ⟨does_accept_of_not_mem hword hkind, takeIf_cursorAt_none ?_⟩
      intro other hother
      cases hword.symm.trans hother
      exact hselect
  · refine .inr ⟨does_accept_goal kinds, takeIf_cursorAt_none ?_⟩
    intro token htoken
    cases words_goal.symm.trans htoken

theorem follows_takeIf_bind {first second : Reading β} {next : Option α → Parser β}
    (hfirst : ∀ token value, track.words[head]? = some token → select token = some value →
      track.Follows least (head + 1) first (next (some value)))
    (hsecond : track.Follows least head second (next none)) :
    track.Follows least head (do if ← Tape.accept kinds then first else second)
      (Parser.takeIf select >>= next) := by
  obtain ⟨token, value, hword, hselect, haccept, htake⟩ | ⟨haccept, htake⟩ :=
    accept_cases hhead hkinds
  · exact haccept.follows (bind_of_eq_ok htake next) (hfirst token value hword hselect)
  · exact haccept.follows (bind_of_eq_ok htake next) hsecond

end

theorem mem_singleton_iff_isSome (kind : Token.Kind) (token : Token) :
    token.kind ∈ [kind] ↔ (if token.kind = kind then some token else none).isSome := by
  rw [List.mem_singleton]
  split <;> simp [*]

theorem follows_accept_bind {kind : Token.Kind} {first second : Reading β}
    {next : Option Token → Parser β} (hhead : head ≤ track.goal)
    (hfirst : ∀ token, track.words[head]? = some token →
      track.Follows least (head + 1) first (next (some token)))
    (hsecond : track.Follows least head second (next none)) :
    track.Follows least head (do if ← Tape.accept [kind] then first else second)
      (Parser.accept kind >>= next) := by
  refine follows_takeIf_bind hhead (mem_singleton_iff_isSome kind) ?_ hsecond
  intro token value hword hselect
  split at hselect
  · cases hselect
    exact hfirst token hword
  · cases hselect

/-- A token that may come next but need not, and what is read behind it. -/
theorem follows_skip_bind {kind : Token.Kind} {reading : Reading β} {parser : Parser β}
    (hhead : head ≤ track.goal)
    (hnext : ∀ next, head ≤ next → next ≤ track.goal → track.Follows least next reading parser) :
    track.Follows least head (Tape.accept [kind] >>= fun _ => reading)
      (Parser.accept kind >>= fun _ => parser) := by
  obtain ⟨token, value, hword, _, haccept, htake⟩ | ⟨haccept, htake⟩ :=
    accept_cases hhead (mem_singleton_iff_isSome kind)
  · exact haccept.follows (bind_of_eq_ok htake _) (hnext _ (Nat.le_succ head) (lt_goal hword))
  · exact haccept.follows (bind_of_eq_ok htake _) (hnext head (Nat.le_refl head) hhead)

theorem follows_expect (hhead : head ≤ track.goal) (kind : Token.Kind)
    (expectation : Expectation) :
    track.Follows (head + 1) head (Tape.expect kind expectation)
      (Parser.expect kind expectation) := by
  have hcheck := does_check hhead kind
  by_cases hkind : ∃ token, track.words[head]? = some token ∧ token.kind = kind
  · obtain ⟨token, hword, hkind⟩ := hkind
    rw [head?_rest, hword, Option.any_some, decide_eq_true hkind] at hcheck
    have htake : Parser.accept kind (track.cursorAt head) =
        .ok (some token) (track.cursorAt (head + 1)) := takeIf_cursorAt hword (if_pos hkind)
    exact (hcheck.bind (does_advance hword)).to_follows (bind_of_eq_ok htake _) (Nat.le_refl _)
      (lt_goal hword)
  · have hother : ∀ token, track.words[head]? = some token → token.kind ≠ kind :=
      fun token hword hsame => hkind ⟨token, hword, hsame⟩
    have hnone : (track.cursorAt head).rest.head?.any (·.kind = kind) = false := by
      rw [head?_rest]
      cases hword : track.words[head]? with
      | none => rfl
      | some token => exact decide_eq_false (hother token hword)
    have htake : Parser.accept kind (track.cursorAt head) = .ok none (track.cursorAt head) :=
      takeIf_cursorAt_none fun token hword => if_neg (hother token hword)
    rw [hnone] at hcheck
    exact hcheck.follows (bind_of_eq_ok htake _) (follows_unmet hhead expectation)

/-- What has been read, in front of a token that has to come next. -/
theorem follows_enclosed (value : α) (hleast : least ≤ head) (hhead : head ≤ track.goal)
    (kind : Token.Kind) (expectation : Expectation) :
    track.Follows least head (do let _ ← Tape.expect kind expectation; return value)
      (do let _ ← Parser.expect kind expectation; return value) :=
  (follows_expect hhead kind expectation).bind fun _ _ hle hnext =>
    follows_pure value (Nat.le_trans hleast (Nat.le_of_succ_le hle)) hnext

theorem does_spanFrom (hhead : head ≤ track.goal) (first : Span) :
    track.Does (Tape.spanFrom first) (first.through (track.tokenAt (head - 1)).span) head head :=
  (does_previous hhead).bind (does_pure _ head)

theorem follows_spanFrom (hhead : head ≤ track.goal) (first : Span) :
    track.Follows head head (Tape.spanFrom first) (Parser.spanFrom first) := by
  refine (does_spanFrom hhead first).to_follows ?_ (Nat.le_refl head) hhead
  rw [← lastSpan_cursorAt hhead]
  rfl

/-- A node that spans from `first` to the token read last. -/
theorem follows_node (node : Span → α) (hleast : least ≤ head) (hhead : head ≤ track.goal)
    (first : Span) :
    track.Follows least head (do return node (← Tape.spanFrom first))
      (do return node (← Parser.spanFrom first)) :=
  (follows_spanFrom hhead first).bind fun _ _ hle hgoal =>
    follows_pure _ (Nat.le_trans hleast hle) hgoal

end

end Track
end KawaiiLang
