import KawaiiLang.Proofs.Eval.Session
import KawaiiLang.Proofs.Eval.Trace

namespace KawaiiLang

/-- The ways in which control can leave a statement early, other than by an error. -/
inductive Signal where
  | returned
  | broke
  | continued

/-- The signal with which an outcome leaves a statement. -/
def Outcome.signal? : Outcome → Option Signal
  | normal => none
  | returned _ => some .returned
  | broke => some .broke
  | continued => some .continued

/-- The statement has a word for the signal of its own, from which the signal gets out of it:
    a break or a continue through branches and guarded blocks alone, and a return through loops
    as well. What a function does that is called in the statement is no part of it. -/
inductive Stmt.Carries : Stmt → Signal → Prop where
  | breakLoop {span : Span} : Carries (.breakLoop span) .broke
  | continueLoop {span : Span} : Carries (.continueLoop span) .continued
  | returnWith {value : Option Expr} {span : Span} : Carries (.returnWith value span) .returned
  | loop {condition : Expr} {body : List Stmt} {span : Span} {inner : Stmt} (hinner : inner ∈ body)
      (hcarries : Carries inner .returned) : Carries (.loop condition (.block body) span) .returned
  | branch {signal : Signal} {condition : Expr} {body : List Stmt} {elifs : List (Expr × List Stmt)}
      {otherwise : Option (List Stmt)} {span : Span} {branch : Expr × List Stmt} {inner : Stmt}
      (hbranch : branch ∈ (condition, body) :: elifs) (hinner : inner ∈ branch.2)
      (hcarries : Carries inner signal) : Carries (.branch condition body elifs otherwise span) signal
  | otherwise {signal : Signal} {condition : Expr} {body last : List Stmt}
      {elifs : List (Expr × List Stmt)} {span : Span} {inner : Stmt} (hinner : inner ∈ last)
      (hcarries : Carries inner signal) :
      Carries (.branch condition body elifs (some last) span) signal
  | guarded {signal : Signal} {body handler : List Stmt} {span : Span} {inner : Stmt}
      (hinner : inner ∈ body) (hcarries : Carries inner signal) :
      Carries (.guarded body handler span) signal
  | handler {signal : Signal} {body handler : List Stmt} {span : Span} {inner : Stmt}
      (hinner : inner ∈ handler) (hcarries : Carries inner signal) :
      Carries (.guarded body handler span) signal

/-- One of the statements carries the signal. -/
def BodyCarries (body : List Stmt) (signal : Signal) : Prop :=
  ∃ statement ∈ body, statement.Carries signal

/-- A round of a loop carries the signal. -/
def LoopBody.Carries : LoopBody → Signal → Prop
  | breakOnly, signal => signal = .broke
  | continueOnly, signal => signal = .continued
  | block body, signal => BodyCarries body signal

namespace Eval

/-- Whatever signal the computation ends with is one of those. -/
def Signals (signals : Signal → Prop) (computation : Eval Outcome) : Prop :=
  ∀ machine outcome next, computation machine = .ok outcome next →
    ∀ signal ∈ outcome.signal?, signals signal

variable {signals : Signal → Prop}

theorem signals_pure {outcome : Outcome} (houtcome : ∀ signal ∈ outcome.signal?, signals signal) :
    Signals signals (pure outcome) := by
  rintro machine _ _ ⟨⟩
  exact houtcome

/-- What comes before the last step gives no signal. -/
theorem signals_bind {α : Type} {step : Eval α} {next : α → Eval Outcome}
    (hnext : ∀ value, Signals signals (next value)) : Signals signals (step >>= next) := by
  intro machine outcome final hresult
  obtain ⟨value, middle, _, hfinal⟩ := bind_eq_ok_iff.mp hresult
  exact hnext value middle outcome final hfinal

theorem Signals.imp {others : Signal → Prop} {computation : Eval Outcome}
    (hsignals : Signals signals computation) (himp : ∀ signal, signals signal → others signal) :
    Signals others computation :=
  fun machine outcome next hresult signal hsignal =>
    himp signal (hsignals machine outcome next hresult signal hsignal)

/-- A body that ends with a signal does so in one of its statements, behind others that have
    ended normally. -/
theorem exists_of_runBody_signal {execute : Stmt → Eval Outcome} {body : List Stmt}
    {machine next : Machine} {outcome : Outcome}
    (hbody : runBody execute body machine = .ok outcome next) {signal : Signal}
    (hsignal : signal ∈ outcome.signal?) :
    ∃ earlier statement later middle, body = earlier ++ statement :: later ∧
      runBody execute earlier machine = .ok .normal middle ∧
      execute statement middle = .ok outcome next := by
  induction body generalizing machine with
  | nil =>
    cases hbody
    cases hsignal
  | cons first rest ih =>
    obtain ⟨ending, middle, hfirst, hrest⟩ := bind_eq_ok_iff.mp hbody
    cases ending with
    | normal =>
      obtain ⟨earlier, statement, later, last, rfl, hearlier, hlast⟩ := ih hrest
      refine ⟨first :: earlier, statement, later, last, rfl, ?_, hlast⟩
      rw [runBody, bind_of_eq_ok hfirst]
      exact hearlier
    | returned | broke | continued =>
      cases hrest
      exact ⟨[], first, rest, machine, rfl, rfl, hfirst⟩

theorem signals_runBody {execute : Stmt → Eval Outcome}
    (hexecute : ∀ statement, Signals statement.Carries (execute statement)) (body : List Stmt) :
    Signals (BodyCarries body) (runBody execute body) := by
  intro machine outcome next hbody signal hsignal
  obtain ⟨earlier, statement, later, middle, rfl, _, hstatement⟩ :=
    exists_of_runBody_signal hbody hsignal
  refine ⟨statement, ?_, hexecute statement middle outcome next hstatement signal hsignal⟩
  exact List.mem_append_right earlier List.mem_cons_self

theorem signals_runBranches {evaluate : Expr → Eval Value} {run : List Stmt → Eval Outcome}
    {otherwise : List Stmt} {branches : List (Expr × List Stmt)}
    (hbranches : ∀ branch ∈ branches, Signals signals (run branch.2))
    (hotherwise : Signals signals (run otherwise)) :
    Signals signals (runBranches evaluate run otherwise branches) := by
  induction branches with
  | nil => exact hotherwise
  | cons branch rest ih =>
    obtain ⟨condition, body⟩ := branch
    obtain ⟨hbody, hrest⟩ := List.forall_mem_cons.mp hbranches
    refine signals_bind fun value => ?_
    split
    · exact hbody
    · exact ih hrest

theorem signals_rescue {body handler : Eval Outcome} (hbody : Signals signals body)
    (hhandler : Signals signals handler) : Signals signals (rescue body handler) := by
  intro machine outcome final hresult
  cases hbodyResult : body machine with
  | ok value next =>
    rw [rescue_of_eq_ok hbodyResult] at hresult
    exact hbody machine outcome final (hbodyResult.trans hresult)
  | error reason next =>
    rw [rescue_of_eq_error hbodyResult] at hresult
    split at hresult
    · exact hhandler next outcome final hresult
    · cases hresult

/-- A loop ends because its condition does not hold, or because its body breaks or returns. -/
theorem runLoop_cases {condition : Eval Value} {body : Eval Outcome} {bound : Nat}
    {machine final : Machine} {outcome : Outcome}
    (hloop : runLoop condition body bound machine = .ok outcome final) :
    (outcome = .normal ∧
        ∃ before value, condition before = .ok value final ∧ value.isTruthy = false) ∨
      (outcome = .normal ∧ ∃ before, body before = .ok .broke final) ∨
      ∃ value before, outcome = .returned value ∧ body before = .ok (.returned value) final := by
  induction bound generalizing machine with
  | zero => cases hloop
  | succ bound ih =>
    obtain ⟨value, before, hcondition, hround⟩ := bind_eq_ok_iff.mp hloop
    cases hvalue : value.isTruthy with
    | false =>
      rw [hvalue, if_neg Bool.false_ne_true] at hround
      cases hround
      exact .inl ⟨rfl, machine, value, hcondition, hvalue⟩
    | true =>
      rw [hvalue, if_pos rfl] at hround
      obtain ⟨ending, middle, hbody, hrest⟩ := bind_eq_ok_iff.mp hround
      cases ending with
      | normal | continued => exact ih hrest
      | broke =>
        cases hrest
        exact .inr (.inl ⟨rfl, before, hbody⟩)
      | returned value =>
        cases hrest
        exact .inr (.inr ⟨value, before, rfl, hbody⟩)

section

variable {run : List Stmt → Eval Outcome} (hrun : ∀ body, Signals (BodyCarries body) (run body))

include hrun

theorem signals_runLoopBody (body : LoopBody) : Signals body.Carries (runLoopBody run body) := by
  cases body with
  | breakOnly | continueOnly =>
    refine signals_pure ?_
    rintro signal ⟨⟩
    rfl
  | block body => exact hrun body

/-- Of a loop only a return gets out. -/
theorem signals_runLoop {condition : Eval Value} {body : LoopBody} (bound : Nat) :
    Signals (fun signal => signal = .returned ∧ body.Carries .returned)
      (runLoop condition (runLoopBody run body) bound) := by
  intro machine outcome next hloop signal hsignal
  obtain ⟨rfl, _⟩ | ⟨rfl, _⟩ | ⟨value, before, rfl, hbody⟩ := runLoop_cases hloop
  · cases hsignal
  · cases hsignal
  · cases hsignal
    exact ⟨rfl, signals_runLoopBody hrun body before _ next hbody .returned rfl⟩

/-- Of the signals that the parts of a statement give, only those get out that it carries. -/
theorem signals_executeWith (limit rounds : Nat) (evaluate : Expr → Eval Value)
    (statement : Stmt) :
    Signals statement.Carries (executeWith limit rounds evaluate run statement) := by
  have hnormal : Signals statement.Carries (pure .normal) := signals_pure nofun
  cases statement with
  | pass => exact hnormal
  | breakLoop | continueLoop =>
    refine signals_pure ?_
    rintro signal ⟨⟩
    constructor
  | returnWith value span =>
    have hreturned (value' : Value) :
        Signals (Stmt.returnWith value span).Carries (pure (.returned value')) := by
      refine signals_pure ?_
      rintro signal ⟨⟩
      exact .returnWith
    cases value with
    | none => exact hreturned .unit
    | some value => exact signals_bind fun given => hreturned given
  | loop condition body span =>
    refine (signals_runLoop hrun rounds).imp ?_
    rintro signal ⟨rfl, hcarries⟩
    cases body with
    | breakOnly | continueOnly => cases hcarries
    | block body =>
      obtain ⟨inner, hinner, hcarries⟩ := hcarries
      exact .loop hinner hcarries
  | branch condition body elifs otherwise span =>
    refine signals_runBranches ?_ ?_
    · intro branch hbranch
      refine (hrun branch.2).imp ?_
      rintro signal ⟨inner, hinner, hcarries⟩
      exact .branch hbranch hinner hcarries
    · refine (hrun _).imp ?_
      rintro signal ⟨inner, hinner, hcarries⟩
      cases otherwise with
      | none => cases hinner
      | some last => exact .otherwise hinner hcarries
  | guarded body handler span =>
    refine signals_rescue ((hrun body).imp ?_) ((hrun handler).imp ?_)
    · rintro signal ⟨inner, hinner, hcarries⟩
      exact .guarded hinner hcarries
    · rintro signal ⟨inner, hinner, hcarries⟩
      exact .handler hinner hcarries
  | assign | print =>
    refine signals_bind fun _ => ?_
    exact signals_bind fun _ => hnormal
  | input | call | update => exact signals_bind fun _ => hnormal

end

/-- By induction on the fuel: what is executed inside of a statement has less of it. -/
theorem signals_execute (limit fuel : Nat) (statement : Stmt) :
    Signals statement.Carries (execute limit fuel statement) := by
  induction fuel generalizing statement with
  | zero =>
    rw [execute_zero]
    nofun
  | succ fuel ih =>
    rw [execute_succ]
    exact signals_executeWith (signals_runBody ih) limit fuel _ statement

theorem signals_executeBody (limit fuel : Nat) (body : List Stmt) :
    Signals (BodyCarries body) (executeBody limit fuel body) :=
  signals_runBody (signals_execute limit fuel) body

/-- How a loop can end, so that `next` is left behind. -/
inductive LoopEnds (limit : Nat) (condition : Expr) (body : LoopBody) (next : Machine) :
    Outcome → Prop where
  | condition {fuel : Nat} {before : Machine} {value : Value}
      (hcondition : evaluate limit fuel condition before = .ok value next)
      (hvalue : value.isTruthy = false) : LoopEnds limit condition body next .normal
  | broke {fuel : Nat} {before : Machine}
      (hbody : runLoopBody (executeBody limit fuel) body before = .ok .broke next)
      (hcarries : body.Carries .broke) : LoopEnds limit condition body next .normal
  | returned {fuel : Nat} {before : Machine} {value : Value}
      (hbody : runLoopBody (executeBody limit fuel) body before = .ok (.returned value) next)
      (hcarries : body.Carries .returned) : LoopEnds limit condition body next (.returned value)

theorem loopEnds_of_execute {limit fuel : Nat} {condition : Expr} {body : LoopBody} {span : Span}
    {machine next : Machine} {outcome : Outcome}
    (hloop : execute limit fuel (.loop condition body span) machine = .ok outcome next) :
    LoopEnds limit condition body next outcome := by
  cases fuel with
  | zero =>
    rw [execute_zero] at hloop
    cases hloop
  | succ fuel =>
    rw [execute_succ] at hloop
    have hsignals := signals_runLoopBody (signals_executeBody limit fuel) body
    obtain ⟨rfl, before, value, hcondition, hvalue⟩ | ⟨rfl, before, hbody⟩ |
      ⟨value, before, rfl, hbody⟩ := runLoop_cases hloop
    · exact .condition hcondition hvalue
    · exact .broke hbody (hsignals before _ next hbody .broke rfl)
    · exact .returned hbody (hsignals before _ next hbody .returned rfl)

section

variable {limit fuel : Nat} {name : String} {args : List Expr} {machine middle next : Machine}
  {closure : Closure} {values : List Value} {outcome : Outcome}
  (hclosure : machine.store.get? machine.scope name = some (.function closure))
  (harity : closure.params.length = args.length)
  (hargs : evaluateAll (evaluate limit fuel) args machine = .ok values middle)
  (hdepth : middle.depth < limit)
  (hbody : executeBody limit fuel closure.body (middle.entered closure values) = .ok outcome next)

include hclosure harity hargs hdepth hbody

/-- However the body of a function ends, the call of it has a value. -/
theorem evaluate_call_of_body (span : Span) :
    evaluate limit (fuel + 1) (.call name args span) machine =
      .ok outcome.value (next.left middle.scope) := by
  rw [evaluate_succ]
  exact (call_of_get hclosure harity hargs).trans (enter_of_eq_ok hdepth hbody)

/-- However the body of a function ends, the caller goes on behind the call. -/
theorem executeBody_call_of_body (span : Span) (rest : List Stmt) :
    executeBody limit (fuel + 1) (.call name args span :: rest) machine =
      executeBody limit (fuel + 1) rest (next.left middle.scope) := by
  have hcall :
      call limit (evaluate limit fuel) (runBody (execute limit fuel)) span name args machine =
        .ok outcome.value (next.left middle.scope) :=
    (call_of_get hclosure harity hargs).trans (enter_of_eq_ok hdepth hbody)
  have hstatement : execute limit (fuel + 1) (.call name args span) machine =
      .ok .normal (next.left middle.scope) := by
    rw [execute_succ, executeWith, bind_of_eq_ok hcall]
    rfl
  rw [executeBody, runBody, bind_of_eq_ok hstatement]
  rfl

end

/-- Breaks, continues and returns are lexically scoped. A statement that has been executed ends
    with such a signal only if it carries it itself, and a body only in a statement that does, behind
    others that have ended normally. A loop ends normally or with a return, and this because its
    condition does not hold or because its own body carries a break or a return. However the body
    of a function ends, the call has a value and the caller goes on behind it. And a main entry
    that has come to an end without an error has done so with a signal only if it carries it. -/
theorem signals_lexically_scoped (limit fuel : Nat) :
    (∀ statement machine outcome next, execute limit fuel statement machine = .ok outcome next →
        ∀ signal ∈ outcome.signal?, statement.Carries signal) ∧
      (∀ body machine outcome next, executeBody limit fuel body machine = .ok outcome next →
        ∀ signal ∈ outcome.signal?, BodyCarries body signal ∧
          ∃ earlier statement later middle, body = earlier ++ statement :: later ∧
            executeBody limit fuel earlier machine = .ok .normal middle ∧
            execute limit fuel statement middle = .ok outcome next ∧ statement.Carries signal) ∧
      (∀ condition body span machine outcome next,
        execute limit fuel (.loop condition body span) machine = .ok outcome next →
          (outcome = .normal ∨ ∃ value, outcome = .returned value) ∧
            LoopEnds limit condition body next outcome) ∧
      (∀ name args span machine closure values middle outcome next,
        machine.store.get? machine.scope name = some (.function closure) →
        closure.params.length = args.length →
        evaluateAll (evaluate limit fuel) args machine = .ok values middle → middle.depth < limit →
        executeBody limit fuel closure.body (middle.entered closure values) = .ok outcome next →
        evaluate limit (fuel + 1) (.call name args span) machine =
            .ok outcome.value (next.left middle.scope) ∧
          ∀ rest, executeBody limit (fuel + 1) (.call name args span :: rest) machine =
            executeBody limit (fuel + 1) rest (next.left middle.scope)) ∧
      ∀ program main machine final, program.main = some main →
        runProgram limit fuel program machine = .ok () final →
        ∃ outcome next, executeBody limit fuel main.body
            ((machine.definedAll program.functions).inner Machine.mainFrame) = .ok outcome next ∧
          ∀ signal ∈ outcome.signal?, BodyCarries main.body signal := by
  refine ⟨?_, ?_, ?_, ?_, ?_⟩
  · exact signals_execute limit fuel
  · intro body machine outcome next hbody signal hsignal
    refine ⟨signals_executeBody limit fuel body machine outcome next hbody signal hsignal, ?_⟩
    obtain ⟨earlier, statement, later, middle, hsplit, hearlier, hstatement⟩ :=
      exists_of_runBody_signal hbody hsignal
    exact ⟨earlier, statement, later, middle, hsplit, hearlier, hstatement,
      signals_execute limit fuel statement middle outcome next hstatement signal hsignal⟩
  · intro condition body span machine outcome next hloop
    have hends := loopEnds_of_execute hloop
    refine ⟨?_, hends⟩
    cases hends with
    | condition | broke => exact .inl rfl
    | returned => exact .inr ⟨_, rfl⟩
  · intro name args span machine closure values middle outcome next hclosure harity hargs hdepth hbody
    exact ⟨evaluate_call_of_body hclosure harity hargs hdepth hbody span,
      executeBody_call_of_body hclosure harity hargs hdepth hbody span⟩
  · intro program main machine final hmain hrun
    rw [runProgram_of_main_eq_some limit fuel machine hmain] at hrun
    cases hbody : executeBody limit fuel main.body
        ((machine.definedAll program.functions).inner Machine.mainFrame) with
    | ok outcome next =>
      exact ⟨outcome, next, rfl, signals_executeBody limit fuel main.body _ outcome next hbody⟩
    | error reason next =>
      rw [concluded_of_eq_error (inFrame_of_eq_error hbody)] at hrun
      cases hrun

end Eval
end KawaiiLang
