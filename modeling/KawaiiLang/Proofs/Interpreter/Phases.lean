import KawaiiLang.Interpreter
import KawaiiLang.Proofs.Eval.Composed
import KawaiiLang.Proofs.Eval.Restore
import KawaiiLang.Proofs.Semantics.Agreement

namespace KawaiiLang

section

-- Whatever is made of the tokens of a text, reading the text fails in one of two ways.
variable {α : Type} {parse : List Token → Except SyntaxError α} {source : String}

/-- Reads a text by means of its tokens. -/
def readWith (parse : List Token → Except SyntaxError α) (source : String) : Except Failure α := do
  let tokens ← (Token.ofSource source).mapError .lexical
  (parse tokens).mapError .syntactic

theorem readWith_of_error {error : LexError} (htokens : Token.ofSource source = .error error) :
    readWith parse source = .error (.lexical error) := by
  rw [readWith, htokens]
  rfl

theorem readWith_of_ok {tokens : List Token} (htokens : Token.ofSource source = .ok tokens) :
    readWith parse source = (parse tokens).mapError .syntactic := by
  rw [readWith, htokens]
  rfl

theorem readWith_eq_error_iff {failure : Failure} :
    readWith parse source = .error failure ↔
      (∃ error, Token.ofSource source = .error error ∧ failure = .lexical error) ∨
        ∃ tokens error, Token.ofSource source = .ok tokens ∧ parse tokens = .error error ∧
          failure = .syntactic error := by
  cases htokens : Token.ofSource source with
  | error error =>
    rw [readWith_of_error htokens]
    constructor
    · intro hread
      cases hread
      exact .inl ⟨error, rfl, rfl⟩
    · rintro (⟨_, hsame, rfl⟩ | ⟨_, _, hsame, _⟩) <;> cases hsame
      rfl
  | ok tokens =>
    rw [readWith_of_ok htokens]
    cases hparse : parse tokens with
    | error error =>
      constructor
      · intro hread
        cases hread
        exact .inr ⟨tokens, error, rfl, hparse, rfl⟩
      · rintro (⟨_, hsame, _⟩ | ⟨_, _, hsame, herror, rfl⟩) <;> cases hsame
        cases hparse.symm.trans herror
        rfl
    | ok value =>
      constructor
      · intro hread
        cases hread
      · rintro (⟨_, hsame, _⟩ | ⟨_, _, hsame, herror, _⟩) <;> cases hsame
        cases hparse.symm.trans herror

theorem readWith_eq_ok_iff {value : α} :
    readWith parse source = .ok value ↔
      ∃ tokens, Token.ofSource source = .ok tokens ∧ parse tokens = .ok value := by
  constructor
  · intro hread
    cases htokens : Token.ofSource source with
    | error error =>
      rw [readWith_of_error htokens] at hread
      cases hread
    | ok tokens =>
      rw [readWith_of_ok htokens] at hread
      cases hparse : parse tokens with
      | error error =>
        rw [hparse] at hread
        cases hread
      | ok found =>
        rw [hparse] at hread
        cases hread
        exact ⟨tokens, rfl, hparse⟩
  · rintro ⟨tokens, htokens, hparse⟩
    rw [readWith_of_ok htokens, hparse]
    rfl

end

theorem Program.ofSource_eq_error_iff {source : String} {failure : Failure} :
    ofSource source = .error failure ↔
      (∃ error, Token.ofSource source = .error error ∧ failure = .lexical error) ∨
        ∃ tokens error, Token.ofSource source = .ok tokens ∧ ofTokens tokens = .error error ∧
          failure = .syntactic error :=
  readWith_eq_error_iff

section

variable {settings : Settings} {fuel : Nat} {source : String} {input : Input} {output : Sink}

/-- A text that cannot be read leaves the new machine as it is. -/
theorem interpret_of_error {failure : Failure} (hread : Program.ofSource source = .error failure) :
    interpret settings fuel source input output = (.failed failure, .start input output) := by
  simp only [interpret, Machine.runProgram, hread, Machine.follow]

theorem Ending.ofResult_eq_failed_iff {α : Type} {result : EStateM.Result Interrupt Machine α}
    {failure : Failure} : (Ending.ofResult result).1 = .failed failure ↔
      ∃ next, result = .error (.failure failure) next := by
  constructor
  · intro hfailed
    cases result with
    | ok value next => cases hfailed
    | error reason next =>
      cases reason with
      | failure other =>
        cases hfailed
        exact ⟨next, rfl⟩
      | outOfFuel => cases hfailed
  · rintro ⟨next, rfl⟩
    rfl

theorem Ending.ofResult_snd {α : Type} (result : EStateM.Result Interrupt Machine α) :
    (Ending.ofResult result).2 = Eval.final result := by
  cases result with
  | ok value next => rfl
  | error reason next => cases reason <;> rfl

/-- The two ways in which a text fails that is run: it cannot be read, or what was read raises an
    error. -/
theorem Machine.follow_eq_failed_iff {α β : Type} {machine : Machine} {read : Except Failure α}
    {run : α → Eval β} (hrun : ∀ value, Eval.Composed (run value)) {failure : Failure} :
    (machine.follow read run).1 = .failed failure ↔
      read = .error failure ∨
        ∃ value error next, read = .ok value ∧ run value machine = .error (.fault error) next ∧
          failure = .runtime error := by
  cases read with
  | error other =>
    constructor
    · intro hfailed
      cases hfailed
      exact .inl rfl
    · rintro (hsame | ⟨_, _, _, hsame, _⟩) <;> cases hsame
      rfl
  | ok value =>
    refine Ending.ofResult_eq_failed_iff.trans ?_
    constructor
    · rintro ⟨next, hfailed⟩
      obtain ⟨error, rfl⟩ := Failure.isRuntime_iff.mp ((hrun value).isRuntime hfailed)
      exact .inr ⟨value, error, next, rfl, hfailed, rfl⟩
    · rintro (hsame | ⟨_, error, next, hsame, hfailed, rfl⟩) <;> cases hsame
      exact ⟨next, hfailed⟩

theorem interpret_eq_failed_iff {failure : Failure} :
    (interpret settings fuel source input output).1 = .failed failure ↔
      Program.ofSource source = .error failure ∨
        ∃ program error next, Program.ofSource source = .ok program ∧
          Eval.runProgram settings.callDepthLimit fuel program (.start input output) =
            .error (.fault error) next ∧ failure = .runtime error :=
  Machine.follow_eq_failed_iff fun program => Eval.composed_runProgram _ fuel program

end

namespace Eval

variable {limit : Nat} {machine next : Machine} {body handler : List Stmt} {span : Span}
  {error : RuntimeError}

theorem exists_executeBody_raised_iff :
    (∃ fuel, executeBody limit fuel body machine = .error (.fault error) next) ↔
      (Task.run body).Ends limit machine (.raised error) next :=
  Task.exists_compute_iff (.run body) (.raised error)

/-- Whatever a task fails with is a runtime error that the rules derive. -/
theorem exists_compute_failure_iff (task : Task) {failure : Failure} :
    (∃ fuel, task.compute limit fuel fuel machine = .error (.failure failure) next) ↔
      ∃ error, failure = .runtime error ∧
        task.Ends limit machine (task.ofExcept (.error error)) next := by
  have hended (error : RuntimeError) :
      task.toExcept (task.ofExcept (.error error)) = .error error := by
    cases task <;> rfl
  constructor
  · rintro ⟨fuel, hfailed⟩
    obtain ⟨error, rfl⟩ :=
      Failure.isRuntime_iff.mp ((composed_compute limit fuel fuel task).isRuntime hfailed)
    refine ⟨error, rfl, (task.exists_compute_iff _).mp ⟨fuel, ?_⟩⟩
    rw [hended]
    exact hfailed
  · rintro ⟨error, rfl, hends⟩
    have hcompute := (task.exists_compute_iff _).mpr hends
    rwa [hended] at hcompute

theorem exists_execute_failure_iff {statement : Stmt} {failure : Failure} :
    (∃ fuel, execute limit fuel statement machine = .error (.failure failure) next) ↔
      ∃ error, failure = .runtime error ∧
        (Task.execute statement).Ends limit machine (.raised error) next :=
  exists_compute_failure_iff (.execute statement)

theorem exists_executeBody_failure_iff {failure : Failure} :
    (∃ fuel, executeBody limit fuel body machine = .error (.failure failure) next) ↔
      ∃ error, failure = .runtime error ∧
        (Task.run body).Ends limit machine (.raised error) next :=
  exists_compute_failure_iff (.run body)

theorem restored_of_raised (hbody : (Task.run body).Ends limit machine (.raised error) next) :
    machine.Restored next := by
  obtain ⟨fuel, hrun⟩ := exists_executeBody_raised_iff.mpr hbody
  exact (((Machine.restoring limit).obeys_executeBody fuel body).ready_of_eq_error trivial hrun).1

/-- A guarded block raises what its handler raises, on the machine that the block left. -/
theorem guarded_raised_iff :
    (Task.execute (.guarded body handler span)).Ends limit machine (.raised error) next ↔
      ∃ first middle, (Task.run body).Ends limit machine (.raised first) middle ∧
        (Task.run handler).Ends limit
          { middle with scope := machine.scope, depth := machine.depth } (.raised error) next := by
  have hsame {first : RuntimeError} {middle : Machine}
      (hbody : (Task.run body).Ends limit machine (.raised first) middle) :
      { middle with scope := machine.scope, depth := machine.depth } = middle := by
    have hrestored := restored_of_raised hbody
    rw [← hrestored.scope, ← hrestored.depth]
  constructor
  · intro hguarded
    cases hguarded with
    | unguarded _ hcompletion => exact absurd rfl (hcompletion error)
    | @handled _ _ _ _ middle _ first _ hbody hhandler =>
      exact ⟨first, middle, hbody, (hsame hbody).symm ▸ hhandler⟩
  · rintro ⟨first, middle, hbody, hhandler⟩
    rw [hsame hbody] at hhandler
    exact .handled hbody hhandler

/-- The same of the evaluator, and of failures of any kind. A handler is for runtime errors only;
    that no failure passes it by is because nothing else is raised. -/
theorem exists_guarded_failure_iff {failure : Failure} :
    (∃ fuel, execute limit fuel (.guarded body handler span) machine =
        .error (.failure failure) next) ↔
      ∃ first middle, (∃ fuel, executeBody limit fuel body machine = .error (.failure first) middle) ∧
        ∃ fuel, executeBody limit fuel handler
          { middle with scope := machine.scope, depth := machine.depth } =
            .error (.failure failure) next := by
  simp only [exists_execute_failure_iff, exists_executeBody_failure_iff, guarded_raised_iff]
  constructor
  · rintro ⟨error, rfl, first, middle, hbody, hhandler⟩
    exact ⟨_, middle, ⟨first, rfl, hbody⟩, error, rfl, hhandler⟩
  · rintro ⟨_, middle, ⟨first, rfl, hbody⟩, error, rfl, hhandler⟩
    exact ⟨error, rfl, first, middle, hbody, hhandler⟩

end Eval

/-- The phases of a run are apart: a text that does not fall into tokens, and tokens that do
    not make up a program, are reported as such and before anything is read or written, and
    whatever failure the evaluator ends in is an error of the running program. So nothing gets
    past a handler: a guarded block fails just if the block fails, and the handler, which goes on
    where the block stopped, fails as well, and it does so with that failure. -/
theorem phases_apart (settings : Settings) (fuel : Nat) (source : String) (input : Input)
    (output : Sink) :
    (∀ error, (interpret settings fuel source input output).1 = .failed (.lexical error) ↔
        Token.ofSource source = .error error) ∧
      (∀ error, (interpret settings fuel source input output).1 = .failed (.syntactic error) ↔
        ∃ tokens, Token.ofSource source = .ok tokens ∧ Program.ofTokens tokens = .error error) ∧
      (∀ failure, (interpret settings fuel source input output).1 = .failed failure →
        failure.toDiagnostic.isRuntime = false →
          (interpret settings fuel source input output).2.output = output ∧
            (interpret settings fuel source input output).2.input = input) ∧
      (∀ limit rounds machine failure next,
        (∀ task : Task, task.compute limit fuel rounds machine = .error (.failure failure) next →
          failure.toDiagnostic.isRuntime = true) ∧
        (∀ program, Eval.runProgram limit fuel program machine = .error (.failure failure) next →
          failure.toDiagnostic.isRuntime = true) ∧
        ∀ line, Eval.runLine limit fuel line machine = .error (.failure failure) next →
          failure.toDiagnostic.isRuntime = true) ∧
      ∀ limit body handler span machine failure next,
        (∃ fuel, Eval.execute limit fuel (.guarded body handler span) machine =
            .error (.failure failure) next) ↔
          ∃ first middle,
            (∃ fuel, Eval.executeBody limit fuel body machine = .error (.failure first) middle) ∧
              ∃ fuel, Eval.executeBody limit fuel handler
                { middle with scope := machine.scope, depth := machine.depth } =
                  .error (.failure failure) next := by
  refine ⟨?_, ?_, ?_, ?_, fun _ _ _ _ _ _ _ => Eval.exists_guarded_failure_iff⟩
  · intro error
    rw [interpret_eq_failed_iff, Program.ofSource_eq_error_iff]
    constructor
    · rintro ((⟨_, hlexer, hsame⟩ | ⟨_, _, _, _, hsame⟩) | ⟨_, _, _, _, _, hsame⟩) <;> cases hsame
      exact hlexer
    · intro hlexer
      exact .inl (.inl ⟨error, hlexer, rfl⟩)
  · intro error
    rw [interpret_eq_failed_iff, Program.ofSource_eq_error_iff]
    constructor
    · rintro ((⟨_, _, hsame⟩ | ⟨tokens, _, htokens, hparser, hsame⟩) | ⟨_, _, _, _, _, hsame⟩) <;>
        cases hsame
      exact ⟨tokens, htokens, hparser⟩
    · rintro ⟨tokens, htokens, hparser⟩
      exact .inl (.inr ⟨tokens, error, htokens, hparser, rfl⟩)
  · intro failure hfailed hkind
    obtain hread | ⟨_, error, _, _, _, rfl⟩ := interpret_eq_failed_iff.mp hfailed
    · rw [interpret_of_error hread]
      exact ⟨rfl, rfl⟩
    · cases hkind
  · intro limit rounds machine failure next
    rw [failure.isRuntime_toDiagnostic]
    refine ⟨?_, ?_, ?_⟩
    · intro task
      exact (Eval.composed_compute limit fuel rounds task).isRuntime
    · intro program
      exact (Eval.composed_runProgram limit fuel program).isRuntime
    · intro line
      exact (Eval.composed_runLine limit fuel line).isRuntime

end KawaiiLang
