import KawaiiLang.Interpreter
import KawaiiLang.Proofs.Layout.Eval
import KawaiiLang.Proofs.Layout.Program

namespace KawaiiLang

/-- The same error, perhaps shown in another place. -/
structure Diagnostic.Relocated (first second : Diagnostic) : Prop where
  kind : first.kind = second.kind
  message : first.message = second.message
  help : first.help = second.help

theorem SyntaxError.Relocated.toDiagnostic {first second : SyntaxError}
    (herror : first.Relocated second) : first.toDiagnostic.Relocated second.toDiagnostic where
  kind := rfl
  message := by
    change first.fault.message first.found = second.fault.message second.found
    rw [herror.fault, herror.found.message_eq]
  help := congrArg SyntaxFault.help herror.fault

/-- Runs of two texts come to the same end, up to the places that an error is shown in. -/
inductive Ending.Relocated (source source' : String) : Ending Unit → Ending Unit → Prop where
  | finished : Relocated source source' (.finished ()) (.finished ())
  | failed {failure failure' : Failure}
      (hfailure : (failure.toDiagnosticIn source).Relocated (failure'.toDiagnosticIn source')) :
      Relocated source source' (.failed failure) (.failed failure')
  | outOfFuel : Relocated source source' .outOfFuel .outOfFuel

theorem Ending.Relocated.eq_outOfFuel_iff {source source' : String} {ending ending' : Ending Unit}
    (hending : Relocated source source' ending ending') :
    ending = .outOfFuel ↔ ending' = .outOfFuel := by
  cases hending with
  | finished | failed => exact ⟨nofun, nofun⟩
  | outOfFuel => exact Iff.rfl

/-- Runs of two texts cannot be told apart from outside: they come to the same end, and have
    read and written the same. -/
structure SameRun (source source' : String) (first second : Ending Unit × Machine) : Prop where
  ending : first.1.Relocated source source' second.1
  input : first.2.input = second.2.input
  output : first.2.output = second.2.output

theorem sameRun_ofResult (source source' : String)
    {result result' : EStateM.Result Interrupt Machine Unit}
    (hresults : Eval.layout.Results (fun _ _ => True) result result') :
    SameRun source source' (Ending.ofResult result) (Ending.ofResult result') := by
  cases hresults with
  | ok _ hmachine => exact ⟨.finished, hmachine.input, hmachine.output⟩
  | error herror hmachine =>
    cases herror with
    | fault => exact ⟨.failed ⟨rfl, rfl, rfl⟩, hmachine.input, hmachine.output⟩
    | outOfFuel => exact ⟨.outOfFuel, hmachine.input, hmachine.output⟩

/-- No amount of fuel suffices for the text. -/
def RunsForever (settings : Settings) (source : String) (input : Input) (output : Sink) : Prop :=
  ∀ fuel, (interpret settings fuel source input output).1 = .outOfFuel

theorem Program.ofSource_of_ofSource_tokens {source : String} {tokens : List Token}
    (htokens : Token.ofSource source = .ok tokens) :
    ofSource source = (ofTokens tokens).mapError .syntactic := by
  unfold ofSource
  rw [htokens]
  rfl

/-- Layout has no meaning: two texts with the same words run in the same way on any fuel, and
    so one of them runs forever just if the other does. -/
theorem sameRun_of_words_eq {source source' : String} {tokens tokens' : List Token}
    (htokens : Token.ofSource source = .ok tokens)
    (htokens' : Token.ofSource source' = .ok tokens')
    (hwords : tokens.map Token.word = tokens'.map Token.word) (settings : Settings)
    (input : Input) (output : Sink) :
    (∀ fuel, SameRun source source' (interpret settings fuel source input output)
        (interpret settings fuel source' input output)) ∧
      (RunsForever settings source input output ↔ RunsForever settings source' input output) := by
  have hread := Program.readAlike_ofTokens (Token.forall₂_relocated_of_words_eq hwords)
  have hruns (fuel : Nat) : SameRun source source' (interpret settings fuel source input output)
      (interpret settings fuel source' input output) := by
    unfold interpret Machine.runProgram
    rw [Program.ofSource_of_ofSource_tokens htokens, Program.ofSource_of_ofSource_tokens htokens']
    generalize Program.ofTokens tokens = program at hread
    generalize Program.ofTokens tokens' = program' at hread
    cases hread with
    | error herror => exact ⟨.failed herror.toDiagnostic, rfl, rfl⟩
    | ok hprogram =>
      have hstart := Machine.Relocated.start input output
      exact sameRun_ofResult source source'
        (Eval.lockstep_runProgram settings.callDepthLimit fuel hprogram _ _ hstart)
  exact ⟨hruns, forall_congr' fun fuel => (hruns fuel).ending.eq_outOfFuel_iff⟩

/-- A program on one line: its function prints a line, and then fails to negate nothing. -/
def tight : String :=
  "kawaii f()sayonara -purinto(1)uWu_nyaa()=>f()"

/-- The same program on several lines, with a comment. -/
def loose : String :=
  "kawaii f()  # fails\n  sayonara - purinto(1)\n\nuWu_nyaa() => f()\n"

theorem sameRun_of_words_eq_loose :
    ∃ tokens tokens', Token.ofSource tight = .ok tokens ∧ Token.ofSource loose = .ok tokens' ∧
      tokens.map Token.word = tokens'.map Token.word ∧
      SameRun tight loose (interpret {} 8 tight {} {}) (interpret {} 8 loose {} {}) ∧
      (interpret {} 8 loose {} {}).2.output.kept = "1\n".toUTF8 := by
  have htokens : Token.ofSource tight = .ok ((Token.ofSource tight).toOption.getD []) ∧
      Token.ofSource loose = .ok ((Token.ofSource loose).toOption.getD []) ∧
      ((Token.ofSource tight).toOption.getD []).map Token.word =
        ((Token.ofSource loose).toOption.getD []).map Token.word := by decide +kernel
  obtain ⟨htight, hloose, hwords⟩ := htokens
  have hkept : (interpret {} 8 tight {} {}).2.output.kept = "1\n".toUTF8 := by decide +kernel
  have hsame := (sameRun_of_words_eq htight hloose hwords {} {} {}).1 8
  exact ⟨_, _, htight, hloose, hwords, hsame, hsame.output ▸ hkept⟩

end KawaiiLang
