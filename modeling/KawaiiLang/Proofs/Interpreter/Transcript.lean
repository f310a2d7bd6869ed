import Mathlib
import KawaiiLang.Interactive
import KawaiiLang.Proofs.Eval.Reading
import KawaiiLang.Proofs.Interpreter.Phases

namespace KawaiiLang

open Eval Step

/-- What can be run in a session: whole programs, and single lines. -/
inductive Activity (limit : Nat) : {α : Type} → Eval α → Prop where
  | program (fuel : Nat) (program : Program) : Activity limit (runProgram limit fuel program)
  | line (fuel : Nat) (line : Line) : Activity limit (runLine limit fuel line)
  | perform (fuel : Nat) (line : Line) : Activity limit (perform limit fuel line)

theorem Activity.composed {α : Type} {limit : Nat} {computation : Eval α}
    (hactivity : Activity limit computation) : Composed computation := by
  cases hactivity with
  | program fuel program => exact composed_runProgram limit fuel program
  | line fuel line => exact composed_runLine limit fuel line
  | perform fuel line => exact composed_perform limit fuel line

/-- A session that began on the machine `first`, with all the steps that have been taken in it.
    Between the programs and lines that are run, a line can be read from their input and all
    can be done to their output. -/
inductive Transcript (limit : Nat) (first : Machine) : List Step → Machine → Prop where
  | begun : Transcript limit first [] first
  | ran {α : Type} {computation : Eval α} {machine : Machine} {steps more : List Step}
      (htranscript : Transcript limit first steps machine)
      (hactivity : Activity limit computation) (hcourse : Course computation machine more) :
      Transcript limit first (steps ++ more) (final (computation machine))
  | asked {machine : Machine} {steps : List Step}
      (htranscript : Transcript limit first steps machine) :
      Transcript limit first (steps ++ [⟨machine.readLine.1, machine.readLine.2⟩])
        machine.readLine.2
  | shown {machine : Machine} {steps : List Step}
      (htranscript : Transcript limit first steps machine) (output : Sink) :
      Transcript limit first (steps ++ [⟨none, { machine with output }⟩]) { machine with output }

namespace Transcript

variable {limit : Nat} {first machine : Machine} {steps : List Step}

theorem reached_eq (htranscript : Transcript limit first steps machine) :
    reached first steps = machine := by
  induction htranscript with
  | begun => rfl
  | ran _ _ hcourse ih => rw [reached_append, ih, hcourse.reached_eq]
  | asked | shown =>
    rw [reached_append]
    rfl

theorem orderly (htranscript : Transcript limit first steps machine) : Orderly first steps := by
  induction htranscript with
  | begun => exact .nil
  | ran htranscript _ hcourse ih =>
    refine ih.append ?_
    rw [htranscript.reached_eq]
    exact hcourse.orderly
  | @asked machine _ htranscript ih =>
    refine ih.append ?_
    obtain ⟨hline, hinput⟩ := machine.readLine_eq
    rw [htranscript.reached_eq, hline]
    exact orderly_read hinput
  | shown htranscript output ih =>
    refine ih.append ?_
    rw [htranscript.reached_eq]
    exact .pass rfl .nil

/-- The lines of the input are read one by one, whoever asks for them. In a session that has
    taken some steps, these have read the first lines, as many as have been read, and what is
    left are the other lines. So what asks for a line gets the first of those that are left,
    if there is one and the prompt could be sent. -/
theorem reads_in_order (htranscript : Transcript limit first steps machine) :
    ∃ lines, (∀ other, Input.Lines first.input.bytes other ↔ other = lines) ∧
      reached first steps = machine ∧
      (∀ past future, steps = past ++ future →
        found past = lines.take (found past).length ∧
          (reached first past).input.bytes =
            (lines.drop (found past).length).flatMap InputLine.bytes ∧
          ∀ fuel span prompt,
            Answer span prompt (reached first past) (lines.drop (found past).length)
                (evaluate limit (fuel + 1) (.input prompt span) (reached first past)) ∧
              execute limit (fuel + 1) (.input prompt span) (reached first past) =
                (evaluate limit (fuel + 1) (.input prompt span) >>= fun _ => pure .normal)
                  (reached first past)) ∧
      ∀ (α : Type) (computation : Eval α), Activity limit computation →
        ∃ more, Course computation machine more := by
  obtain ⟨lines, hlines⟩ := Input.exists_lines first.input.bytes
  refine ⟨lines, ?_, htranscript.reached_eq, ?_, ?_⟩
  · intro other
    constructor
    · intro hother
      exact hother.unique hlines
    · rintro rfl
      exact hlines
  · rintro past future rfl
    obtain ⟨hfound, hrest⟩ := htranscript.orderly.of_append.found_eq hlines
    refine ⟨hfound, hrest.eq_flatMap, ?_⟩
    intro fuel span prompt
    rw [evaluate_succ, execute_succ]
    exact ⟨answer_readInput span prompt hrest, rfl⟩
  · intro α computation hactivity
    exact hactivity.composed.exists_course machine

/-- A session in which the prompt takes the first of two lines, and the expression that is then
    evaluated asks for the second. -/
theorem reads_in_order_promptThenExpression :
    ∃ steps machine, Transcript 256 (.start ⟨[97, 10, 98]⟩ {}) steps machine ∧
      found steps = [⟨[97, 10]⟩, ⟨[98]⟩] := by
  have hcomposed := composed_perform 256 1 (.expression (.input none ⟨0, 7⟩))
  obtain ⟨more, hmore⟩ := hcomposed.exists_course (Machine.start ⟨[97, 10, 98]⟩ {}).readLine.2
  have htranscript : Transcript 256 _ _ _ := begun.asked.ran (.perform 1 _) hmore
  obtain ⟨lines, hlines, hreached, hpast, _⟩ := htranscript.reads_in_order
  have hdivided : Input.Lines [97, 10, 98] [⟨[97, 10]⟩, ⟨[98]⟩] :=
    @Input.Lines.ended [97] [98] _ (by decide) (.unended (by decide) (by decide))
  obtain rfl := (hlines _).mp hdivided
  obtain ⟨hfound, hrest, _⟩ := hpast _ [] (List.append_nil _).symm
  have hempty : (final (perform 256 1 (.expression (.input none ⟨0, 7⟩))
      (Machine.start ⟨[97, 10, 98]⟩ {}).readLine.2)).input.bytes = [] := by cbv
  rw [hreached, hempty] at hrest
  refine ⟨_, _, htranscript, hfound.trans ?_⟩
  -- Nothing is left, so all lines have been read.
  generalize (found _).length = count at hrest ⊢
  obtain _ | _ | count := count
  · cases hrest
  · cases hrest
  · simp

end Transcript

namespace Console

variable {settings : Settings} {fuel : Nat} {first : Machine} {console : Console}

/-- The machine of the console is one of a session that began on `first`. -/
def Transcribed (settings : Settings) (first : Machine) (console : Console) : Prop :=
  ∃ steps, Transcript settings.callDepthLimit first steps console.machine

theorem Transcribed.write (hconsole : console.Transcribed settings first) (text : String) :
    (console.write text).Transcribed settings first := by
  obtain ⟨steps, hsteps⟩ := hconsole
  exact ⟨_, hsteps.shown _⟩

theorem Transcribed.runLine (hconsole : console.Transcribed settings first) (fuel : Nat)
    (source : String) :
    Transcribed settings first
      { console with machine := (console.machine.runLine settings fuel source).2 } := by
  obtain ⟨steps, hsteps⟩ := hconsole
  unfold Machine.runLine Machine.follow
  cases Line.ofSource source with
  | error failure => exact ⟨steps, hsteps⟩
  | ok line =>
    obtain ⟨more, hmore⟩ := (composed_runLine settings.callDepthLimit fuel line).exists_course
      console.machine
    have hnext := hsteps.ran (.line fuel line) hmore
    dsimp only
    rw [Ending.ofResult_snd]
    exact ⟨_, hnext⟩

/-- The console behind a turn, be it the last one or not. -/
def Turn.last : Turn → Console
  | .again console | .over console => console

theorem Transcribed.run (hconsole : console.Transcribed settings first) (fuel : Nat)
    (source : String) : (console.run settings fuel source).last.Transcribed settings first := by
  have hnext := hconsole.runLine fuel source
  unfold Console.run
  generalize console.machine.runLine settings fuel source = run at hnext ⊢
  obtain ⟨ending, machine⟩ := run
  cases ending with
  | finished value =>
    cases value with
    | none => exact hnext
    | some value => exact hnext.write _
  | failed failure => exact hnext
  | outOfFuel => exact hnext

theorem Transcribed.turn (hconsole : console.Transcribed settings first) (fuel : Nat) :
    (console.turn settings fuel).last.Transcribed settings first := by
  obtain ⟨steps, hsteps⟩ := hconsole.write prompt
  have hasked := hsteps.asked
  unfold Console.turn
  dsimp only
  generalize (console.write prompt).machine.readLine = read at hasked ⊢
  obtain ⟨line?, machine⟩ := read
  have hnext : Transcribed settings first { console.write prompt with machine } := ⟨_, hasked⟩
  cases line? with
  | none => exact hnext.write "\n"
  | some line =>
    dsimp only
    cases line.text? with
    | none => exact hnext
    | some text =>
      dsimp only
      split
      · exact hnext
      · split
        · exact hnext.write farewell
        · exact hnext.run fuel _

theorem Transcribed.turns (hconsole : console.Transcribed settings first) (fuel bound : Nat) :
    (console.turns settings fuel bound).Transcribed settings first := by
  induction bound generalizing console with
  | zero => exact hconsole
  | succ bound ih =>
    have hturn := hconsole.turn fuel
    rw [Console.turns]
    cases hnext : console.turn settings fuel with
    | again next =>
      rw [hnext] at hturn
      exact ih hturn
    | «over» next =>
      rw [hnext] at hturn
      exact hturn

/-- All that the console does is part of one session. -/
theorem transcribed_hold (settings : Settings) (fuel : Nat) (input : Input) (output : Sink) :
    (hold settings fuel input output).Transcribed settings (.start input output) := by
  have hstart : Transcribed settings (.start input output) { machine := .start input output } :=
    ⟨[], .begun⟩
  exact (hstart.write greeting).turns fuel _

end Console
end KawaiiLang
