import Mathlib
import KawaiiLang.Interactive
import KawaiiLang.Proofs.Eval.Composed
import KawaiiLang.Proofs.Stream.Lines

namespace KawaiiLang

/-- One access of a run to the memory, the input or the output: the line that it has taken off
    the input, if it has taken one, and the machine behind it. -/
structure Step where
  line? : Option InputLine
  machine : Machine

namespace Step

/-- The lines that some steps have taken off the input. -/
def found (steps : List Step) : List InputLine :=
  steps.filterMap Step.line?

/-- The machine that some steps lead to from `machine`. -/
def reached (machine : Machine) (steps : List Step) : Machine :=
  steps.foldl (fun _ step => step.machine) machine

theorem reached_append (machine : Machine) (steps more : List Step) :
    reached machine (steps ++ more) = reached (reached machine steps) more :=
  List.foldl_append

end Step

open Step

/-- Each of the steps leaves the input as it is, or else it takes the next line off it. -/
inductive Orderly : Machine → List Step → Prop where
  | nil {machine : Machine} : Orderly machine []
  | pass {machine next : Machine} {steps : List Step} (hinput : next.input = machine.input)
      (hsteps : Orderly next steps) : Orderly machine (⟨none, next⟩ :: steps)
  | take {machine next : Machine} {line : InputLine} {steps : List Step}
      (hread : machine.input.readLine? = some (line, next.input)) (hsteps : Orderly next steps) :
      Orderly machine (⟨some line, next⟩ :: steps)

namespace Orderly

variable {machine : Machine} {steps more past future : List Step} {lines : List InputLine}

theorem append (hsteps : Orderly machine steps) (hmore : Orderly (reached machine steps) more) :
    Orderly machine (steps ++ more) := by
  induction hsteps with
  | nil => exact hmore
  | pass hinput _ ih => exact .pass hinput (ih hmore)
  | take hread _ ih => exact .take hread (ih hmore)

theorem of_append (hsteps : Orderly machine (past ++ future)) : Orderly machine past := by
  induction past generalizing machine with
  | nil => exact .nil
  | cons step past ih =>
    cases hsteps with
    | pass hinput hsteps => exact .pass hinput (ih hsteps)
    | take hread hsteps => exact .take hread (ih hsteps)

/-- The lines are taken off one by one, from the first, and the others are still there. -/
theorem found_eq (hsteps : Orderly machine steps) (hlines : Input.Lines machine.input.bytes lines) :
    found steps = lines.take (found steps).length ∧
      Input.Lines (reached machine steps).input.bytes (lines.drop (found steps).length) := by
  induction hsteps generalizing lines with
  | nil => exact ⟨rfl, hlines⟩
  | pass hinput _ ih =>
    rw [← hinput] at hlines
    exact ih hlines
  | @take machine next line steps hread _ ih =>
    cases lines with
    | nil => cases hread.symm.trans hlines.readLine?_nil
    | cons first others =>
      obtain ⟨rest, hread', hrest⟩ := hlines.readLine?_cons
      cases hread.symm.trans hread'
      obtain ⟨hfound, hothers⟩ := ih hrest
      refine ⟨?_, hothers⟩
      exact congrArg (line :: ·) hfound

end Orderly

theorem Machine.readLine_eq (machine : Machine) :
    machine.readLine.1 = machine.input.readLine?.map Prod.fst ∧
      machine.readLine.2.input = (machine.input.readLine?.map Prod.snd).getD machine.input := by
  unfold Machine.readLine
  cases machine.input.readLine? <;> exact ⟨rfl, rfl⟩

/-- Whoever takes the next line off the input, if there is one, does so in order. -/
theorem orderly_read {machine next : Machine}
    (hnext : next.input = (machine.input.readLine?.map Prod.snd).getD machine.input) :
    Orderly machine [⟨machine.input.readLine?.map Prod.fst, next⟩] := by
  cases hread : machine.input.readLine? with
  | none =>
    rw [hread] at hnext
    exact .pass hnext .nil
  | some read =>
    obtain ⟨line, rest⟩ := read
    rw [hread] at hnext
    refine .take ?_ .nil
    rw [hread, hnext]
    rfl

namespace Eval

variable {α β : Type}

/-- `Course computation machine steps`: these are, one after the other, the steps that the
    computation takes from `machine` on. -/
inductive Course : {α : Type} → Eval α → Machine → List Step → Prop where
  | inMemory {α : Type} (act : Memory → Except Interrupt α × Memory) (machine : Machine) :
      Course (inMemory act) machine [⟨none, final (inMemory act machine)⟩]
  | write (span : Span) (text : String) (machine : Machine) :
      Course (write span text) machine [⟨none, final (write span text machine)⟩]
  | flush (span : Span) (machine : Machine) :
      Course (flush span) machine [⟨none, final (flush span machine)⟩]
  | readLine (span : Span) (machine : Machine) :
      Course (readLine span) machine
        [⟨machine.input.readLine?.map Prod.fst, final (readLine span machine)⟩]
  | done {α β : Type} {body : Eval α} {done : α → Eval β} {failed : Interrupt → Eval β}
      {machine next : Machine} {value : α} {steps more : List Step}
      (hbody : Course body machine steps) (hvalue : body machine = .ok value next)
      (hdone : Course (done value) next more) :
      Course (followed body done failed) machine (steps ++ more)
  | failed {α β : Type} {body : Eval α} {done : α → Eval β} {failed : Interrupt → Eval β}
      {machine next : Machine} {reason : Interrupt} {steps more : List Step}
      (hbody : Course body machine steps) (hreason : body machine = .error reason next)
      (hfailed : Course (failed reason) next more) :
      Course (followed body done failed) machine (steps ++ more)

variable {computation : Eval α} {machine : Machine} {steps : List Step}

theorem Composed.exists_course (hcomposed : Composed computation) (machine : Machine) :
    ∃ steps, Course computation machine steps := by
  induction hcomposed generalizing machine with
  | inMemory => exact ⟨_, .inMemory _ machine⟩
  | write span text => exact ⟨_, .write span text machine⟩
  | flush span => exact ⟨_, .flush span machine⟩
  | readLine span => exact ⟨_, .readLine span machine⟩
  | @followed _ _ body _ _ hcomposed _ _ hbody hdone hfailed =>
    obtain ⟨steps, hsteps⟩ := hbody machine
    cases hresult : body machine with
    | ok value next =>
      obtain ⟨more, hmore⟩ := hdone value next
      exact ⟨_, .done hsteps hresult hmore⟩
    | error reason next =>
      obtain ⟨more, hmore⟩ := hfailed reason (hcomposed.raisable hresult) next
      exact ⟨_, .failed hsteps hresult hmore⟩

/-- The last step leads to where the computation ends. -/
theorem Course.reached_eq (hcourse : Course computation machine steps) :
    reached machine steps = final (computation machine) := by
  induction hcourse with
  | inMemory | write | flush | readLine => rfl
  | done _ hvalue _ hbody hdone =>
    rw [reached_append, hbody, hvalue, followed_of_eq_ok hvalue]
    exact hdone
  | failed _ hreason _ hbody hfailed =>
    rw [reached_append, hbody, hreason, followed_of_eq_error hreason]
    exact hfailed

theorem Course.orderly (hcourse : Course computation machine steps) : Orderly machine steps := by
  induction hcourse with
  | inMemory act machine =>
    refine .pass ?_ .nil
    rw [final_inMemory]
    rfl
  | write span text machine =>
    refine .pass ?_ .nil
    rw [write_apply, final_ended]
  | flush span machine =>
    refine .pass ?_ .nil
    rw [flush_apply, final_ended]
  | readLine span machine => exact orderly_read (congrArg Machine.input (final_readLine span machine))
  | done hsteps hvalue _ hbody hdone =>
    refine hbody.append ?_
    rw [hsteps.reached_eq, hvalue]
    exact hdone
  | failed hsteps hreason _ hbody hfailed =>
    refine hbody.append ?_
    rw [hsteps.reached_eq, hreason]
    exact hfailed

/-- What asking for a line on `machine` comes to, where `lines` are those still to be read. -/
inductive Answer (span : Span) (prompt : Option String) (machine : Machine) :
    List InputLine → EStateM.Result Interrupt Machine Value → Prop where
  | refused {lines : List InputLine} {next : Machine} {fault : StreamFault}
      (hasked : ask span prompt machine = .error (.fault ⟨.stream fault, span⟩) next)
      (hinput : next.input = machine.input) :
      Answer span prompt machine lines (.error (.fault ⟨.stream fault, span⟩) next)
  | exhausted {next : Machine} (hasked : ask span prompt machine = .ok () next)
      (hinput : next.input = machine.input) :
      Answer span prompt machine [] (.error (.fault ⟨.inputExhausted, span⟩) next)
  | text {lines : List InputLine} {line : InputLine} {next : Machine} {text content : String}
      {rest : Input} (hasked : ask span prompt machine = .ok () next)
      (hrest : Input.Lines rest.bytes lines) (htext : line.text? = some text)
      (hcontent : InputLine.Stripped text content) :
      Answer span prompt machine (line :: lines) (.ok (.str content) { next with input := rest })
  | notText {lines : List InputLine} {line : InputLine} {next : Machine} {rest : Input}
      (hasked : ask span prompt machine = .ok () next) (hrest : Input.Lines rest.bytes lines)
      (htext : line.text? = none) :
      Answer span prompt machine (line :: lines)
        (.error (.fault ⟨.stream .notText, span⟩) { next with input := rest })

/-- Something was sent to the output, or could not be; the input is as it was. -/
def Sent (span : Span) (machine : Machine) (result : EStateM.Result Interrupt Machine Unit) :
    Prop :=
  ∃ next, next.input = machine.input ∧
    (result = .ok () next ∨ ∃ fault, result = .error (.fault ⟨.stream fault, span⟩) next)

theorem sent_ended (span : Span) (outcome : Except StreamFault Unit) (machine : Machine)
    (output : Sink) :
    Sent span machine (ended (outcome.mapError fun fault => ⟨.stream fault, span⟩)
      { machine with output }) := by
  cases outcome with
  | ok => exact ⟨{ machine with output }, rfl, .inl rfl⟩
  | error fault => exact ⟨{ machine with output }, rfl, .inr ⟨fault, rfl⟩⟩

theorem sent_flush (span : Span) (machine : Machine) : Sent span machine (flush span machine) := by
  rw [flush_apply]
  exact sent_ended span _ machine _

/-- Nothing is read in front of the prompt. -/
theorem sent_ask (span : Span) (prompt : Option String) (machine : Machine) :
    Sent span machine (ask span prompt machine) := by
  cases prompt with
  | none => exact sent_flush span machine
  | some text =>
    have hwrite : Sent span machine (write span text machine) := by
      rw [write_apply]
      exact sent_ended span _ machine _
    obtain ⟨next, hinput, hnext | ⟨fault, hnext⟩⟩ := hwrite
    · obtain ⟨last, hlast, hflush⟩ := sent_flush span next
      refine ⟨last, hlast.trans hinput, ?_⟩
      rw [ask, bind_of_eq_ok hnext]
      exact hflush
    · refine ⟨next, hinput, .inr ⟨fault, ?_⟩⟩
      rw [ask, bind_of_eq_error hnext]

theorem answer_readInput {lines : List InputLine} (span : Span) (prompt : Option String)
    (hlines : Input.Lines machine.input.bytes lines) :
    Answer span prompt machine lines (readInput span prompt machine) := by
  rw [readInput_eq_ask]
  obtain ⟨next, hinput, hasked | ⟨fault, hasked⟩⟩ := sent_ask span prompt machine
  · rw [bind_of_eq_ok hasked, readLine_apply, hinput]
    cases lines with
    | nil =>
      rw [hlines.readLine?_nil]
      exact .exhausted hasked hinput
    | cons line lines =>
      obtain ⟨rest, hread, hrest⟩ := hlines.readLine?_cons
      rw [hread]
      dsimp only
      cases htext : line.text? with
      | none => exact .notText hasked hrest htext
      | some text => exact .text hasked hrest htext (InputLine.stripped_content text)
  · rw [bind_of_eq_error hasked]
    exact .refused hasked hinput

end Eval
end KawaiiLang
