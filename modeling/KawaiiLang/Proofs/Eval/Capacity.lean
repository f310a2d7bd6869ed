import Mathlib
import KawaiiLang.Proofs.Eval.Composed
import KawaiiLang.Proofs.Eval.Isolation
import KawaiiLang.Proofs.Semantics.Agreement
import KawaiiLang.Proofs.Stream.Sink

namespace KawaiiLang

namespace Eval

variable {α β : Type} {bound : Nat} {computation : Eval α}

theorem extends_followed {body : Eval α} {done : α → Eval β} {failed : Interrupt → Eval β}
    (hbody : Composed body)
    (hdone : ∀ value (machine : Machine),
      machine.output.Extends (final (done value machine)).output)
    (hfailed : ∀ reason : Interrupt, reason.Raisable → ∀ machine : Machine,
      machine.output.Extends (final (failed reason machine)).output) (machine : Machine) :
    (final (body machine)).output.Extends (final (followed body done failed machine)).output := by
  cases hresult : body machine with
  | ok value next =>
    rw [followed_of_eq_ok hresult]
    exact hdone value next
  | error reason next =>
    rw [followed_of_eq_error hresult]
    exact hfailed reason (hbody.raisable hresult) next

/-- Whatever is run, nothing is lost that was written before. -/
theorem Composed.extends (hcomposed : Composed computation) (machine : Machine) :
    machine.output.Extends (final (computation machine)).output := by
  induction hcomposed generalizing machine with
  | inMemory =>
    rw [final_inMemory]
    exact .refl machine.output
  | write span text =>
    rw [write_apply, final_ended]
    exact machine.output.extends_write text
  | flush span =>
    rw [flush_apply, final_ended]
    exact machine.output.extends_flush
  | readLine span =>
    rw [final_readLine]
    exact .refl machine.output
  | followed hbody _ _ ihbody ihdone ihfailed =>
    exact (ihbody machine).trans (extends_followed hbody ihdone ihfailed machine)

/-- The same result, but for the output. -/
def redirected (output : Sink) :
    EStateM.Result Interrupt Machine α → EStateM.Result Interrupt Machine α
  | .ok value machine => .ok value { machine with output }
  | .error reason machine => .error reason { machine with output }

theorem redirected_ended (output : Sink) (result : Except RuntimeError α) (machine : Machine) :
    redirected output (ended result machine) = ended result { machine with output } := by
  cases result <;> rfl

theorem inMemory_withOutput (act : Memory → Except Interrupt α × Memory) (machine : Machine)
    (output : Sink) :
    inMemory act { machine with output } = redirected output (inMemory act machine) := by
  have hmemory : ({ machine with output } : Machine).memory = machine.memory := rfl
  unfold inMemory
  rw [hmemory]
  rcases act machine.memory with ⟨_ | _, memory⟩ <;> rfl

theorem readLine_withOutput (span : Span) (machine : Machine) (output : Sink) :
    readLine span { machine with output } = redirected output (readLine span machine) := by
  rw [readLine_apply, readLine_apply]
  cases machine.input.readLine? with
  | none => rfl
  | some read =>
    dsimp only
    cases read.1.text? <;> rfl

/-- A computation whose output is limited to `bound` bytes differs from one whose output is not
    only in that some output is missing at the end; but if there is more output than that, the
    two may come to different results. -/
def Truncates (bound : Nat) (computation : Eval α) : Prop :=
  ∀ (machine : Machine) (output : Sink), output.Truncates bound machine.output →
    ∃ output' : Sink, (final (computation { machine with output })).output = output' ∧
      output'.Truncates bound (final (computation machine)).output ∧
      ((final (computation machine)).output.kept.size ≤ bound →
        computation { machine with output } = redirected output' (computation machine))

theorem truncates_inMemory (act : Memory → Except Interrupt α × Memory) :
    Truncates bound (inMemory act) := by
  intro machine output htruncates
  refine ⟨output, ?_, ?_, ?_⟩
  · rw [final_inMemory]
    rfl
  · rw [final_inMemory]
    exact htruncates
  · intro _
    exact inMemory_withOutput act machine output

theorem truncates_write (span : Span) (text : String) : Truncates bound (write span text) := by
  intro machine output htruncates
  refine ⟨(output.write text).2, ?_, ?_, ?_⟩
  · rw [write_apply, final_ended]
  · rw [write_apply, final_ended]
    exact htruncates.write text
  · intro hfits
    rw [write_apply, final_ended] at hfits
    rw [write_apply, write_apply, redirected_ended, htruncates.fst_write hfits]

theorem truncates_flush (span : Span) : Truncates bound (flush span) := by
  intro machine output htruncates
  refine ⟨output.flush.2, ?_, ?_, ?_⟩
  · rw [flush_apply, final_ended]
  · rw [flush_apply, final_ended]
    exact htruncates.flush
  · intro _
    rw [flush_apply, flush_apply, redirected_ended, htruncates.fst_flush]

theorem truncates_readLine (span : Span) : Truncates bound (readLine span) := by
  intro machine output htruncates
  refine ⟨output, ?_, ?_, ?_⟩
  · rw [final_readLine]
  · rw [final_readLine]
    exact htruncates
  · intro _
    exact readLine_withOutput span machine output

/-- While everything fits, the two go the same way. Where they part, the limited output is full:
    so it keeps nothing more, and what the other gets from then on is beyond the bound. -/
theorem truncates_followed {body : Eval α} {done : α → Eval β} {failed : Interrupt → Eval β}
    (hbody : Composed body) (hdone : ∀ value, Composed (done value))
    (hfailed : ∀ reason : Interrupt, reason.Raisable → Composed (failed reason))
    (ihbody : Truncates bound body) (ihdone : ∀ value, Truncates bound (done value))
    (ihfailed : ∀ reason : Interrupt, reason.Raisable → Truncates bound (failed reason)) :
    Truncates bound (followed body done failed) := by
  intro machine output htruncates
  obtain ⟨middle, hmiddle, htruncates, hsame⟩ := ihbody machine output htruncates
  by_cases hfits : (final (body machine)).output.kept.size ≤ bound
  · have hlimited := hsame hfits
    cases hresult : body machine with
    | ok value next =>
      rw [hresult] at hlimited htruncates
      rw [followed_of_eq_ok hresult, followed_of_eq_ok hlimited]
      exact ihdone value next middle htruncates
    | error reason next =>
      rw [hresult] at hlimited htruncates
      rw [followed_of_eq_error hresult, followed_of_eq_error hlimited]
      exact ihfailed reason (hbody.raisable hresult) next middle htruncates
  · have hextends (machine : Machine) :
        (final (body machine)).output.Extends (final (followed body done failed machine)).output :=
      extends_followed hbody (fun value => (hdone value).extends)
        (fun reason hreason => (hfailed reason hreason).extends) machine
    have hlimited := hextends { machine with output }
    have hwhole := hextends machine
    rw [hmiddle] at hlimited
    refine ⟨_, rfl, htruncates.of_extends (Nat.le_of_not_le hfits) hlimited hwhole, ?_⟩
    intro hend
    exact absurd (hwhole.size_le.trans hend) hfits

theorem Composed.truncates (hcomposed : Composed computation) (bound : Nat) :
    Truncates bound computation := by
  induction hcomposed with
  | @inMemory _ act => exact truncates_inMemory act
  | write span text => exact truncates_write span text
  | flush span => exact truncates_flush span
  | readLine span => exact truncates_readLine span
  | followed hbody hdone hfailed ihbody ihdone ihfailed =>
    exact truncates_followed hbody hdone hfailed ihbody ihdone ihfailed

end Eval

namespace Program

open Eval

/-- An output that is limited to some number of bytes gets the first ones of what is written to
    one without a limit. Where that is all that is written, the limit makes no difference. -/
theorem output_truncated {limit : Nat} {program : Program} {input : Input} {bound : Nat}
    {bounded whole : Sink} {result result' : Except RuntimeError Unit} {final final' : Machine}
    (hbounded : bounded.Bounded bound) (hwhole : whole.Unbounded) (hempty : bounded.kept = .empty)
    (hempty' : whole.kept = .empty)
    (hlimited : Settles (fun fuel => runProgram limit fuel program) (.start input bounded) result
      final)
    (hfree : Settles (fun fuel => runProgram limit fuel program) (.start input whole) result'
      final') :
    final.output.kept = final'.output.kept.extract 0 bound ∧
      (final'.output.kept.size ≤ bound → final.input = final'.input ∧ result = result') := by
  obtain ⟨fuel, hlimited⟩ := hlimited
  obtain ⟨fuel', hfree⟩ := hfree
  obtain ⟨enough, henough⟩ := (Program.ends_of_runProgram hlimited).comesTo
  obtain ⟨enough', henough'⟩ := (Program.ends_of_runProgram hfree).comesTo
  have hlimited : runProgram limit (max enough enough') program
      { Machine.start input whole with output := bounded } = ended result final :=
    henough (max enough enough') (Nat.le_max_left _ _)
  have hfree := henough' (max enough enough') (Nat.le_max_right _ _)
  have hstart : bounded.Truncates bound whole := by
    refine ⟨?_, hbounded, hwhole⟩
    rw [hempty, hempty']
    exact (ByteArray.extract_eq_empty_iff.mpr (Nat.min_le_right _ _)).symm
  have hcomposed := composed_runProgram limit (max enough enough') program
  obtain ⟨output, houtput, htruncates, hsame⟩ :=
    hcomposed.truncates bound (.start input whole) bounded hstart
  rw [hlimited, final_ended] at houtput
  rw [hfree, final_ended] at htruncates hsame
  refine ⟨houtput ▸ htruncates.kept, ?_⟩
  intro hfits
  have hended := hsame hfits
  rw [hlimited, redirected_ended] at hended
  obtain ⟨hresult, hfinal⟩ := ended_inj hended
  refine ⟨?_, hresult⟩
  rw [hfinal]

/-- Prints a word, and a sign if that fails. -/
def complaining : Program :=
  ⟨[], some (.single (.guarded [.print [.literal (.str "nyaa") ⟨12, 18⟩] ⟨6, 18⟩]
    [.print [.literal (.str "!") ⟨34, 37⟩] ⟨28, 37⟩] ⟨0, 38⟩))⟩

theorem output_truncated_complaining :
    ∃ result result' final final',
      Settles (fun fuel => runProgram 256 fuel complaining)
        (.start {} { capacity := some 2 }) result final ∧
      Settles (fun fuel => runProgram 256 fuel complaining) (.start {} {}) result' final' ∧
      final.output.kept = final'.output.kept.extract 0 2 ∧ result ≠ result' := by
  have hlimited : Settles (fun fuel => runProgram 256 fuel complaining)
      (.start {} { capacity := some 2 }) (.error ⟨.stream .sinkFull, ⟨28, 37⟩⟩) _ :=
    ⟨9, by cbv⟩
  have hfree : Settles (fun fuel => runProgram 256 fuel complaining) (.start {} {})
      (.ok ()) _ := ⟨9, by cbv⟩
  exact ⟨_, _, _, _, hlimited, hfree,
    (output_truncated (Sink.bounded_ofNat? 2) Sink.unbounded_ofNat? rfl rfl hlimited hfree).1,
    by simp⟩

end Program
end KawaiiLang
