import KawaiiLang.Proofs.Eval.History
import KawaiiLang.Proofs.Interpreter.Location
import KawaiiLang.Proofs.Parse.Location.Line

namespace KawaiiLang

namespace Eval

variable {limit fuel : Nat} {line : Line} {machine next : Machine} {error : RuntimeError}

theorem span_of_flush_eq_fault {span : Span}
    (hflush : flush span machine = .error (.fault error) next) : error.span = span := by
  rw [flush_apply] at hflush
  cases hresult : machine.output.flush.1 <;> rw [hresult] at hflush <;> cases hflush
  rfl

theorem fault_of_flush_bind {α : Type} {span : Span} {rest : Eval α}
    (hrun : (flush span >>= fun _ => rest) machine = .error (.fault error) next) :
    error.span = span ∨ ∃ middle, rest middle = .error (.fault error) next := by
  cases hflush : flush span machine with
  | ok _ middle =>
    rw [bind_of_eq_ok hflush] at hrun
    exact .inr ⟨middle, hrun⟩
  | error reason middle =>
    rw [bind_of_eq_error hflush] at hrun
    cases hrun
    exact .inl (span_of_flush_eq_fault hflush)

/-- A line ends in an error of what it says, or of the flush behind it. -/
theorem raises_of_runLine (hrun : runLine limit fuel line machine = .error (.fault error) next) :
    (∃ last, perform limit fuel line machine = .error (.fault error) last) ∨
      error.span = .single 0 := by
  cases hperform : perform limit fuel line machine with
  | ok effect middle =>
    rw [runLine_of_perform hperform] at hrun
    obtain hspan | ⟨_, hrest⟩ := fault_of_flush_bind hrun
    · exact .inr hspan
    · cases hrest
  | error reason middle =>
    rw [runLine_of_perform_error hperform] at hrun
    obtain hnothing | hflush := giveUp_cases line reason
    · rw [hnothing] at hrun
      cases hrun
      exact .inl ⟨_, rfl⟩
    · rw [hflush] at hrun
      obtain hspan | ⟨_, hrest⟩ := fault_of_flush_bind hrun
      · exact .inr hspan
      · cases hrest
        exact .inl ⟨_, rfl⟩

/-- What a line says raises errors only of its own nodes and of those in functions that the
    machine holds. -/
theorem at_of_perform {S : Node → Prop} (hclosed : Node.Closed S)
    (hline : ∀ node, line.Contains node → S node) (hholds : machine.Holds (Closure.Within S))
    (hperform : perform limit fuel line machine = .error (.fault error) next) : error.At S := by
  cases line with
  | empty | definition => cases hperform
  | expression expression =>
    cases hvalue : evaluate limit fuel expression machine with
    | ok value middle =>
      rw [perform, bind_of_eq_ok hvalue] at hperform
      cases hperform
    | error reason middle =>
      rw [perform, bind_of_eq_error hvalue] at hperform
      cases hperform
      have hends := (Task.exists_compute_iff (.evaluate expression) (.error error)).mp ⟨fuel, hvalue⟩
      exact hends.error_at hclosed (List.forall_mem_singleton.mpr (hline _ .expression)) hholds
        error rfl
  | statements body =>
    cases hbody : executeBody limit fuel body machine with
    | ok outcome middle =>
      rw [perform, bind_of_eq_ok hbody] at hperform
      cases hperform
    | error reason middle =>
      rw [perform, bind_of_eq_error hbody] at hperform
      cases hperform
      have hends := exists_executeBody_raised_iff.mp ⟨fuel, hbody⟩
      refine hends.error_at hclosed ?_ hholds error rfl
      exact List.forall_mem_map.mpr fun _ hstatement => hline _ (.statement hstatement)

end Eval

/-- The node is in a function that one of the texts defines, read as a line of a session. -/
def Node.DefinedIn (sources : List String) (node : Node) : Prop :=
  ∃ source ∈ sources, ∃ function, Line.ofSource source = .ok (.definition function) ∧
    (Line.definition function).Contains node

namespace Line

variable {source : String} {line : Line}

theorem all_inText_of_ofSource (hread : ofSource source = .ok line) :
    line.All (Span.InText source.length) := by
  obtain ⟨tokens, htokens, hline⟩ := readWith_eq_ok_iff.mp hread
  obtain ⟨words, stop, rfl, hstop, hwords, hspan⟩ := Token.exists_words_of_ofSource_eq_ok htokens
  exact all_of_ofTokens_eq_ok hstop hwords hspan .through hline

/-- What keeps a text from being read as a line lies in that text. -/
theorem inText_of_ofSource_eq_error {failure : Failure} (hread : ofSource source = .error failure) :
    failure.toDiagnostic.span.InText (source.length + 1) := by
  obtain ⟨error, herror, rfl⟩ | ⟨tokens, error, htokens, herror, rfl⟩ :=
    readWith_eq_error_iff.mp hread
  · exact (Token.located_of_ofSource_eq_error herror).1.succ
  · obtain ⟨words, stop, rfl, hstop, hwords, hspan⟩ := Token.exists_words_of_ofSource_eq_ok htokens
    exact (located_of_ofTokens_eq_error hstop hwords hspan .through herror).inText hspan

end Line

namespace Machine

/-- The machines that a session can come to when it is given texts line by line, and these texts.
    Between the lines its input and its output may be used for other things, such as to read the
    next line. -/
inductive Dialogue (settings : Settings) : List String → Machine → Prop where
  | start (input : Input) (output : Sink) : Dialogue settings [] (start input output)
  | streams {sources : List String} {machine : Machine}
      (hdialogue : Dialogue settings sources machine) (input : Input) (output : Sink) :
      Dialogue settings sources { machine with input, output }
  | line {sources : List String} {machine : Machine}
      (hdialogue : Dialogue settings sources machine) (fuel : Nat) (source : String) :
      Dialogue settings (sources ++ [source]) (machine.runLine settings fuel source).2

/-- A session holds no functions but those that its lines have defined. -/
theorem Dialogue.holds {settings : Settings} {sources : List String} {machine : Machine}
    (hdialogue : machine.Dialogue settings sources) :
    machine.Holds (Closure.Within (Node.DefinedIn sources)) := by
  induction hdialogue with
  | start input output => exact holds_start _ input output
  | streams _ _ _ ih => exact ih
  | @line sources machine _ fuel source ih =>
    have hbefore : machine.Holds (Closure.Within (Node.DefinedIn (sources ++ [source]))) := by
      refine ih.imp fun closure hwithin node hnode => ?_
      obtain ⟨earlier, hearlier, hdefined⟩ := hwithin node hnode
      exact ⟨earlier, List.mem_append_left _ hearlier, hdefined⟩
    rw [runLine]
    cases hread : Line.ofSource source with
    | error failure => exact hbefore
    | ok line =>
      have hready := hbefore.definedAll line.definitions ?_
      · have hchange := (holding settings.callDepthLimit _).change_runLine fuel line machine hready
        rw [follow, Ending.ofResult_snd]
        exact hchange.holds hready
      · intro function hfunction stamp
        cases line with
        | definition defined =>
          obtain rfl := List.mem_singleton.mp hfunction
          refine List.forall_mem_map.mpr fun statement hstatement => ?_
          exact ⟨source, List.mem_append_right _ List.mem_cons_self, function, hread,
            .definition hstatement⟩
        | empty | expression | statements => cases hfunction

/-- An error that a line of a session ends in has its place in that line, or else it is the error
    of a node of a function that an earlier line has defined, and has its place there. -/
theorem Dialogue.error_in_line_or_definition {settings : Settings} {sources : List String}
    {machine : Machine} (hdialogue : machine.Dialogue settings sources) {fuel : Nat}
    {source : String} {failure : Failure}
    (hfailed : (machine.runLine settings fuel source).1 = .failed failure) :
    failure.toDiagnostic.span.InText (source.length + 1) ∨
      ∃ error earlier function node, failure = .runtime error ∧ earlier ∈ sources ∧
        Line.ofSource earlier = .ok (.definition function) ∧
        (Line.definition function).Contains node ∧ node.span = error.span ∧
        error.span.InText earlier.length := by
  obtain hread | ⟨line, error, next, hread, hrun, rfl⟩ :=
    (follow_eq_failed_iff fun line => Eval.composed_runLine _ fuel line).mp hfailed
  · exact .inl (Line.inText_of_ofSource_eq_error hread)
  obtain ⟨last, hperform⟩ | hspan := Eval.raises_of_runLine hrun
  · have hclosed : Node.Closed fun node => line.Contains node ∨ node.DefinedIn sources := by
      rintro node (hnode | ⟨earlier, hearlier, function, hfunction, hnode⟩) part hpart
      · exact .inl (.part hnode hpart)
      · exact .inr ⟨earlier, hearlier, function, hfunction, .part hnode hpart⟩
    have hholds : machine.Holds
        (Closure.Within fun node => line.Contains node ∨ node.DefinedIn sources) :=
      hdialogue.holds.imp fun closure hwithin node hnode => .inr (hwithin node hnode)
    obtain ⟨node, hnode, hspan⟩ := Eval.at_of_perform hclosed (fun _ => .inl) hholds hperform
    obtain hnode | ⟨earlier, hearlier, function, hfunction, hnode⟩ := hnode
    · have hinText := ((Line.all_inText_of_ofSource hread).node hnode).span
      rw [hspan] at hinText
      exact .inl hinText.succ
    · have hinText := ((Line.all_inText_of_ofSource hfunction).node hnode).span
      rw [hspan] at hinText
      exact .inr ⟨error, earlier, function, node, rfl, hearlier, hfunction, hnode, hspan, hinText⟩
  · refine .inl ?_
    change error.span.InText (source.length + 1)
    rw [hspan]
    exact ⟨Nat.lt_succ_self 0, Nat.le_add_left 1 _⟩

/-- A line that defines a function which divides by zero. -/
def divides : String :=
  "kawaii f() sayonara 1 / 0"

/-- A session that has been given this line. -/
def withDivides : Machine :=
  ((start {} {}).runLine {} 8 divides).2

theorem dialogue_withDivides : withDivides.Dialogue {} [divides] :=
  .line (.start {} {}) 8 divides

theorem runLine_withDivides :
    (withDivides.runLine {} 8 "f()").1 = .failed (.runtime ⟨.divisionByZero, ⟨20, 25⟩⟩) := by
  have hfailed : (match (withDivides.runLine {} 8 "f()").1 with
      | .failed failure => decide (failure = .runtime ⟨.divisionByZero, ⟨20, 25⟩⟩)
      | _ => false) = true := by decide +kernel
  split at hfailed
  · next hfailure => rw [hfailure, of_decide_eq_true hfailed]
  · cases hfailed

/-- The error of a call has its place in the line that defines the function. -/
theorem Dialogue.error_in_definition_withDivides :
    ∃ function node, Line.ofSource divides = .ok (.definition function) ∧
      (Line.definition function).Contains node ∧ node.span = ⟨20, 25⟩ := by
  obtain hinText | ⟨error, earlier, function, node, hfailure, hearlier, hread, hnode, hspan, _⟩ :=
    dialogue_withDivides.error_in_line_or_definition runLine_withDivides
  · exact absurd hinText.stop_le (by decide)
  · cases hfailure
    obtain rfl := List.mem_singleton.mp hearlier
    exact ⟨function, node, hread, hnode, hspan⟩

/-- So a line may end in an error that lies outside of it. -/
theorem Dialogue.not_error_in_line :
    ¬ ∀ settings sources machine fuel source failure, Dialogue settings sources machine →
        (machine.runLine settings fuel source).1 = .failed failure →
        failure.toDiagnostic.span.start ≤ source.length ∧
          failure.toDiagnostic.span.stop ≤ source.length + 1 := by
  intro hinside
  have hspan := hinside _ _ _ _ _ _ dialogue_withDivides runLine_withDivides
  exact absurd hspan.1 (by decide)

end Machine
end KawaiiLang
