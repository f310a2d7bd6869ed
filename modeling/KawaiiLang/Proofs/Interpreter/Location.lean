import KawaiiLang.Proofs.Interpreter.Phases
import KawaiiLang.Proofs.Parse.Location.Program
import KawaiiLang.Proofs.Semantics.Blame
import KawaiiLang.Proofs.Token.Location

namespace KawaiiLang

namespace Program

variable {limit fuel : Nat} {program : Program} {machine next : Machine} {error : RuntimeError}

/-- The run of the main entry, on a machine that has the functions of the program, ends in the
    error. -/
def EntryRaises (limit fuel : Nat) (program : Program) (machine : Machine)
    (error : RuntimeError) : Prop :=
  ∃ main last, program.main = some main ∧
    Eval.executeBody limit fuel main.body
      ((machine.definedAll program.functions).inner Machine.mainFrame) = .error (.fault error) last

/-- The run of the main entry ends without an error, and the flush of the output behind it ends
    in this one. -/
def FlushRaises (limit fuel : Nat) (program : Program) (machine : Machine)
    (error : RuntimeError) : Prop :=
  ∃ main outcome last next, program.main = some main ∧
    Eval.executeBody limit fuel main.body
      ((machine.definedAll program.functions).inner Machine.mainFrame) = .ok outcome last ∧
    Eval.flush (.single 0) (last.outer (machine.definedAll program.functions).scope) =
      .error (.fault error) next

/-- A program ends in an error of its main entry or of the flush behind it. -/
theorem raises_of_runProgram
    (hrun : Eval.runProgram limit fuel program machine = .error (.fault error) next) :
    program.EntryRaises limit fuel machine error ∨ program.FlushRaises limit fuel machine error := by
  cases hmain : program.main with
  | none =>
    rw [Eval.runProgram_of_main_eq_none limit fuel machine hmain] at hrun
    cases hrun
  | some main =>
    rw [Eval.runProgram_of_main_eq_some limit fuel machine hmain] at hrun
    cases hbody : Eval.executeBody limit fuel main.body
        ((machine.definedAll program.functions).inner Machine.mainFrame) with
    | ok outcome last =>
      rw [Eval.concluded_of_eq_ok (Eval.inFrame_of_eq_ok hbody)] at hrun
      exact .inr ⟨main, outcome, last, next, hmain, hbody, hrun⟩
    | error reason last =>
      rw [Eval.concluded_of_eq_error (Eval.inFrame_of_eq_error hbody)] at hrun
      cases hrun
      exact .inl ⟨main, last, hmain, hbody⟩

/-- With a node, a program contains all of its parts. -/
theorem closed_contains (program : Program) : Node.Closed program.Contains :=
  fun _ hnode _ hpart => .part hnode hpart

/-- The errors of a main entry are errors of nodes of the program, also if they come from the
    functions that it calls. -/
theorem EntryRaises.at (hraises : program.EntryRaises limit fuel machine error)
    (hholds : machine.Holds (Closure.Within program.Contains)) : error.At program.Contains := by
  obtain ⟨main, last, hmain, hbody⟩ := hraises
  have hends := Eval.exists_executeBody_raised_iff.mp ⟨fuel, hbody⟩
  refine hends.error_at program.closed_contains ?_ ?_ error rfl
  · exact List.forall_mem_map.mpr fun _ hstatement => .main hmain hstatement
  · refine Machine.Holds.inner (hholds.definedAll program.functions ?_) nofun
    intro function hfunction stamp
    exact List.forall_mem_map.mpr fun _ hstatement => .function hfunction hstatement

/-- The error of the last flush is shown at the first character. -/
theorem FlushRaises.span_eq (hraises : program.FlushRaises limit fuel machine error) :
    error.span = .single 0 := by
  obtain ⟨_, _, last, next, _, _, hflush⟩ := hraises
  have hended : Eval.flush (.single 0) (last.outer _) = Eval.ended (.error error) next := hflush
  exact (Eval.flush_iff.mp hended).span_eq

/-- What is read from a text has the places of its nodes in that text. -/
theorem all_inText_of_ofSource {source : String} (hread : ofSource source = .ok program) :
    program.All (Span.InText source.length) := by
  obtain ⟨tokens, htokens, hprogram⟩ := readWith_eq_ok_iff.mp hread
  obtain ⟨words, stop, rfl, hstop, hwords, hspan⟩ := Token.exists_words_of_ofSource_eq_ok htokens
  exact all_of_ofTokens_eq_ok hstop hwords hspan .through hprogram

end Program

/-- Just behind the last character is still in the text, if its end mark counts. -/
theorem Span.InText.single_stop {length : Nat} {span : Span} (hspan : span.InText length) :
    (Span.single span.stop).InText (length + 1) where
  start_lt_stop := Nat.lt_succ_self _
  stop_le := Nat.succ_le_succ hspan.stop_le

theorem Span.InText.succ {length : Nat} {span : Span} (hspan : span.InText length) :
    span.InText (length + 1) where
  start_lt_stop := hspan.start_lt_stop
  stop_le := Nat.le_succ_of_le hspan.stop_le

/-- Where a syntax error is shown: at the token at fault, and if that is the end mark, just
    behind the token before it. -/
structure SyntaxError.ShownAt (tokens : List Token) (error : SyntaxError) : Prop where
  found_mem : error.found ∈ tokens
  atToken : error.found.kind ≠ .endOfInput → error.span = error.found.span
  atEnd : error.found.kind = .endOfInput →
    ∃ words last, tokens = words ++ [last, error.found] ∧ last.kind ≠ .endOfInput ∧
      error.span = .single last.span.stop

theorem SyntaxError.Located.shownAt {words : List Token} {stop : Token} {error : SyntaxError}
    (hlocated : error.Located words stop) (hstop : stop.kind = .endOfInput)
    (hwords : ∀ word ∈ words, word.kind ≠ .endOfInput) : error.ShownAt (words ++ [stop]) := by
  cases hlocated with
  | atWord hword =>
    refine ⟨List.mem_append_left _ hword, fun _ => rfl, ?_⟩
    intro hkind
    exact absurd hkind (hwords _ hword)
  | @atEnd fault last hlast =>
    refine ⟨List.mem_append_right _ List.mem_cons_self, ?_, ?_⟩
    · intro hkind
      exact absurd hstop hkind
    · intro _
      obtain ⟨earlier, rfl⟩ := List.getLast?_eq_some_iff.mp hlast
      refine ⟨earlier, last, by simp, hwords last (by simp), rfl⟩

theorem SyntaxError.Located.inText {words : List Token} {stop : Token} {error : SyntaxError}
    {length : Nat} (hlocated : error.Located words stop)
    (hwords : ∀ word ∈ words, word.span.InText length) : error.span.InText (length + 1) := by
  cases hlocated with
  | atWord hword => exact (hwords _ hword).succ
  | atEnd hlast => exact (hwords _ (List.mem_of_getLast? hlast)).single_stop

/-- Tokens of a text that do not make up a program are refused at one of them. -/
theorem SyntaxError.shownAt_of_ofTokens {source : String} {tokens : List Token}
    {error : SyntaxError} (htokens : Token.ofSource source = .ok tokens)
    (herror : Program.ofTokens tokens = .error error) :
    error.ShownAt tokens ∧ error.span.InText (source.length + 1) := by
  obtain ⟨words, stop, rfl, hstop, hwords, hspan⟩ := Token.exists_words_of_ofSource_eq_ok htokens
  have hlocated := Program.located_of_ofTokens_eq_error hstop hwords hspan .through herror
  exact ⟨hlocated.shownAt hstop hwords, hlocated.inText hspan⟩

/-- An error of a program that was read from a text and begun on a new machine. -/
theorem Program.error_located {limit fuel : Nat} {source : String} {program : Program}
    {input : Input} {output : Sink} {error : RuntimeError} {next : Machine}
    (hread : ofSource source = .ok program)
    (hrun : Eval.runProgram limit fuel program (.start input output) = .error (.fault error) next) :
    error.span.InText (source.length + 1) ∧
      ((program.EntryRaises limit fuel (.start input output) error ∧ error.At program.Contains) ∨
        (program.FlushRaises limit fuel (.start input output) error ∧ error.span = .single 0)) := by
  obtain hraises | hraises := raises_of_runProgram hrun
  · have hat := hraises.at (Machine.holds_start _ input output)
    obtain ⟨node, hnode, hspan⟩ := hat
    have hinText := ((all_inText_of_ofSource hread).node hnode).span
    exact ⟨hspan ▸ hinText.succ, .inl ⟨hraises, node, hnode, hspan⟩⟩
  · have hspan := hraises.span_eq
    refine ⟨?_, .inr ⟨hraises, hspan⟩⟩
    rw [hspan]
    exact ⟨Nat.lt_succ_self 0, Nat.le_add_left 1 _⟩

/-- Every error that a run ends in has its place in the text. A lexical error and one of the
    running program are shown where their span begins, a syntax error at the token at fault. And
    the span of an error of the running program is that of a node of the program, which may be
    in a function far from the call; only a flush that fails in the end has none. -/
theorem interpret_error_located {settings : Settings} {fuel : Nat} {source : String}
    {input : Input} {output : Sink} {failure : Failure} {shown : Diagnostic}
    (hfailed : (interpret settings fuel source input output).1 = .failed failure)
    (hshown : failure.toDiagnosticIn source = shown) :
    shown.position.isSome = true ∧ shown.span.start < shown.span.stop ∧
      shown.span.stop ≤ source.length + 1 ∧
      (shown.kind ≠ .syntactic → shown.position = some (.ofOffset source shown.span.start)) ∧
      (∀ error, failure = .syntactic error →
        shown.span = error.span ∧ shown.position = some error.found.position ∧
          ∃ tokens, Token.ofSource source = .ok tokens ∧ error.ShownAt tokens) ∧
      ∀ error, failure = .runtime error →
        shown.span = error.span ∧ ∃ program, Program.ofSource source = .ok program ∧
          ((program.EntryRaises settings.callDepthLimit fuel (.start input output) error ∧
              ∃ node, program.Contains node ∧ node.span = error.span) ∨
            (program.FlushRaises settings.callDepthLimit fuel (.start input output) error ∧
              error.span = .single 0)) := by
  subst hshown
  obtain hread | ⟨program, error, next, hread, hrun, rfl⟩ := interpret_eq_failed_iff.mp hfailed
  · obtain ⟨error, herror, rfl⟩ | ⟨tokens, error, htokens, herror, rfl⟩ :=
      Program.ofSource_eq_error_iff.mp hread
    · obtain ⟨hspan, hposition⟩ := Token.located_of_ofSource_eq_error herror
      refine ⟨rfl, hspan.start_lt_stop, hspan.succ.stop_le, ?_, ?_, ?_⟩
      · intro _
        exact congrArg some hposition
      · rintro _ ⟨⟩
      · rintro _ ⟨⟩
    · obtain ⟨hshown, hspan⟩ := SyntaxError.shownAt_of_ofTokens htokens herror
      refine ⟨rfl, hspan.start_lt_stop, hspan.stop_le, ?_, ?_, ?_⟩
      · intro hkind
        exact absurd rfl hkind
      · rintro _ ⟨⟩
        exact ⟨rfl, rfl, tokens, htokens, hshown⟩
      · rintro _ ⟨⟩
  · obtain ⟨hspan, hplace⟩ := Program.error_located hread hrun
    refine ⟨rfl, hspan.start_lt_stop, hspan.stop_le, fun _ => rfl, ?_, ?_⟩
    · rintro _ ⟨⟩
    · rintro _ ⟨⟩
      exact ⟨rfl, program, hread, hplace⟩

/-- A function that divides by its argument, and is called on zero. -/
def dividing : String :=
  "kawaii f(x) sayonara 1 / x\nuWu_nyaa() => f(0)"

/-- The error is shown at the quotient, and not at the call that leads to it. -/
theorem interpret_error_located_dividing :
    ∃ failure shown, (interpret {} 8 dividing {} {}).1 = .failed failure ∧
      failure.toDiagnosticIn dividing = shown ∧ shown.span = ⟨21, 26⟩ ∧
      shown.position = some ⟨1, 22⟩ ∧
      ∃ program node, Program.ofSource dividing = .ok program ∧ program.Contains node ∧
        node.span = ⟨21, 26⟩ := by
  have hfailed : (interpret {} 8 dividing {} {}).1 =
      .failed (.runtime ⟨.divisionByZero, ⟨21, 26⟩⟩) := by decide +kernel
  obtain ⟨_, _, _, hposition, _, hruntime⟩ := interpret_error_located hfailed rfl
  obtain ⟨_, program, hread, ⟨_, node, hnode, hspan⟩ | ⟨_, hspan⟩⟩ := hruntime _ rfl
  · have hplace : Position.ofOffset dividing 21 = ⟨1, 22⟩ := by decide +kernel
    refine ⟨_, _, hfailed, rfl, rfl, ?_, program, node, hread, hnode, hspan⟩
    rw [hposition nofun]
    exact congrArg some hplace
  · cases hspan

end KawaiiLang
