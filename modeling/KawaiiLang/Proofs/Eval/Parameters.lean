import KawaiiLang.Proofs.Eval.History
import KawaiiLang.Proofs.Eval.Reachable
import KawaiiLang.Proofs.Eval.Trace
import KawaiiLang.Proofs.Parse.Line
import KawaiiLang.Proofs.Parse.Source

namespace KawaiiLang

/-- No two parameters of the function have the same name. -/
def Closure.Distinct (closure : Closure) : Prop :=
  closure.params.Nodup

namespace Grammar

theorem Definition.params_nodup {input rest : List Token} {function : FunctionDef}
    (hfunction : Definition input function rest) : function.params.Nodup := by
  cases hfunction with
  | plain _ _ _ hdistinct | arrow _ _ _ _ hdistinct => exact hdistinct

theorem Definitions.params_nodup {input rest : List Token} {functions : List FunctionDef}
    (hfunctions : Definitions input functions rest) :
    ∀ function ∈ functions, function.params.Nodup := by
  induction hfunctions with
  | none => nofun
  | more hfirst _ ih => exact List.forall_mem_cons.mpr ⟨hfirst.params_nodup, ih⟩

end Grammar

/-- A program that is accepted repeats no parameter. -/
theorem Program.params_nodup_of_ofSource {source : String} {program : Program}
    (hread : ofSource source = .ok program) : ∀ function ∈ program.functions,
      function.params.Nodup := by
  obtain ⟨words, stop, _, _, _, hwhole⟩ := ofSource_eq_ok hread
  cases hwhole with
  | empty => nofun
  | main hfunctions => exact hfunctions.params_nodup

/-- Nor does a line. -/
theorem Line.params_nodup_of_ofSource {source : String} {line : Line}
    (hread : ofSource source = .ok line) : ∀ function ∈ line.definitions,
      function.params.Nodup := by
  obtain ⟨tokens, htokens, hline⟩ := readWith_eq_ok_iff.mp hread
  have hlexed := Token.asLexed_of_ofSource htokens
  obtain ⟨words, stop, rfl, hstop, hwords⟩ := hlexed.ends
  have hliterate : ∀ word ∈ words, word.Literate :=
    fun word hword => hlexed.literate word (List.mem_append_left _ hword)
  have hwhole := (ofTokens_append_eq_ok_iff hstop hwords hliterate).mp hline
  cases hwhole with
  | definition hfunction => exact List.forall_mem_singleton.mpr hfunction.params_nodup
  | empty | expression | statements => nofun

/-- The frame lies in the global one and binds the names, each to its own value, and no others. -/
structure Frame.Binds (frame : Frame) (names : List String) (values : List Value) : Prop where
  enclosing : frame.enclosing = some Machine.globals
  bound : ∀ (index : Nat) (name : String), names[index]? = some name →
    frame.bindings.find? name = values[index]?
  unbound : ∀ name, name ∉ names → frame.bindings.find? name = none

/-- A function whose parameters are distinct is entered in a frame that binds them. -/
theorem Machine.binds_callFrame {closure : Closure} {values : List Value}
    (hhome : closure.home = globals) (hdistinct : closure.Distinct)
    (hlength : closure.params.length = values.length) :
    (callFrame closure values).Binds closure.params values where
  enclosing := congrArg some hhome
  bound _ _ hname := Bindings.find?_insertAll_zip hdistinct hlength hname .empty
  unbound _ hname := Bindings.find?_insertAll_zip_of_not_mem hname values .empty

namespace Eval

variable {limit fuel : Nat} {machine next : Machine}

/-- Expressions are evaluated in turn, each of them once, from the first to the last: the one at
    an index on the state there, which gives the value at the index and the next state. All
    of these states have the frames of the first one, and are in the same frame. -/
structure InTurn (limit fuel : Nat) (expressions : List Expr) (values : List Value)
    (states : Nat → Machine) : Prop where
  length : expressions.length = values.length
  value : ∀ (index : Nat) (expression : Expr), expressions[index]? = some expression →
    ∃ value, values[index]? = some value ∧
      evaluate limit fuel expression (states index) = .ok value (states (index + 1))
  reads : ∀ index, index ≤ expressions.length → (states 0).Reads (states index)

/-- Expressions that have values have been evaluated in turn. -/
theorem exists_inTurn {expressions : List Expr} {values : List Value}
    (hscoped : machine.WellScoped)
    (hvalues : evaluateAll (evaluate limit fuel) expressions machine = .ok values next) :
    ∃ states, states 0 = machine ∧ states expressions.length = next ∧
      InTurn limit fuel expressions values states := by
  induction expressions generalizing machine values with
  | nil =>
    cases hvalues
    exact ⟨fun _ => next, rfl, rfl, rfl, nofun, fun _ _ => ⟨rfl, rfl, rfl⟩⟩
  | cons first rest ih =>
    obtain ⟨value, middle, hfirst, hrest⟩ := bind_eq_ok_iff.mp hvalues
    obtain ⟨others, last, hothers, hlast⟩ := bind_eq_ok_iff.mp hrest
    cases hlast
    obtain ⟨hreads, hmiddle, _⟩ :=
      ((Machine.scoping limit).obeys_evaluate fuel first).ready_of_eq_ok hscoped hfirst
    obtain ⟨states, rfl, hnext, hturn⟩ := ih hmiddle hothers
    refine ⟨fun index => index.casesOn machine states, rfl, hnext, ?_, ?_, ?_⟩
    · exact congrArg (· + 1) hturn.length
    · intro index expression hexpression
      cases index with
      | zero =>
        cases hexpression
        exact ⟨value, rfl, hfirst⟩
      | succ index => exact hturn.value index expression hexpression
    · intro index hindex
      cases index with
      | zero => exact ⟨rfl, rfl, rfl⟩
      | succ index =>
        exact Machine.Reads.trans hreads (hturn.reads index (Nat.le_of_succ_le_succ hindex))

/-- Expressions that raise an error do so in one of them, behind others that have values. -/
theorem exists_of_evaluateAll_eq_error {evaluate : Expr → Eval Value} {expressions : List Expr}
    {reason : Interrupt}
    (herror : evaluateAll evaluate expressions machine = .error reason next) :
    ∃ earlier expression later values middle, expressions = earlier ++ expression :: later ∧
      evaluateAll evaluate earlier machine = .ok values middle ∧
      evaluate expression middle = .error reason next := by
  induction expressions generalizing machine with
  | nil => cases herror
  | cons first rest ih =>
    cases hfirst : evaluate first machine with
    | error other middle =>
      rw [evaluateAll, bind_of_eq_error hfirst] at herror
      cases herror
      exact ⟨[], first, rest, [], machine, rfl, rfl, hfirst⟩
    | ok value middle =>
      rw [evaluateAll, bind_of_eq_ok hfirst] at herror
      cases hrest : evaluateAll evaluate rest middle with
      | ok values last =>
        rw [bind_of_eq_ok hrest] at herror
        cases herror
      | error other last =>
        rw [bind_of_eq_error hrest] at herror
        cases herror
        obtain ⟨earlier, expression, later, values, before, rfl, hearlier, hexpression⟩ := ih hrest
        refine ⟨first :: earlier, expression, later, value :: values, before, rfl, ?_, hexpression⟩
        rw [evaluateAll, bind_of_eq_ok hfirst, bind_of_eq_ok hearlier]
        rfl

end Eval

namespace Machine

/-- The machines that can be come to by running texts, as programs or as lines of a session, one
    after the other. Between them the input and the output may be used for other things. -/
inductive Used (settings : Settings) : Machine → Prop where
  | start (input : Input) (output : Sink) : Used settings (start input output)
  | streams {machine : Machine} (hused : Used settings machine) (input : Input) (output : Sink) :
      Used settings { machine with input, output }
  | program {machine : Machine} (hused : Used settings machine) (fuel : Nat) (source : String) :
      Used settings (machine.runProgram settings fuel source).2
  | line {machine : Machine} (hused : Used settings machine) (fuel : Nat) (source : String) :
      Used settings (machine.runLine settings fuel source).2

variable {settings : Settings} {machine : Machine}

theorem Used.wellScoped (hused : machine.Used settings) : machine.WellScoped := by
  induction hused with
  | start input output => exact wellScoped_start input output
  | @streams machine _ input output ih =>
    have hreads : machine.Reads { machine with input, output } := ⟨rfl, rfl, rfl⟩
    exact hreads.writes.wellScoped ih
  | program _ fuel source ih =>
    rw [Machine.runProgram]
    cases Program.ofSource source with
    | error failure => exact ih
    | ok program =>
      rw [follow, Ending.ofResult_snd]
      exact (ih.reads_runProgram _ fuel program).writes.wellScoped (ih.definedAll program.functions)
  | line _ fuel source ih =>
    rw [Machine.runLine]
    cases Line.ofSource source with
    | error failure => exact ih
    | ok line =>
      rw [follow, Ending.ofResult_snd]
      exact (ih.writes_runLine _ fuel line).wellScoped (ih.definedBy line)

/-- No function that texts have defined repeats a parameter. -/
theorem Used.holds_distinct (hused : machine.Used settings) : machine.Holds Closure.Distinct := by
  induction hused with
  | start input output => exact holds_start _ input output
  | streams _ _ _ ih => exact ih
  | program _ fuel source ih =>
    rw [Machine.runProgram]
    cases hread : Program.ofSource source with
    | error failure => exact ih
    | ok program =>
      rw [follow, Ending.ofResult_snd]
      refine Holds.runProgram (ih.definedAll program.functions ?_) _ fuel
      exact fun function hfunction _ => Program.params_nodup_of_ofSource hread function hfunction
  | line _ fuel source ih =>
    rw [Machine.runLine]
    cases hread : Line.ofSource source with
    | error failure => exact ih
    | ok line =>
      have hready : Holds Closure.Distinct (definedAll _ line.definitions) :=
        ih.definedAll line.definitions
          fun function hfunction _ => Line.params_nodup_of_ofSource hread function hfunction
      rw [follow, Ending.ofResult_snd]
      exact ((holding _ _).change_runLine fuel line _ hready).holds hready

end Machine

/-- While the program is run on `before`, once its functions are defined there, there is a moment
    at which `task` begins on `machine`. -/
def Program.Reaches (limit : Nat) (program : Program) (before : Machine) (task : Task)
    (machine : Machine) : Prop :=
  ∃ main, program.main = some main ∧ Eval.Within limit (.run main.body)
    ((before.definedAll program.functions).inner Machine.mainFrame) task machine

/-- A law about what functions are and how frames lie is kept up to every moment of a program
    that has been read from a text. -/
theorem Program.Reaches.ready {settings : Settings} {source : String} {program : Program}
    {before machine : Machine} {task : Task}
    (hreaches : program.Reaches settings.callDepthLimit before task machine)
    (hused : before.Used settings) (hread : ofSource source = .ok program) :
    machine.WellScoped ∧ machine.Holds Closure.Distinct := by
  obtain ⟨main, _, hwithin⟩ := hreaches
  constructor
  · have hdefined := hused.wellScoped.definedAll program.functions
    exact hwithin.ready (Machine.scoping _) hdefined.main
  · have hdefined := hused.holds_distinct.definedAll program.functions
      fun function hfunction _ => params_nodup_of_ofSource hread function hfunction
    exact hwithin.ready (Machine.holding _ _) (hdefined.inner nofun)

namespace Eval

section

variable {machine : Machine} {name : String}

theorem callee_of_get_eq_none (hnone : machine.store.get? machine.scope name = none) (span : Span)
    (given : Nat) :
    callee span name given machine = .error (.fault ⟨.undefinedFunction name, span⟩) machine := by
  rw [callee, bind_of_eq_ok (find?_apply name machine), hnone]
  rfl

theorem callee_of_type_ne {value : Value}
    (hvalue : machine.store.get? machine.scope name = some value) (htype : value.type ≠ .function)
    (span : Span) (given : Nat) :
    callee span name given machine =
      .error (.fault ⟨.notFunction name value.type, span⟩) machine := by
  rw [callee, bind_of_eq_ok (find?_apply name machine), hvalue]
  cases value with
  | function closure => exact absurd rfl htype
  | unit | bool | int | float | str => rfl

/-- A call that is refused evaluates nothing. -/
theorem call_of_callee_eq_error {limit : Nat} {evaluate : Expr → Eval Value}
    {run : List Stmt → Eval Outcome} {args : List Expr} {span : Span} {reason : Interrupt}
    (hcallee : callee span name args.length machine = .error reason machine) :
    call limit evaluate run span name args machine = .error reason machine := by
  rw [call, bind_of_eq_error hcallee]

/-- A call whose arguments raise an error ends in that error. -/
theorem call_of_args_eq_error {limit : Nat} {evaluate : Expr → Eval Value}
    {run : List Stmt → Eval Outcome} {args : List Expr} {span : Span} {closure : Closure}
    {reason : Interrupt} {next : Machine}
    (hclosure : machine.store.get? machine.scope name = some (.function closure))
    (harity : closure.params.length = args.length)
    (hargs : evaluateAll evaluate args machine = .error reason next) :
    call limit evaluate run span name args machine = .error reason next := by
  have hcallee := (callee_of_get hclosure span args.length).trans (if_pos harity)
  rw [call, bind_of_eq_ok hcallee, bind_of_eq_error hargs]

end

/-- Parameters receive their own arguments. Whatever has been run on the machine before, at every
    call in a run of an accepted program: if the name is that of a function with as many parameters
    as there are arguments, these are evaluated in turn and in the frame of the call, up to the
    first that raises an error, and the body begins, if the limit allows for it, in a new frame
    inside the global one that binds each parameter to the value of its own argument and
    nothing else. Else the call raises an error before anything is evaluated. -/
theorem parameters_receive_arguments {settings : Settings} {before machine : Machine}
    {source : String} {program : Program} {name : String} {args : List Expr} {span : Span}
    (hused : before.Used settings) (hread : Program.ofSource source = .ok program)
    (hcall : program.Reaches settings.callDepthLimit before (.call name args span) machine) :
    (∀ closure, machine.store.get? machine.scope name = some (.function closure) →
      closure.params.length = args.length →
      (∀ fuel values next,
        evaluateAll (evaluate settings.callDepthLimit fuel) args machine = .ok values next →
        (∃ states, states 0 = machine ∧ states args.length = next ∧
          InTurn settings.callDepthLimit fuel args values states) ∧
        (next.depth < settings.callDepthLimit →
          call settings.callDepthLimit (evaluate settings.callDepthLimit fuel)
              (executeBody settings.callDepthLimit fuel) span name args machine =
            ofBody machine.scope (executeBody settings.callDepthLimit fuel closure.body
              (next.entered closure values)) ∧
          ∃ frame, frame.Binds closure.params values ∧
            (next.entered closure values).store = machine.store.push frame ∧
            (next.entered closure values).scope = machine.store.nextFrame)) ∧
      ∀ fuel reason next,
        evaluateAll (evaluate settings.callDepthLimit fuel) args machine = .error reason next →
        call settings.callDepthLimit (evaluate settings.callDepthLimit fuel)
            (executeBody settings.callDepthLimit fuel) span name args machine =
          .error reason next ∧
        ∃ earlier arg later values states, args = earlier ++ arg :: later ∧ states 0 = machine ∧
          InTurn settings.callDepthLimit fuel earlier values states ∧
          evaluate settings.callDepthLimit fuel arg (states earlier.length) = .error reason next) ∧
    ∀ evaluate run,
      (machine.store.get? machine.scope name = none →
        call settings.callDepthLimit evaluate run span name args machine =
          .error (.fault ⟨.undefinedFunction name, span⟩) machine) ∧
      (∀ value, machine.store.get? machine.scope name = some value → value.type ≠ .function →
        call settings.callDepthLimit evaluate run span name args machine =
          .error (.fault ⟨.notFunction name value.type, span⟩) machine) ∧
      ∀ closure, machine.store.get? machine.scope name = some (.function closure) →
        closure.params.length ≠ args.length →
        call settings.callDepthLimit evaluate run span name args machine =
          .error (.fault ⟨.arityMismatch name closure.params args.length, span⟩) machine := by
  obtain ⟨hscoped, hholds⟩ := hcall.ready hused hread
  generalize settings.callDepthLimit = limit at hcall ⊢
  refine ⟨?_, ?_⟩
  · intro closure hclosure harity
    obtain ⟨home, hown⟩ := Store.exists_own?_of_get? hclosure
    have hdistinct : closure.Distinct := hholds home name _ hown closure rfl
    have hhome : closure.home = Machine.globals := hscoped.rooted_of_get hclosure closure rfl
    refine ⟨?_, ?_⟩
    · intro fuel values next hargs
      obtain ⟨states, rfl, rfl, hturn⟩ := exists_inTurn hscoped hargs
      have hreads := hturn.reads args.length (Nat.le_refl _)
      refine ⟨⟨states, rfl, rfl, hturn⟩, fun hdepth => ⟨?_, ?_⟩⟩
      · rw [call_of_get hclosure harity hargs, enter_of_lt hdepth, hreads.scope]
      · refine ⟨Machine.callFrame closure values, ?_, ?_, ?_⟩
        · exact Machine.binds_callFrame hhome hdistinct (harity.trans hturn.length)
        · exact congrArg (fun store => store.push (Machine.callFrame closure values)) hreads.store
        · exact congrArg Store.nextFrame hreads.store
    · intro fuel reason next hargs
      refine ⟨call_of_args_eq_error hclosure harity hargs, ?_⟩
      obtain ⟨earlier, arg, later, values, middle, hsplit, hearlier, harg⟩ :=
        exists_of_evaluateAll_eq_error hargs
      obtain ⟨states, hstart, rfl, hturn⟩ := exists_inTurn hscoped hearlier
      exact ⟨earlier, arg, later, values, states, hsplit, hstart, hturn, harg⟩
  · intro evaluate run
    refine ⟨?_, ?_, ?_⟩
    · intro hnone
      exact call_of_callee_eq_error (callee_of_get_eq_none hnone span _)
    · intro value hvalue htype
      exact call_of_callee_eq_error (callee_of_type_ne hvalue htype span _)
    · intro closure hclosure harity
      exact call_of_callee_eq_error ((callee_of_get hclosure span _).trans (if_neg harity))

/-- A program that calls a function of two parameters. -/
def subtracting : String :=
  "kawaii f(x, y) sayonara x - y;uWu_nyaa() => f(2, 1);"

/-- The tokens of the program, with the places where they start and end in its one line. -/
def subtractingTokens : List Token :=
  let words : List (Token.Kind × String × Option Literal × Nat × Nat) :=
    [(.keyword .kawaii, "kawaii", none, 0, 6), (.identifier, "f", none, 7, 8),
      (.symbol .leftParen, "(", none, 8, 9), (.identifier, "x", none, 9, 10),
      (.symbol .comma, ",", none, 10, 11), (.identifier, "y", none, 12, 13),
      (.symbol .rightParen, ")", none, 13, 14), (.keyword .sayonara, "sayonara", none, 15, 23),
      (.identifier, "x", none, 24, 25), (.symbol .minus, "-", none, 26, 27),
      (.identifier, "y", none, 28, 29), (.symbol .semicolon, ";", none, 29, 30),
      (.keyword .uWuNyaa, "uWu_nyaa", none, 30, 38), (.symbol .leftParen, "(", none, 38, 39),
      (.symbol .rightParen, ")", none, 39, 40), (.symbol .arrow, "=>", none, 41, 43),
      (.identifier, "f", none, 44, 45), (.symbol .leftParen, "(", none, 45, 46),
      (.integer, "2", some (.int 2), 46, 47), (.symbol .comma, ",", none, 47, 48),
      (.integer, "1", some (.int 1), 49, 50), (.symbol .rightParen, ")", none, 50, 51),
      (.symbol .semicolon, ";", none, 51, 52), (.endOfInput, "", none, 52, 53)]
  words.map fun (kind, lexeme, literal, start, stop) =>
    { kind, lexeme, literal, span := ⟨start, stop⟩, position := ⟨1, start + 1⟩ }

theorem ofSource_subtracting : Token.ofSource subtracting = .ok subtractingTokens := by
  have htokens : (Token.ofSource subtracting).toOption = some subtractingTokens := by
    decide +kernel
  cases hresult : Token.ofSource subtracting with
  | error error =>
    rw [hresult] at htokens
    cases htokens
  | ok tokens =>
    rw [hresult] at htokens
    exact congrArg Except.ok (Option.some.inj htokens)

/-- The first parameter is bound to the first argument, and the second to the second. -/
theorem parameters_receive_arguments_subtracting :
    ∃ program machine args span closure frame, Program.ofSource subtracting = .ok program ∧
      program.Reaches 1 (.start {} {}) (.call "f" args span) machine ∧
      call 1 (evaluate 1 1) (executeBody 1 1) span "f" args machine =
        ofBody machine.scope (executeBody 1 1 closure.body
          (machine.entered closure [.int 2, .int 1])) ∧
      (machine.entered closure [.int 2, .int 1]).store = machine.store.push frame ∧
      frame.bindings.find? "x" = some (.int 2) ∧ frame.bindings.find? "y" = some (.int 1) := by
  let function : FunctionDef :=
    ⟨"f", ["x", "y"], [.returnWith (some (.binary .subtract (.name "x" ⟨24, 25⟩)
      (.name "y" ⟨28, 29⟩) ⟨24, 29⟩)) ⟨15, 29⟩], ⟨0, 30⟩⟩
  let args : List Expr := [.literal (.int 2) ⟨46, 47⟩, .literal (.int 1) ⟨49, 50⟩]
  let machine := ((Machine.start {} {}).definedAll [function]).inner Machine.mainFrame
  let settings : Settings := { maxCallDepth := 1 }
  have hread : Program.ofSource subtracting =
      .ok ⟨[function], some (.single (.call "f" args ⟨44, 51⟩))⟩ :=
    readWith_eq_ok_iff.mpr ⟨_, ofSource_subtracting, by cbv⟩
  have hcall : Program.Reaches settings.callDepthLimit
      ⟨[function], some (.single (.call "f" args ⟨44, 51⟩))⟩ (.start {} {})
      (.call "f" args ⟨44, 51⟩) machine :=
    ⟨_, rfl, .part (.part .whole .firstStatement) .calling⟩
  have hclosure : machine.store.get? machine.scope "f" = some (.function (function.closure 0)) := by
    cbv
  have hused : (Machine.start {} {}).Used settings := .start {} {}
  obtain ⟨hfunction, _⟩ := parameters_receive_arguments hused hread hcall
  obtain ⟨hvalues, _⟩ := hfunction _ hclosure rfl
  obtain ⟨_, hentered⟩ := hvalues 1 [.int 2, .int 1] machine (by cbv)
  obtain ⟨hbody, frame, hframe, hstore, _⟩ := hentered Nat.zero_lt_one
  exact ⟨_, machine, args, ⟨44, 51⟩, function.closure 0, frame, hread, hcall, hbody, hstore,
    hframe.bound 0 "x" rfl, hframe.bound 1 "y" rfl⟩

end Eval
end KawaiiLang
