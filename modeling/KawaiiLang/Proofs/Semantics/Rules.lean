import KawaiiLang.Proofs.Eval.Task
import KawaiiLang.Proofs.Semantics.Operator
import KawaiiLang.Proofs.Semantics.Scoping
import KawaiiLang.Proofs.Stream.Lines

namespace KawaiiLang

/-- The value that a literal stands for. -/
inductive Literal.Denotes : Literal → Value → Prop where
  | int (n : Int64) : Denotes (.int n) (.int n)
  | float (x : Float) : Denotes (.float x) (.float x)
  | str (text : String) : Denotes (.str text) (.str text)
  | bool (holds : Bool) : Denotes (.bool holds) (.bool holds)

theorem Literal.denotes_iff {literal : Literal} {value : Value} :
    literal.Denotes value ↔ Value.ofLiteral literal = value := by
  constructor
  · intro hvalue
    cases hvalue <;> rfl
  · rintro rfl
    cases literal <;> constructor

/-- The ways in which a statement can end. That an error is raised is one of them. -/
inductive Completion where
  | normal
  | returned (value : Value)
  | broke
  | continued
  | raised (error : RuntimeError)

namespace Completion

/-- What a call gives whose body ended so: only a return gives a value. -/
def collapsed : Completion → Except RuntimeError Value
  | returned value => .ok value
  | raised error => .error error
  | normal | broke | continued => .ok .unit

/-- How a statement ends that only has an effect. -/
def ofEffect {α : Type} : Except RuntimeError α → Completion
  | .ok _ => normal
  | .error error => raised error

end Completion

/-- The block that a loop body stands for: one of the two words is a block of that word. -/
def LoopBody.statements (span : Span) : LoopBody → List Stmt
  | breakOnly => [.breakLoop span]
  | continueOnly => [.continueLoop span]
  | block body => body

namespace Machine

/-- Writing a text for the node at `span`. Of a text that the output refuses it may have kept a
    part all the same. -/
inductive Sends (span : Span) (text : String) (machine : Machine) :
    Except RuntimeError Unit → Machine → Prop where
  | done {output : Sink} (houtput : machine.output.write text = (.ok (), output)) :
      Sends span text machine (.ok ()) { machine with output }
  | refused {output : Sink} {fault : StreamFault}
      (houtput : machine.output.write text = (.error fault, output)) :
      Sends span text machine (.error ⟨.stream fault, span⟩) { machine with output }

/-- Asking the output to pass on what was written. -/
inductive Flushes (span : Span) (machine : Machine) :
    Except RuntimeError Unit → Machine → Prop where
  | done {output : Sink} (houtput : machine.output.flush = (.ok (), output)) :
      Flushes span machine (.ok ()) { machine with output }
  | refused {output : Sink} {fault : StreamFault}
      (houtput : machine.output.flush = (.error fault, output)) :
      Flushes span machine (.error ⟨.stream fault, span⟩) { machine with output }

/-- Printing some values on a line of their own. The end of the line is only written behind a
    text that was. -/
inductive Prints (span : Span) (values : List Value) (machine : Machine) :
    Except RuntimeError Unit → Machine → Prop where
  | line {text : String} {middle next : Machine} {ending : Except RuntimeError Unit}
      (htext : Value.DisplayLine values text) (hline : machine.Sends span text (.ok ()) middle)
      (hend : middle.Sends span "\n" ending next) : Prints span values machine ending next
  | refused {text : String} {next : Machine} {error : RuntimeError}
      (htext : Value.DisplayLine values text) (hline : machine.Sends span text (.error error) next) :
      Prints span values machine (.error error) next

/-- Reading the first line of the input, without the characters that end it. A line that is no
    text is used up all the same. -/
inductive Receives (span : Span) (machine : Machine) :
    Except RuntimeError Value → Machine → Prop where
  | line {line : InputLine} {input : Input} {text content : String}
      (hline : machine.input.FirstLine line input) (htext : text.toUTF8.data.toList = line.bytes)
      (hcontent : InputLine.Stripped text content) :
      Receives span machine (.ok (.str content)) { machine with input }
  | notText {line : InputLine} {input : Input} (hline : machine.input.FirstLine line input)
      (htext : ∀ text : String, text.toUTF8.data.toList ≠ line.bytes) :
      Receives span machine (.error ⟨.stream .notText, span⟩) { machine with input }
  | exhausted (hbytes : machine.input.bytes = []) :
      Receives span machine (.error ⟨.inputExhausted, span⟩) machine

/-- Asking for a line, with a prompt or without. -/
inductive Asks (span : Span) : Option String → Machine → Except RuntimeError Value → Machine → Prop where
  | prompt {text : String} {machine middle next : Machine} {ending : Except RuntimeError Value}
      (hsends : machine.Sends span text (.ok ()) middle) (hasks : Asks span none middle ending next) :
      Asks span (some text) machine ending next
  | promptRefused {text : String} {machine next : Machine} {error : RuntimeError}
      (hsends : machine.Sends span text (.error error) next) :
      Asks span (some text) machine (.error error) next
  | line {machine middle next : Machine} {ending : Except RuntimeError Value}
      (hflushes : machine.Flushes span (.ok ()) middle) (hreceives : middle.Receives span ending next) :
      Asks span none machine ending next
  | flushRefused {machine next : Machine} {error : RuntimeError}
      (hflushes : machine.Flushes span (.error error) next) :
      Asks span none machine (.error error) next

end Machine

namespace Task

/-- How a task can end. -/
@[reducible] def Ending : Task → Type
  | evaluate _ | call .. => Except RuntimeError Value
  | evaluateAll _ => Except RuntimeError (List Value)
  | execute _ | run _ | choose .. | loop .. => Completion

/-- The natural semantics, for calls that nest at most `limit` deep:
    `Ends limit task machine ending next` if `task`, begun on `machine`, ends as `ending`
    says and leaves `next` behind. A task that never ends has no derivation. -/
inductive Ends (limit : Nat) : (task : Task) → Machine → task.Ending → Machine → Prop where
  -- Expressions.
  | literal {literal : Literal} {span : Span} {machine : Machine} {value : Value}
      (hvalue : literal.Denotes value) :
      Ends limit (.evaluate (.literal literal span)) machine (.ok value) machine
  | name {name : String} {span : Span} {machine : Machine} {value : Value}
      (hvalue : machine.Sees name value) :
      Ends limit (.evaluate (.name name span)) machine (.ok value) machine
  | undefinedVariable {name : String} {span : Span} {machine : Machine}
      (hnone : ∀ value, ¬ machine.Sees name value) :
      Ends limit (.evaluate (.name name span)) machine (.error ⟨.undefinedVariable name, span⟩) machine
  | unary {op : UnaryOp} {operand : Expr} {span : Span} {machine next : Machine} {value given : Value}
      (hoperand : Ends limit (.evaluate operand) machine (.ok value) next)
      (hgives : op.Gives value (.ok given)) :
      Ends limit (.evaluate (.unary op operand span)) machine (.ok given) next
  | unaryFault {op : UnaryOp} {operand : Expr} {span : Span} {machine next : Machine}
      {value : Value} {fault : RuntimeFault}
      (hoperand : Ends limit (.evaluate operand) machine (.ok value) next)
      (hgives : op.Gives value (.error fault)) :
      Ends limit (.evaluate (.unary op operand span)) machine (.error ⟨fault, span⟩) next
  | unaryRaised {op : UnaryOp} {operand : Expr} {span : Span} {machine next : Machine}
      {error : RuntimeError} (hoperand : Ends limit (.evaluate operand) machine (.error error) next) :
      Ends limit (.evaluate (.unary op operand span)) machine (.error error) next
  | binary {op : BinaryOp} {left right : Expr} {span : Span} {machine middle next : Machine}
      {first second given : Value} (hleft : Ends limit (.evaluate left) machine (.ok first) middle)
      (hright : Ends limit (.evaluate right) middle (.ok second) next)
      (hgives : op.Gives first second (.ok given)) :
      Ends limit (.evaluate (.binary op left right span)) machine (.ok given) next
  | binaryFault {op : BinaryOp} {left right : Expr} {span : Span} {machine middle next : Machine}
      {first second : Value} {fault : RuntimeFault}
      (hleft : Ends limit (.evaluate left) machine (.ok first) middle)
      (hright : Ends limit (.evaluate right) middle (.ok second) next)
      (hgives : op.Gives first second (.error fault)) :
      Ends limit (.evaluate (.binary op left right span)) machine (.error ⟨fault, span⟩) next
  | leftRaised {op : BinaryOp} {left right : Expr} {span : Span} {machine next : Machine}
      {error : RuntimeError} (hleft : Ends limit (.evaluate left) machine (.error error) next) :
      Ends limit (.evaluate (.binary op left right span)) machine (.error error) next
  | rightRaised {op : BinaryOp} {left right : Expr} {span : Span} {machine middle next : Machine}
      {first : Value} {error : RuntimeError}
      (hleft : Ends limit (.evaluate left) machine (.ok first) middle)
      (hright : Ends limit (.evaluate right) middle (.error error) next) :
      Ends limit (.evaluate (.binary op left right span)) machine (.error error) next
  | group {inner : Expr} {span : Span} {machine next : Machine} {ending : Except RuntimeError Value}
      (hinner : Ends limit (.evaluate inner) machine ending next) :
      Ends limit (.evaluate (.group inner span)) machine ending next
  | print {args : List Expr} {span : Span} {machine middle next : Machine} {values : List Value}
      (hargs : Ends limit (.evaluateAll args) machine (.ok values) middle)
      (hprints : middle.Prints span values (.ok ()) next) :
      Ends limit (.evaluate (.print args span)) machine (.ok .unit) next
  | printRefused {args : List Expr} {span : Span} {machine middle next : Machine}
      {values : List Value} {error : RuntimeError}
      (hargs : Ends limit (.evaluateAll args) machine (.ok values) middle)
      (hprints : middle.Prints span values (.error error) next) :
      Ends limit (.evaluate (.print args span)) machine (.error error) next
  | printRaised {args : List Expr} {span : Span} {machine next : Machine} {error : RuntimeError}
      (hargs : Ends limit (.evaluateAll args) machine (.error error) next) :
      Ends limit (.evaluate (.print args span)) machine (.error error) next
  | input {prompt : Option String} {span : Span} {machine next : Machine}
      {ending : Except RuntimeError Value} (hasks : machine.Asks span prompt ending next) :
      Ends limit (.evaluate (.input prompt span)) machine ending next
  | call {name : String} {args : List Expr} {span : Span} {machine next : Machine}
      {ending : Except RuntimeError Value}
      (hcall : Ends limit (.call name args span) machine ending next) :
      Ends limit (.evaluate (.call name args span)) machine ending next
  -- Lists of expressions, from the first to the last.
  | noValues {machine : Machine} : Ends limit (.evaluateAll []) machine (.ok []) machine
  | values {first : Expr} {rest : List Expr} {machine middle next : Machine} {value : Value}
      {values : List Value} (hfirst : Ends limit (.evaluate first) machine (.ok value) middle)
      (hrest : Ends limit (.evaluateAll rest) middle (.ok values) next) :
      Ends limit (.evaluateAll (first :: rest)) machine (.ok (value :: values)) next
  | firstRaised {first : Expr} {rest : List Expr} {machine next : Machine} {error : RuntimeError}
      (hfirst : Ends limit (.evaluate first) machine (.error error) next) :
      Ends limit (.evaluateAll (first :: rest)) machine (.error error) next
  | restRaised {first : Expr} {rest : List Expr} {machine middle next : Machine} {value : Value}
      {error : RuntimeError} (hfirst : Ends limit (.evaluate first) machine (.ok value) middle)
      (hrest : Ends limit (.evaluateAll rest) middle (.error error) next) :
      Ends limit (.evaluateAll (first :: rest)) machine (.error error) next
  -- Calls. The function is looked at before the arguments, and the depth behind them.
  | undefinedFunction {name : String} {args : List Expr} {span : Span} {machine : Machine}
      (hnone : ∀ value, ¬ machine.Sees name value) :
      Ends limit (.call name args span) machine (.error ⟨.undefinedFunction name, span⟩) machine
  | notFunction {name : String} {args : List Expr} {span : Span} {machine : Machine} {value : Value}
      (hvalue : machine.Sees name value)
      (htype : value.type ≠ .function) :
      Ends limit (.call name args span) machine (.error ⟨.notFunction name value.type, span⟩) machine
  | arityMismatch {name : String} {args : List Expr} {span : Span} {machine : Machine}
      {closure : Closure} (hclosure : machine.Sees name (.function closure))
      (harity : closure.params.length ≠ args.length) :
      Ends limit (.call name args span) machine
        (.error ⟨.arityMismatch name closure.params args.length, span⟩) machine
  | argumentRaised {name : String} {args : List Expr} {span : Span} {machine next : Machine}
      {closure : Closure} {error : RuntimeError}
      (hclosure : machine.Sees name (.function closure))
      (harity : closure.params.length = args.length)
      (hargs : Ends limit (.evaluateAll args) machine (.error error) next) :
      Ends limit (.call name args span) machine (.error error) next
  | tooDeep {name : String} {args : List Expr} {span : Span} {machine next : Machine}
      {closure : Closure} {values : List Value}
      (hclosure : machine.Sees name (.function closure))
      (harity : closure.params.length = args.length)
      (hargs : Ends limit (.evaluateAll args) machine (.ok values) next) (hdepth : limit ≤ next.depth) :
      Ends limit (.call name args span) machine (.error ⟨.recursionLimit limit name, span⟩) next
  | entered {name : String} {args : List Expr} {span : Span}
      {machine middle inside next outside : Machine} {closure : Closure} {values : List Value}
      {bindings : Bindings Value} {completion : Completion}
      (hclosure : machine.Sees name (.function closure))
      (harity : closure.params.length = args.length)
      (hargs : Ends limit (.evaluateAll args) machine (.ok values) middle)
      (hdepth : middle.depth < limit)
      (hbindings : Bindings.empty.Adds closure.params values bindings)
      (hopens : middle.Opens ⟨bindings, some closure.home⟩ inside)
      (hbody : Ends limit (.run closure.body) { inside with depth := middle.depth + 1 } completion next)
      (hcloses : next.Closes middle.scope outside) :
      Ends limit (.call name args span) machine completion.collapsed
        { outside with depth := next.depth - 1 }
  -- Statements.
  | pass {span : Span} {machine : Machine} : Ends limit (.execute (.pass span)) machine .normal machine
  | breakLoop {span : Span} {machine : Machine} :
      Ends limit (.execute (.breakLoop span)) machine .broke machine
  | continueLoop {span : Span} {machine : Machine} :
      Ends limit (.execute (.continueLoop span)) machine .continued machine
  | assign {target : String} {value : Expr} {span : Span} {machine next : Machine} {given : Value}
      {store : Store} (hvalue : Ends limit (.evaluate value) machine (.ok given) next)
      (hbinds : next.store.Binds next.scope target given store) :
      Ends limit (.execute (.assign target value span)) machine .normal { next with store }
  | assignRaised {target : String} {value : Expr} {span : Span} {machine next : Machine}
      {error : RuntimeError} (hvalue : Ends limit (.evaluate value) machine (.error error) next) :
      Ends limit (.execute (.assign target value span)) machine (.raised error) next
  | returnNothing {span : Span} {machine : Machine} :
      Ends limit (.execute (.returnWith none span)) machine (.returned .unit) machine
  | returnValue {value : Expr} {span : Span} {machine next : Machine} {given : Value}
      (hvalue : Ends limit (.evaluate value) machine (.ok given) next) :
      Ends limit (.execute (.returnWith (some value) span)) machine (.returned given) next
  | returnRaised {value : Expr} {span : Span} {machine next : Machine} {error : RuntimeError}
      (hvalue : Ends limit (.evaluate value) machine (.error error) next) :
      Ends limit (.execute (.returnWith (some value) span)) machine (.raised error) next
  | loop {condition : Expr} {body : LoopBody} {span : Span} {machine next : Machine}
      {completion : Completion} (hloop : Ends limit (.loop condition body) machine completion next) :
      Ends limit (.execute (.loop condition body span)) machine completion next
  | branch {condition : Expr} {body : List Stmt} {elifs : List (Expr × List Stmt)}
      {otherwise : Option (List Stmt)} {span : Span} {machine next : Machine}
      {completion : Completion}
      (hchoose : Ends limit (.choose ((condition, body) :: elifs) (otherwise.getD [])) machine
        completion next) :
      Ends limit (.execute (.branch condition body elifs otherwise span)) machine completion next
  | unguarded {body handler : List Stmt} {span : Span} {machine next : Machine}
      {completion : Completion} (hbody : Ends limit (.run body) machine completion next)
      (hcompletion : ∀ error, completion ≠ .raised error) :
      Ends limit (.execute (.guarded body handler span)) machine completion next
  | handled {body handler : List Stmt} {span : Span} {machine middle next : Machine}
      {error : RuntimeError} {completion : Completion}
      (hbody : Ends limit (.run body) machine (.raised error) middle)
      (hhandler : Ends limit (.run handler) middle completion next) :
      Ends limit (.execute (.guarded body handler span)) machine completion next
  | printing {args : List Expr} {span : Span} {machine middle next : Machine} {values : List Value}
      {ending : Except RuntimeError Unit}
      (hargs : Ends limit (.evaluateAll args) machine (.ok values) middle)
      (hprints : middle.Prints span values ending next) :
      Ends limit (.execute (.print args span)) machine (.ofEffect ending) next
  | printingRaised {args : List Expr} {span : Span} {machine next : Machine} {error : RuntimeError}
      (hargs : Ends limit (.evaluateAll args) machine (.error error) next) :
      Ends limit (.execute (.print args span)) machine (.raised error) next
  | asking {prompt : Option String} {span : Span} {machine next : Machine}
      {ending : Except RuntimeError Value} (hasks : machine.Asks span prompt ending next) :
      Ends limit (.execute (.input prompt span)) machine (.ofEffect ending) next
  | calling {name : String} {args : List Expr} {span : Span} {machine next : Machine}
      {ending : Except RuntimeError Value}
      (hcall : Ends limit (.call name args span) machine ending next) :
      Ends limit (.execute (.call name args span)) machine (.ofEffect ending) next
  | update {name : String} {op : UpdateOp} {span : Span} {machine : Machine} {current value : Value}
      {home : FrameId} {store : Store}
      (hfinds : machine.store.Finds name machine.scope home current)
      (hgives : op.Gives name current (.ok value))
      (hbinds : machine.store.Binds home name value store) :
      Ends limit (.execute (.update name op span)) machine .normal { machine with store }
  | updateFault {name : String} {op : UpdateOp} {span : Span} {machine : Machine} {current : Value}
      {fault : RuntimeFault} (hcurrent : machine.Sees name current)
      (hgives : op.Gives name current (.error fault)) :
      Ends limit (.execute (.update name op span)) machine (.raised ⟨fault, span⟩) machine
  | updateUndefined {name : String} {op : UpdateOp} {span : Span} {machine : Machine}
      (hnone : ∀ value, ¬ machine.Sees name value) :
      Ends limit (.execute (.update name op span)) machine (.raised ⟨.undefinedVariable name, span⟩)
        machine
  -- Bodies, up to the first statement that does not end normally.
  | finished {machine : Machine} : Ends limit (.run []) machine .normal machine
  | goesOn {first : Stmt} {rest : List Stmt} {machine middle next : Machine}
      {completion : Completion} (hfirst : Ends limit (.execute first) machine .normal middle)
      (hrest : Ends limit (.run rest) middle completion next) :
      Ends limit (.run (first :: rest)) machine completion next
  | stops {first : Stmt} {rest : List Stmt} {machine next : Machine} {completion : Completion}
      (hfirst : Ends limit (.execute first) machine completion next)
      (hcompletion : completion ≠ .normal) : Ends limit (.run (first :: rest)) machine completion next
  -- Branches: the first whose condition holds.
  | otherwise {otherwise : List Stmt} {machine next : Machine} {completion : Completion}
      (hbody : Ends limit (.run otherwise) machine completion next) :
      Ends limit (.choose [] otherwise) machine completion next
  | chosen {condition : Expr} {body otherwise : List Stmt} {rest : List (Expr × List Stmt)}
      {machine middle next : Machine} {value : Value} {completion : Completion}
      (hcondition : Ends limit (.evaluate condition) machine (.ok value) middle)
      (htruthy : value.Truthy) (hbody : Ends limit (.run body) middle completion next) :
      Ends limit (.choose ((condition, body) :: rest) otherwise) machine completion next
  | passedOver {condition : Expr} {body otherwise : List Stmt} {rest : List (Expr × List Stmt)}
      {machine middle next : Machine} {value : Value} {completion : Completion}
      (hcondition : Ends limit (.evaluate condition) machine (.ok value) middle)
      (htruthy : ¬ value.Truthy) (hrest : Ends limit (.choose rest otherwise) middle completion next) :
      Ends limit (.choose ((condition, body) :: rest) otherwise) machine completion next
  | testRaised {condition : Expr} {body otherwise : List Stmt} {rest : List (Expr × List Stmt)}
      {machine next : Machine} {error : RuntimeError}
      (hcondition : Ends limit (.evaluate condition) machine (.error error) next) :
      Ends limit (.choose ((condition, body) :: rest) otherwise) machine (.raised error) next
  -- Loops. The condition is tested before every round.
  | done {condition : Expr} {body : LoopBody} {machine next : Machine} {value : Value}
      (hcondition : Ends limit (.evaluate condition) machine (.ok value) next)
      (htruthy : ¬ value.Truthy) : Ends limit (.loop condition body) machine .normal next
  | conditionRaised {condition : Expr} {body : LoopBody} {machine next : Machine}
      {error : RuntimeError}
      (hcondition : Ends limit (.evaluate condition) machine (.error error) next) :
      Ends limit (.loop condition body) machine (.raised error) next
  | again {condition : Expr} {body : LoopBody} {span : Span} {machine middle later next : Machine}
      {value : Value} {round completion : Completion}
      (hcondition : Ends limit (.evaluate condition) machine (.ok value) middle)
      (htruthy : value.Truthy) (hbody : Ends limit (.run (body.statements span)) middle round later)
      (hround : round = .normal ∨ round = .continued)
      (hloop : Ends limit (.loop condition body) later completion next) :
      Ends limit (.loop condition body) machine completion next
  | broken {condition : Expr} {body : LoopBody} {span : Span} {machine middle next : Machine}
      {value : Value} (hcondition : Ends limit (.evaluate condition) machine (.ok value) middle)
      (htruthy : value.Truthy) (hbody : Ends limit (.run (body.statements span)) middle .broke next) :
      Ends limit (.loop condition body) machine .normal next
  | returned {condition : Expr} {body : LoopBody} {span : Span} {machine middle next : Machine}
      {value given : Value}
      (hcondition : Ends limit (.evaluate condition) machine (.ok value) middle)
      (htruthy : value.Truthy)
      (hbody : Ends limit (.run (body.statements span)) middle (.returned given) next) :
      Ends limit (.loop condition body) machine (.returned given) next
  | raised {condition : Expr} {body : LoopBody} {span : Span} {machine middle next : Machine}
      {value : Value} {error : RuntimeError}
      (hcondition : Ends limit (.evaluate condition) machine (.ok value) middle)
      (htruthy : value.Truthy)
      (hbody : Ends limit (.run (body.statements span)) middle (.raised error) next) :
      Ends limit (.loop condition body) machine (.raised error) next

end Task

/-- The semantics of a program: its functions are defined in the global frame, and its main
    entry, if there is one, runs in a frame inside that one. The output is flushed in the end;
    if that fails too, the error of the entry counts. -/
inductive Program.Ends (limit : Nat) (program : Program) (machine : Machine) :
    Except RuntimeError Unit → Machine → Prop where
  | empty {next : Machine} (hmain : program.main = none)
      (hdefines : machine.Defines program.functions next) : Ends limit program machine (.ok ()) next
  | mainEnded {main : MainEntry} {defined inside middle outside next : Machine}
      {completion : Completion} {ending : Except RuntimeError Unit}
      (hmain : program.main = some main) (hdefines : machine.Defines program.functions defined)
      (hopens : defined.Opens Machine.mainFrame inside)
      (hbody : (Task.run main.body).Ends limit inside completion middle)
      (hcompletion : ∀ error, completion ≠ .raised error)
      (hcloses : middle.Closes defined.scope outside)
      (hflushes : outside.Flushes (.single 0) ending next) : Ends limit program machine ending next
  | mainRaised {main : MainEntry} {defined inside middle outside next : Machine}
      {error : RuntimeError} {flushed : Except RuntimeError Unit}
      (hmain : program.main = some main) (hdefines : machine.Defines program.functions defined)
      (hopens : defined.Opens Machine.mainFrame inside)
      (hbody : (Task.run main.body).Ends limit inside (.raised error) middle)
      (hcloses : middle.Closes defined.scope outside)
      (hflushes : outside.Flushes (.single 0) flushed next) :
      Ends limit program machine (.error error) next

end KawaiiLang
