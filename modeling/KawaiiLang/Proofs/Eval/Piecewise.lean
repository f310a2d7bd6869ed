import KawaiiLang.Proofs.Eval.Callable
import KawaiiLang.Proofs.Eval.History
import KawaiiLang.Proofs.Eval.Isolation
import KawaiiLang.Proofs.Stream.Sink
import KawaiiLang.Settings

namespace KawaiiLang

namespace Machine

/-- The machine as if its output had never been flushed. -/
def unflushed (machine : Machine) : Machine :=
  { machine with output := machine.output.unflushed }

/-- The machine after a flush of its output. -/
def flushed (machine : Machine) : Machine :=
  { machine with output := machine.output.flush.2 }

theorem unflushed_flushed (machine : Machine) : machine.flushed.unflushed = machine.unflushed :=
  rfl

end Machine

namespace Law

variable {limit : Nat} (law : Law limit) {machine before after : Machine}

theorem ready_of_unflushed (hready : law.ready machine.unflushed) : law.ready machine :=
  law.ready_of_change hready (law.output machine.unflushed machine.output)

theorem change_unflushed (hchange : law.change .write before after) :
    law.change .write before.unflushed after.unflushed :=
  have hbefore := law.write_of_read (law.output before.unflushed before.output)
  have hafter := law.write_of_read (law.output after after.unflushed.output)
  law.trans hbefore (law.trans hchange hafter)

end Law

theorem Eval.flush_of_ignoresFlushes {machine : Machine} (hmachine : machine.output.IgnoresFlushes)
    (span : Span) : flush span machine = .ok () machine.flushed := by
  rw [flush_apply, Sink.flush_fst hmachine.flushed]
  rfl

namespace Simulation

variable {limit : Nat}

/-- Two machines are related but for how their outputs have been flushed, and these ignore it. -/
structure Unflushed (simulation : Simulation limit) (first second : Machine) : Prop where
  related : simulation.related first.unflushed second.unflushed
  ignores_first : first.output.IgnoresFlushes
  ignores_second : second.output.IgnoresFlushes

theorem Unflushed.flushed {simulation : Simulation limit} {first second : Machine}
    (hsame : simulation.Unflushed first second) :
    simulation.Unflushed first second.flushed :=
  ⟨hsame.related, hsame.ignores_first,
    second.output.extends_flush.ignoresFlushes hsame.ignores_second⟩

/-- What keeps a relation does so, too, if flushes are not counted. -/
def unflushed (simulation : Simulation limit) : Simulation limit where
  law := simulation.law
  pairing := simulation.pairing
  related := simulation.Unflushed
  ready hsame := by
    obtain ⟨hfirst, hsecond⟩ := simulation.ready hsame.related
    exact ⟨simulation.law.ready_of_unflushed hfirst, simulation.law.ready_of_unflushed hsecond⟩
  depth_eq hsame := by
    have hdepth := simulation.depth_eq hsame.related
    exact hdepth
  input_eq hsame := by
    have hinput := simulation.input_eq hsame.related
    exact hinput
  get name hsame := by
    have hget := simulation.get name hsame.related
    exact hget
  input input hsame := ⟨simulation.input input hsame.related, hsame.2, hsame.3⟩
  write {first second} text hsame := by
    obtain ⟨hresult, hnext⟩ := simulation.write text hsame.related
    simp only [Machine.unflushed, hsame.ignores_first.write_unflushed,
      hsame.ignores_second.write_unflushed] at hresult hnext
    exact ⟨hresult, hnext, (first.output.extends_write text).ignoresFlushes hsame.ignores_first,
      (second.output.extends_write text).ignoresFlushes hsame.ignores_second⟩
  flush {first second} hsame := by
    refine ⟨?_, hsame.related, first.output.extends_flush.ignoresFlushes hsame.ignores_first,
      second.output.extends_flush.ignoresFlushes hsame.ignores_second⟩
    rw [Sink.flush_fst hsame.ignores_first.flushed, Sink.flush_fst hsame.ignores_second.flushed]
  define name hsame hvalue := ⟨simulation.define name hsame.related hvalue, hsame.2, hsame.3⟩
  update hsame hget hget' happly happly' :=
    ⟨simulation.update hsame.related hget hget' happly happly', hsame.2, hsame.3⟩
  enter hsame hdepth hclosure hargs := by
    obtain ⟨hentered, hleave⟩ := simulation.enter hsame.related hdepth hclosure hargs
    refine ⟨⟨hentered, hsame.2, hsame.3⟩, ?_⟩
    intro next next' hchange hchange' hnext
    exact ⟨hleave _ _ (simulation.law.change_unflushed hchange)
      (simulation.law.change_unflushed hchange') hnext.related, hnext.2, hnext.3⟩

end Simulation

/-- A line of a session that does what the statements do. -/
inductive Line.Covers : Line → List Stmt → Prop where
  | statements (body : List Stmt) : Covers (.statements body) body
  | expression {statement : Stmt} {expression : Expr}
      (hexpression : statement.callable? = some expression) :
      Covers (.expression expression) [statement]

namespace Eval

variable {limit fuel : Nat}

/-- Runs lines of an interactive session one after the other, up to the first that fails. -/
def runLines (limit fuel : Nat) : List Line → Eval Unit
  | [] => return
  | line :: lines => do
    let _ ← runLine limit fuel line
    runLines limit fuel lines

theorem runLines_append (limit fuel : Nat) (earlier later : List Line) {machine next : Machine}
    (hearlier : runLines limit fuel earlier machine = .ok () next) :
    runLines limit fuel (earlier ++ later) machine = runLines limit fuel later next := by
  induction earlier generalizing machine with
  | nil =>
    cases hearlier
    rfl
  | cons line earlier ih =>
    rw [runLines, bind_eq_ok_iff] at hearlier
    obtain ⟨value, middle, hline, hearlier⟩ := hearlier
    rw [List.cons_append, runLines, bind_of_eq_ok hline, ih hearlier]

/-- Statements that all end normally do so in two parts. -/
theorem runBody_append_eq_normal {execute : Stmt → Eval Outcome} {earlier later : List Stmt}
    {machine final : Machine}
    (hbody : runBody execute (earlier ++ later) machine = .ok .normal final) :
    ∃ middle, runBody execute earlier machine = .ok .normal middle ∧
      runBody execute later middle = .ok .normal final := by
  induction earlier generalizing machine with
  | nil => exact ⟨machine, rfl, hbody⟩
  | cons first rest ih =>
    rw [List.cons_append, runBody, bind_eq_ok_iff] at hbody
    obtain ⟨outcome, next, hfirst, hrest⟩ := hbody
    cases outcome with
    | normal =>
      obtain ⟨middle, hmiddle, hlater⟩ := ih hrest
      refine ⟨middle, ?_, hlater⟩
      rw [runBody, bind_of_eq_ok hfirst]
      exact hmiddle
    | returned | broke | continued => cases hrest

/-- An expression that makes up a statement gives a value where the statement ends. -/
theorem evaluate_of_executeBody {statement : Stmt} {expression : Expr}
    (hexpression : statement.callable? = some expression) {machine next : Machine}
    {outcome : Outcome}
    (hbody : executeBody limit fuel [statement] machine = .ok outcome next) :
    ∃ value, evaluate limit fuel expression machine = .ok value next := by
  rw [executeBody_of_callable? hexpression, bind_eq_ok_iff] at hbody
  obtain ⟨value, middle, hvalue, hend⟩ := hbody
  obtain ⟨_, rfl⟩ := pure_eq_ok_iff.mp hend
  exact ⟨value, hvalue⟩

section

variable {simulation : Simulation limit} {first second next : Machine}

/-- A line does on one machine what the statements do on the other, if these end normally. -/
theorem runLine_of_covers {line : Line} {piece : List Stmt} (hcovers : line.Covers piece)
    (hsame : simulation.Unflushed first second)
    (hpiece : executeBody limit fuel piece first = .ok .normal next) :
    ∃ value next', runLine limit fuel line second = .ok value next' ∧
      simulation.Unflushed next next' := by
  have hperform : ∃ effect middle, perform limit fuel line second = .ok effect middle ∧
      simulation.Unflushed next middle := by
    cases hcovers with
    | statements =>
      have hfollows := simulation.unflushed.matches_executeBody (Nat.le_refl fuel) piece _ _ hsame
      rw [hpiece] at hfollows
      obtain ⟨_, hleft⟩ | ⟨_, outcome, _, middle, hleft, hright, _, hnext⟩ |
        ⟨_, _, _, hleft, _⟩ := hfollows.cases
      · cases hleft
      · cases hleft
        refine ⟨.outcome outcome, middle, ?_, hnext⟩
        rw [perform, bind_of_eq_ok hright]
        rfl
      · cases hleft
    | @expression statement expression hexpression =>
      obtain ⟨value, hvalue⟩ := evaluate_of_executeBody hexpression hpiece
      have hfollows := simulation.unflushed.matches_evaluate (Nat.le_refl fuel) expression _ _ hsame
      rw [hvalue] at hfollows
      obtain ⟨_, hleft⟩ | ⟨_, value', _, middle, hleft, hright, _, hnext⟩ |
        ⟨_, _, _, hleft, _⟩ := hfollows.cases
      · cases hleft
      · cases hleft
        refine ⟨.value value', middle, ?_, hnext⟩
        rw [perform, bind_of_eq_ok hright]
        rfl
      · cases hleft
  obtain ⟨effect, middle, hperform, hnext⟩ := hperform
  refine ⟨effect.shown, middle.flushed, ?_, hnext.flushed⟩
  rw [runLine_of_perform hperform, bind_of_eq_ok (flush_of_ignoresFlushes hnext.ignores_second _)]
  rfl

/-- By induction on the pieces: behind each of them the two machines are related as before. -/
theorem runLines_of_covers {lines : List Line} {pieces : List (List Stmt)}
    (hcovers : List.Forall₂ Line.Covers lines pieces) (hsame : simulation.Unflushed first second)
    (hpieces : executeBody limit fuel pieces.flatten first = .ok .normal next) :
    ∃ next', runLines limit fuel lines second = .ok () next' ∧
      simulation.Unflushed next next' := by
  induction hcovers generalizing first second with
  | nil =>
    cases hpieces
    exact ⟨second, rfl, hsame⟩
  | @cons line piece lines pieces hline _ ih =>
    rw [List.flatten_cons] at hpieces
    obtain ⟨middle, hpiece, hrest⟩ := runBody_append_eq_normal hpieces
    obtain ⟨value, middle', hline, hmiddle⟩ := runLine_of_covers hline hsame hpiece
    obtain ⟨next', hlines, hnext⟩ := ih hmiddle hrest
    refine ⟨next', ?_, hnext⟩
    rw [runLines, bind_of_eq_ok hline]
    exact hlines

end

/-- Lines that define functions leave the machine with these, and have flushed its output. -/
theorem runLines_definitions (limit fuel : Nat) (functions : List FunctionDef) {machine : Machine}
    (hmachine : machine.output.IgnoresFlushes) :
    ∃ next, runLines limit fuel (functions.map .definition) machine = .ok () next ∧
      next.unflushed = machine.unflushed.definedAll functions ∧ next.output.IgnoresFlushes := by
  induction functions generalizing machine with
  | nil => exact ⟨machine, rfl, rfl, hmachine⟩
  | cons function functions ih =>
    have hdefined : (machine.defined function).output.IgnoresFlushes := hmachine
    have hperform : perform limit fuel (.definition function) machine =
        .ok .defined (machine.defined function) := rfl
    have hflushed : (machine.defined function).flushed.output.IgnoresFlushes :=
      (Sink.extends_flush _).ignoresFlushes hdefined
    obtain ⟨next, hlines, hnext, hignores⟩ := ih hflushed
    refine ⟨next, ?_, ?_, hignores⟩
    · rw [List.map_cons, runLines, bind_of_eq_ok]
      · exact hlines
      · rw [runLine_of_perform hperform, bind_of_eq_ok (flush_of_ignoresFlushes hdefined _)]
        rfl
    · rw [hnext, Machine.unflushed_flushed]
      rfl

theorem restored_runLines {lines : List Line} {machine next : Machine}
    (hlines : runLines limit fuel lines machine = .ok () next) : machine.Restored next := by
  induction lines generalizing machine with
  | nil =>
    cases hlines
    exact .refl _
  | cons line lines ih =>
    rw [runLines, bind_eq_ok_iff] at hlines
    obtain ⟨value, middle, hline, hlines⟩ := hlines
    have hrestored := (Machine.restoring limit).change_runLine fuel line machine trivial
    rw [hline] at hrestored
    exact (Machine.restored_definedAll _ line.definitions).trans (.trans hrestored (ih hlines))

end Eval

namespace Machine

theorem unflushed_definedAll (machine : Machine) (functions : List FunctionDef) :
    (machine.definedAll functions).unflushed = machine.unflushed.definedAll functions := by
  induction functions generalizing machine with
  | nil => rfl
  | cons function functions ih => exact ih (machine.defined function)

theorem own?_definedAll_of_ne {machine : Machine} (hscoped : machine.WellScoped)
    (functions : List FunctionDef) {id : FrameId} (hid : id ≠ globals) (name : String) :
    (machine.definedAll functions).store.own? id name = machine.store.own? id name := by
  induction functions generalizing machine with
  | nil => rfl
  | cons function functions ih =>
    exact (ih (hscoped.defined function)).trans
      ((own?_defined hscoped function id name).trans (if_neg fun hboth => hid hboth.1))

theorem session_ne_globals : session ≠ globals := by
  decide

/-- Where the main entry of a program begins, and where a session is once it has defined the
    same functions. -/
theorem twins_main_session (input : Input) (output : Sink) (functions : List FunctionDef) :
    (((start input output).definedAll functions).inner mainFrame).Twins .same
      ((start input output).definedAll functions) where
  global name := by
    have hscoped := (wellScoped_start input output).definedAll functions
    rw [hscoped.own?_inner_globals]
    exact Value.rel_same _
  depth := rfl
  input := rfl
  output := rfl
  scoped_first := ((wellScoped_start input output).definedAll functions).main
  scoped_second := (wellScoped_start input output).definedAll functions
  own name := by
    have hscope := (restored_definedAll (start input output) functions).scope
    have hnone := own?_definedAll_of_ne (wellScoped_start input output) functions session_ne_globals
    rw [inner, Store.own?_push, if_pos rfl, hscope]
    exact (hnone name).symm ▸ .none

end Machine

open Eval

/-- A program and a session agree. If all statements of a program's main entry end normally, then
    a session that defines the same functions and is then given the same statements, in pieces of
    any length, succeeds with every line; a single statement that is a call, or that prints or
    reads, may be given as an expression. The session writes the same as the program, reads the
    same, and its names have the values in the end that they have at the end of the main entry.
    All that is assumed of the output is that it refuses no flush, of which there are more in the
    session, and takes the same texts with and without them. -/
theorem Program.session_agrees {settings : Settings} {fuel : Nat} {functions : List FunctionDef}
    {lines : List Line} {pieces : List (List Stmt)} {input : Input} {output : Sink}
    {main : Machine} (hflushes : output.IgnoresFlushes)
    (hcovers : List.Forall₂ Line.Covers lines pieces)
    (hmain : executeBody settings.callDepthLimit fuel pieces.flatten
      (((Machine.start input output).definedAll functions).inner Machine.mainFrame) =
        .ok .normal main) :
    ∃ last final,
      runProgram settings.callDepthLimit fuel ⟨functions, some (.block pieces.flatten)⟩
        (.start input output) = .ok () last ∧
      runLines settings.callDepthLimit fuel (functions.map .definition ++ lines)
        (.start input output) = .ok () final ∧
      final.output.kept = last.output.kept ∧ final.input = last.input ∧
      final.scope = Machine.session ∧
      ∀ name, final.store.own? Machine.session name = main.store.own? main.scope name := by
  generalize settings.callDepthLimit = limit at *
  have hstart : (Machine.start input output).output.IgnoresFlushes := hflushes
  obtain ⟨defined, hdefinitions, hdefined, hignores⟩ :=
    runLines_definitions limit fuel functions hstart
  have hsame : (Machine.twins limit .same).Unflushed
      (((Machine.start input output).definedAll functions).inner Machine.mainFrame) defined := by
    refine ⟨?_, ?_, hignores⟩
    · have hinner : (((Machine.start input output).definedAll functions).inner
          Machine.mainFrame).unflushed =
            ((Machine.start input output).unflushed.definedAll functions).inner Machine.mainFrame := by
        rw [← Machine.unflushed_definedAll]
        rfl
      rw [hinner, hdefined]
      exact Machine.twins_main_session input output.unflushed functions
    · rw [Machine.definedAll_eq]
      exact hflushes
  obtain ⟨final, hlines, hfinal⟩ := runLines_of_covers hcovers hsame hmain
  have htwins : main.unflushed.Twins .same final.unflushed := hfinal.related
  have hrun := (runLines_append limit fuel _ lines hdefinitions).trans hlines
  have hscope : final.scope = Machine.session := (restored_runLines hrun).scope
  let scope := ((Machine.start input output).definedAll functions).scope
  have hlast : (main.outer scope).output.IgnoresFlushes := hfinal.ignores_first
  have hprogram : runProgram limit fuel ⟨functions, some (.block pieces.flatten)⟩
      (.start input output) = .ok () (main.outer scope).flushed := by
    rw [runProgram_of_main_eq_some limit fuel _ rfl]
    exact (concluded_of_eq_ok (inFrame_of_eq_ok hmain)).trans (flush_of_ignoresFlushes hlast _)
  refine ⟨_, final, hprogram, hrun, ?_, htwins.input.symm, hscope, ?_⟩
  · exact (congrArg Sink.kept htwins.output).symm
  · intro name
    rw [← hscope]
    exact (Value.eq_of_rel_same (htwins.own name)).symm

/-- The statements of a main entry that binds the value of `f`, prints it and calls `f` again. -/
def Program.threeStatements : List Stmt :=
  [.assign "x" (.call "f" [] ⟨33, 36⟩) ⟨29, 36⟩, .print [.name "x" ⟨45, 46⟩] ⟨37, 46⟩,
    .call "f" [] ⟨47, 50⟩]

/-- A session is given the first two of them at once and the third as an expression. -/
theorem Program.session_agrees_threeStatements :
    ∃ last final,
      runProgram 256 9 ⟨[.constant "f" 1], some (.block threeStatements)⟩ (.start {} {}) =
        .ok () last ∧
      runLines 256 9 [.definition (.constant "f" 1), .statements (threeStatements.take 2),
        .expression (.call "f" [] ⟨47, 50⟩)] (.start {} {}) = .ok () final ∧
      final.output.kept = last.output.kept ∧
      final.store.own? Machine.session "x" = some (.int 1) := by
  obtain ⟨main, hmain, hown⟩ : ∃ main,
      executeBody 256 9 threeStatements
        (((Machine.start {} {}).definedAll [.constant "f" 1]).inner Machine.mainFrame) =
          .ok .normal main ∧
      main.store.own? main.scope "x" = some (.int 1) := ⟨_, by cbv, by cbv⟩
  have hcovers : List.Forall₂ Line.Covers
      [.statements (threeStatements.take 2), .expression (.call "f" [] ⟨47, 50⟩)]
      [threeStatements.take 2, threeStatements.drop 2] :=
    .cons (.statements _) (.cons (.expression rfl) .nil)
  have hsettings : Settings.callDepthLimit {} = 256 := rfl
  rw [← hsettings] at hmain ⊢
  obtain ⟨last, final, hprogram, hlines, hkept, _, _, hnames⟩ := session_agrees
    Sink.unbounded_ofNat?.ignoresFlushes hcovers hmain
  exact ⟨last, final, hprogram, hlines, hkept, (hnames "x").trans hown⟩

end KawaiiLang
