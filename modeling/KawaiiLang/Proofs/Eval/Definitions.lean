import Mathlib
import KawaiiLang.Proofs.Eval.Functions
import KawaiiLang.Proofs.Eval.Isolation
import KawaiiLang.Settings

namespace KawaiiLang

/-- The definition that the name is left with when functions are defined one after the other. -/
def Program.definition? (functions : List FunctionDef) (name : String) : Option FunctionDef :=
  (functions.filter fun function => function.name = name).getLast?

namespace Program

variable {functions functions' : List FunctionDef} {name : String}

theorem definition?_append (earlier later : List FunctionDef) (name : String) :
    definition? (earlier ++ later) name = (definition? later name).or (definition? earlier name) := by
  rw [definition?, List.filter_append, List.getLast?_append]
  rfl

theorem definition?_singleton (function : FunctionDef) (name : String) :
    definition? [function] name = if function.name = name then some function else none := by
  rw [definition?, List.filter_singleton]
  split <;> simp_all

theorem definition?_of_mem {function : FunctionDef} (hmem : function ∈ functions) :
    definition? functions function.name ≠ none := by
  rw [definition?, Ne, List.getLast?_eq_none_iff, List.filter_eq_nil_iff]
  intro hnone
  exact hnone function hmem (decide_eq_true rfl)

/-- Among functions of different names there is one definition of a name at most. -/
theorem length_filter_le_one (hnames : (functions.map FunctionDef.name).Nodup) (name : String) :
    (functions.filter fun function => function.name = name).length ≤ 1 := by
  generalize hfound : (functions.filter fun function => function.name = name) = found
  have hsame : found.map FunctionDef.name = .replicate found.length name := by
    rw [List.map_eq_replicate_iff, ← hfound]
    intro function hfunction
    exact of_decide_eq_true (List.mem_filter.mp hfunction).2
  have hnodup : (found.map FunctionDef.name).Nodup :=
    hnames.sublist (hfound ▸ List.filter_sublist.map FunctionDef.name)
  rw [hsame] at hnodup
  exact List.nodup_replicate.mp hnodup

/-- In which order functions of different names are defined makes no difference. -/
theorem definition?_perm (hperm : functions.Perm functions')
    (hnames : (functions.map FunctionDef.name).Nodup) (name : String) :
    definition? functions name = definition? functions' name := by
  have hfilter := hperm.filter fun function => function.name = name
  have hlength := length_filter_le_one hnames name
  rw [definition?, definition?]
  generalize functions.filter _ = found at hfilter hlength
  obtain _ | ⟨function, _ | ⟨other, rest⟩⟩ := found
  · rw [hfilter.nil_eq]
  · rw [List.singleton_perm.mp hfilter]
  · rw [List.length_cons, List.length_cons] at hlength
    omega

/-- A definition behind which there is another of the same name makes no difference. -/
theorem definition?_erase {before after : List FunctionDef} {function later : FunctionDef}
    (hlater : later ∈ after) (hname : later.name = function.name) (name : String) :
    definition? (before ++ function :: after) name = definition? (before ++ after) name := by
  rw [← List.singleton_append, definition?_append, definition?_append, definition?_append,
    definition?_singleton]
  split
  · next hsame =>
    have hsome := definition?_of_mem hlater
    rw [hname, hsame] at hsome
    obtain ⟨found, hfound⟩ := Option.ne_none_iff_exists'.mp hsome
    rw [hfound]
    rfl
  · rw [Option.or_none]

end Program

namespace Machine

variable {machine : Machine}

/-- The global functions have been given different stamps, all of them in the past. -/
structure Stamped (machine : Machine) : Prop where
  past {name : String} {closure : Closure} :
    machine.store.own? globals name = some (.function closure) →
    closure.stamp < machine.store.nextStamp
  unique {name name' : String} {closure closure' : Closure} :
    machine.store.own? globals name = some (.function closure) →
    machine.store.own? globals name' = some (.function closure') →
    closure.stamp = closure'.stamp → name = name'

theorem stamped_start (input : Input) (output : Sink) : (start input output).Stamped where
  past hown := nomatch hown
  unique hown := nomatch hown

theorem Stamped.defined (hstamped : machine.Stamped) (hscoped : machine.WellScoped)
    (function : FunctionDef) : (machine.defined function).Stamped := by
  have hown := own?_defined hscoped function globals
  have hnext : (machine.defined function).store.nextStamp = machine.store.nextStamp + 1 := rfl
  have hpast {name : String} {closure : Closure}
      (hclosure : machine.store.own? globals name = some (.function closure)) :
      closure.stamp ≠ machine.store.nextStamp := Nat.ne_of_lt (hstamped.past hclosure)
  constructor
  · intro name closure hclosure
    rw [hown] at hclosure
    rw [hnext]
    split at hclosure
    · cases hclosure
      exact Nat.lt_succ_self _
    · exact Nat.lt_succ_of_lt (hstamped.past hclosure)
  · intro name name' closure closure' hclosure hclosure' hstamp
    rw [hown] at hclosure hclosure'
    split at hclosure
    · next hname =>
      cases hclosure
      split at hclosure'
      · next hname' => exact hname.2.trans hname'.2.symm
      · exact absurd hstamp.symm (hpast hclosure')
    · split at hclosure'
      · cases hclosure'
        exact absurd hstamp (hpast hclosure)
      · exact hstamped.unique hclosure hclosure' hstamp

theorem Stamped.definedAll (hstamped : machine.Stamped) (hscoped : machine.WellScoped)
    (functions : List FunctionDef) : (machine.definedAll functions).Stamped := by
  induction functions generalizing machine with
  | nil => exact hstamped
  | cons function functions ih =>
    exact ih (hstamped.defined hscoped function) (hscoped.defined function)

/-- Of the functions that are defined, each name is left with the last. -/
theorem own?_definedAll_start (input : Input) (output : Sink) (functions : List FunctionDef)
    (name : String) :
    ∃ stamp, ((start input output).definedAll functions).store.own? globals name =
      (Program.definition? functions name).map fun function =>
        .function (function.closure stamp) := by
  induction functions using List.reverseRecOn with
  | nil => exact ⟨0, rfl⟩
  | append_singleton earlier function ih =>
    have hscoped := (wellScoped_start input output).definedAll earlier
    obtain ⟨stamp, hstamp⟩ := ih
    rw [definedAll, List.foldl_concat, ← definedAll, own?_defined hscoped,
      Program.definition?_append, Program.definition?_singleton]
    by_cases hname : function.name = name
    · rw [if_pos ⟨rfl, hname.symm⟩, if_pos hname]
      exact ⟨_, rfl⟩
    · rw [if_neg fun hboth => hname hboth.2.symm, if_neg hname, Option.none_or]
      exact ⟨stamp, hstamp⟩

/-- The functions of two machines are paired by the names that they have in the global frames. -/
def Stamped.pairing {first second : Machine} (hfirst : first.Stamped) (hsecond : second.Stamped) :
    Pairing where
  pairs a b := ∃ name closure closure',
    first.store.own? globals name = some (.function closure) ∧ closure.stamp = a ∧
    second.store.own? globals name = some (.function closure') ∧ closure'.stamp = b
  unique := by
    rintro _ _ _ _ ⟨name, closure, closure', hown, rfl, hown', rfl⟩
      ⟨other, closed, closed', hother, rfl, hother', rfl⟩
    constructor
    · intro hstamp
      obtain rfl := hfirst.unique hown hother hstamp
      cases hown'.symm.trans hother'
      rfl
    · intro hstamp
      obtain rfl := hsecond.unique hown' hother' hstamp
      cases hown.symm.trans hother
      rfl

end Machine

section

variable {functions functions' : List FunctionDef} {input : Input} {output : Sink}

namespace Machine

/-- Functions that leave every name with the same definition leave machines that agree. -/
theorem agree_definedAll_start
    (hsame : ∀ name, Program.definition? functions name = Program.definition? functions' name)
    (hfirst : ((start input output).definedAll functions).Stamped)
    (hsecond : ((start input output).definedAll functions').Stamped) :
    ((start input output).definedAll functions).Agree (hfirst.pairing hsecond)
      ((start input output).definedAll functions') where
  global name := by
    obtain ⟨stamp, hown⟩ := own?_definedAll_start input output functions name
    obtain ⟨stamp', hown'⟩ := own?_definedAll_start input output functions' name
    rw [← hsame] at hown'
    cases hfunction : Program.definition? functions name with
    | none =>
      rw [hown, hown', hfunction]
      exact .none
    | some function =>
      rw [hfunction] at hown hown'
      rw [hown, hown']
      exact .some (.function ⟨⟨name, _, _, hown, rfl, hown', rfl⟩, rfl, rfl, rfl, rfl⟩)
  depth := by rw [definedAll_eq, definedAll_eq _ functions']
  input := by rw [definedAll_eq, definedAll_eq _ functions']
  output := by rw [definedAll_eq, definedAll_eq _ functions']

/-- The main entry begins in twins. -/
theorem Agree.twins_main {pairing : Pairing} {first second : Machine}
    (hagree : first.Agree pairing second) (hfirst : first.WellScoped) (hsecond : second.WellScoped) :
    (first.inner mainFrame).Twins pairing (second.inner mainFrame) where
  global name := by
    rw [hfirst.own?_inner_globals, hsecond.own?_inner_globals]
    exact hagree.global name
  depth := hagree.depth
  input := hagree.input
  output := hagree.output
  scoped_first := hfirst.main
  scoped_second := hsecond.main
  own name := by
    rw [inner, inner, Store.own?_push, Store.own?_push, if_pos rfl, if_pos rfl]
    exact .none

end Machine

namespace Eval

variable {α β : Type}

/-- What is seen from outside of a run that has come to its end: how it ended, what it has left
    of the input, and the output. -/
def observed : EStateM.Result Interrupt Machine α → Option (Except Failure α × Input × Sink)
  | .ok value machine => some (.ok value, machine.input, machine.output)
  | .error (.failure failure) machine => some (.error failure, machine.input, machine.output)
  | .error .outOfFuel _ => none

theorem observed_ended (result : Except RuntimeError α) (machine : Machine) :
    observed (ended result machine) =
      some (result.mapError .runtime, machine.input, machine.output) := by
  cases result <;> rfl

theorem exists_outOfFuel_of_follows {machines : Machine → Machine → Prop}
    {values : α → β → Prop} {left : EStateM.Result Interrupt Machine α} {second : Machine}
    (hfollows : Simulation.Follows machines values left (.error .outOfFuel second)) :
    ∃ first, left = .error .outOfFuel first := by
  obtain houtOfFuel | ⟨_, _, _, _, _, hright, _⟩ | ⟨_, _, _, _, hright, _⟩ := hfollows.cases
  · exact houtOfFuel
  · cases hright
  · cases hright

/-- Main entries that follow each other, each the other, look the same from outside. -/
theorem observed_concluded_eq {pairing pairing' : Pairing} {values values' : α → α → Prop}
    {body : Eval α} {first second : Machine}
    (hfollows : Simulation.Follows (Machine.Twins pairing) values
      (body (first.inner Machine.mainFrame)) (body (second.inner Machine.mainFrame)))
    (hfollows' : Simulation.Follows (Machine.Twins pairing') values'
      (body (second.inner Machine.mainFrame)) (body (first.inner Machine.mainFrame))) :
    observed (concluded (inFrame Machine.mainFrame body) first) =
      observed (concluded (inFrame Machine.mainFrame body) second) := by
  obtain ⟨last, hleft⟩ | ⟨value, value', last, last', hleft, hright, _, htwins⟩ |
    ⟨failure, last, last', hleft, hright, htwins⟩ := hfollows.cases
  · rw [hleft] at hfollows'
    obtain ⟨last', hright⟩ := exists_outOfFuel_of_follows hfollows'
    rw [concluded_of_eq_error (inFrame_of_eq_error hleft),
      concluded_of_eq_error (inFrame_of_eq_error hright)]
    rfl
  · rw [concluded_of_eq_ok (inFrame_of_eq_ok hleft), concluded_of_eq_ok (inFrame_of_eq_ok hright),
      flush_apply, flush_apply, observed_ended, observed_ended]
    simp only [Machine.outer, htwins.input, htwins.output]
  · rw [concluded_of_eq_error (inFrame_of_eq_error hleft),
      concluded_of_eq_error (inFrame_of_eq_error hright), flush_apply, flush_apply, final_ended,
      final_ended]
    simp only [observed, Machine.outer, htwins.input, htwins.output]

/-- A program does the same with functions that leave every name with the same definition. -/
theorem observed_runProgram_eq
    (hsame : ∀ name, Program.definition? functions name = Program.definition? functions' name)
    (limit fuel : Nat) (main : Option MainEntry) :
    observed (runProgram limit fuel ⟨functions, main⟩ (.start input output)) =
      observed (runProgram limit fuel ⟨functions', main⟩ (.start input output)) := by
  have hstart := Machine.wellScoped_start input output
  have hfirst := (Machine.stamped_start input output).definedAll hstart functions
  have hsecond := (Machine.stamped_start input output).definedAll hstart functions'
  have hagree := Machine.agree_definedAll_start hsame hfirst hsecond
  cases main with
  | none =>
    rw [runProgram_of_main_eq_none limit fuel _ rfl, runProgram_of_main_eq_none limit fuel _ rfl]
    simp only [observed, hagree.input, hagree.output]
  | some main =>
    rw [runProgram_of_main_eq_some limit fuel _ rfl, runProgram_of_main_eq_some limit fuel _ rfl]
    have htwins := hagree.twins_main (hstart.definedAll functions) (hstart.definedAll functions')
    have htwins' := hagree.flip.twins_main (hstart.definedAll functions')
      (hstart.definedAll functions)
    exact observed_concluded_eq
      ((Machine.twins limit _).matches_executeBody (Nat.le_refl fuel) main.body _ _ htwins)
      ((Machine.twins limit _).matches_executeBody (Nat.le_refl fuel) main.body _ _ htwins')

end Eval
end

open Eval in
/-- The order in which a program defines functions of different names makes no difference, and
    neither does a definition behind which there is another of the same name: run on the same
    input and output with the same settings, the program ends in the same way, with the same
    error if it fails, having read and written the same. -/
theorem Program.observed_eq_of_definitions (settings : Settings) (fuel : Nat)
    (main : Option MainEntry) (input : Input) (output : Sink) :
    (∀ functions functions' : List FunctionDef, functions.Perm functions' →
      (functions.map FunctionDef.name).Nodup →
      observed (runProgram settings.callDepthLimit fuel ⟨functions, main⟩ (.start input output)) =
        observed
          (runProgram settings.callDepthLimit fuel ⟨functions', main⟩ (.start input output))) ∧
      ∀ (before after : List FunctionDef) (function later : FunctionDef), later ∈ after →
        later.name = function.name →
        observed (runProgram settings.callDepthLimit fuel ⟨before ++ function :: after, main⟩
            (.start input output)) =
          observed (runProgram settings.callDepthLimit fuel ⟨before ++ after, main⟩
            (.start input output)) := by
  constructor
  · intro functions functions' hperm hnames
    exact observed_runProgram_eq (definition?_perm hperm hnames) _ fuel main
  · intro before after function later hlater hname
    exact observed_runProgram_eq (definition?_erase hlater hname) _ fuel main

open Eval in
/-- A program that prints the value of `f`, with `f` and `g` in either order, or `f` twice. -/
theorem Program.observed_eq_of_definitions_constant :
    let main := some (.single (.print [.call "f" [] ⟨48, 51⟩] ⟨40, 51⟩))
    [FunctionDef.constant "f" 1, .constant "g" 2].Perm [.constant "g" 2, .constant "f" 1] ∧
      observed (runProgram 256 9 ⟨[.constant "f" 1, .constant "g" 2], main⟩ (.start {} {})) =
        observed (runProgram 256 9 ⟨[.constant "g" 2, .constant "f" 1], main⟩ (.start {} {})) ∧
      observed (runProgram 256 9 ⟨[.constant "f" 1, .constant "f" 2], main⟩ (.start {} {})) =
        observed (runProgram 256 9 ⟨[.constant "f" 2], main⟩ (.start {} {})) := by
  intro main
  have hperm : [FunctionDef.constant "f" 1, .constant "g" 2].Perm
      [.constant "g" 2, .constant "f" 1] := .swap ..
  obtain ⟨hpermuted, herased⟩ := observed_eq_of_definitions {} 9 main {} {}
  exact ⟨hperm, hpermuted _ _ hperm (by decide), herased [] [.constant "f" 2] _ _ (.head _) rfl⟩

end KawaiiLang
