import Mathlib
import KawaiiLang.Proofs.Eval.History
import KawaiiLang.Proofs.Eval.Trace
import KawaiiLang.Settings

namespace KawaiiLang

namespace Eval

/-- The machine that a task leaves behind, in whichever way it ends. -/
def leftBy (limit fuel : Nat) (machine : Machine) : Task → Machine
  | .evaluate expression => final (evaluate limit fuel expression machine)
  | .evaluateAll expressions => final (evaluateAll (evaluate limit fuel) expressions machine)
  | .call name args span =>
    final (call limit (evaluate limit fuel) (executeBody limit fuel) span name args machine)
  | .execute statement => final (execute limit fuel statement machine)
  | .run body => final (executeBody limit fuel body machine)
  | .choose branches otherwise =>
    final (runBranches (evaluate limit fuel) (executeBody limit fuel) otherwise branches machine)
  | .loop condition body =>
    final (runLoop (evaluate limit fuel condition)
      (runLoopBody (executeBody limit fuel) body) fuel machine)

/-- The moments of all programs and sessions in which calls nest at most `limit` deep:
    `Moment limit active task machine` if `task` begins on `machine` at a moment at which the
    bodies of `active` functions are being run. -/
inductive Moment (limit : Nat) : Nat → Task → Machine → Prop where
  | main {functions : List FunctionDef} {machine : Machine} {program : Program} {main : MainEntry}
      (hsession : machine.Session limit functions) (hmain : program.main = some main) :
      Moment limit 0 (.run main.body) ((machine.definedAll program.functions).inner Machine.mainFrame)
  | expression {functions : List FunctionDef} {machine : Machine} {expression : Expr}
      (hsession : machine.Session limit functions) : Moment limit 0 (.evaluate expression) machine
  | statements {functions : List FunctionDef} {machine : Machine} {body : List Stmt}
      (hsession : machine.Session limit functions) : Moment limit 0 (.run body) machine
  | part {active : Nat} {task part : Task} {machine next : Machine}
      (hmoment : Moment limit active task machine) (hpart : Part limit task machine part next) :
      Moment limit active part next
  | body {active : Nat} {machine next : Machine} {fuel : Nat} {name : String} {args : List Expr}
      {span : Span} {closure : Closure} {values : List Value}
      (hmoment : Moment limit active (.call name args span) machine)
      (hclosure : machine.store.get? machine.scope name = some (.function closure))
      (harity : closure.params.length = args.length)
      (hargs : evaluateAll (evaluate limit fuel) args machine = .ok values next)
      (hdepth : next.depth < limit) :
      Moment limit (active + 1) (.run closure.body) (next.entered closure values)

/-- Where a part begins, calls are nested as deep as at the beginning of the whole. -/
theorem Part.depth_eq {limit : Nat} {task part : Task} {machine next : Machine}
    (hpart : Part limit task machine part next) : next.depth = machine.depth :=
  (hpart.change (Machine.restoring limit) trivial).depth

/-- A task leaves the call depth as it has found it. -/
theorem depth_leftBy (limit fuel : Nat) (machine : Machine) (task : Task) :
    (leftBy limit fuel machine task).depth = machine.depth := by
  have hevaluate := (Machine.restoring limit).obeys_evaluate fuel
  have hrun := (Machine.restoring limit).obeys_executeBody fuel
  cases task with
  | evaluate expression => exact (hevaluate expression machine trivial).1.depth
  | evaluateAll expressions =>
    exact (Law.obeys_evaluateAll hevaluate expressions machine trivial).1.depth
  | call name args span => exact (Law.obeys_call hevaluate hrun span name args machine trivial).1.depth
  | execute statement =>
    exact ((Machine.restoring limit).obeys_execute fuel statement machine trivial).1.depth
  | run body => exact (hrun body machine trivial).1.depth
  | choose branches otherwise =>
    exact (Law.obeys_runBranches hevaluate hrun otherwise branches machine trivial).1.depth
  | loop condition body =>
    have hloop := Law.obeys_runLoop (hevaluate condition) (Law.obeys_runLoopBody hrun body) fuel
    exact (hloop machine trivial).1.depth

theorem depth_of_evaluateAll {limit fuel : Nat} {expressions : List Expr} {values : List Value}
    {machine next : Machine}
    (hvalues : evaluateAll (evaluate limit fuel) expressions machine = .ok values next) :
    next.depth = machine.depth := by
  have hdepth := depth_leftBy limit fuel machine (.evaluateAll expressions)
  rwa [leftBy, hvalues] at hdepth

/-- At every moment the call depth is the number of function bodies that are being run,
    and it is within the limit. -/
theorem Moment.depth_eq_active {limit active : Nat} {task : Task} {machine : Machine}
    (hmoment : Moment limit active task machine) : machine.depth = active ∧ active ≤ limit := by
  induction hmoment with
  | @main _ machine program _ hsession _ =>
    have hdefined := (machine.restored_definedAll program.functions).depth
    exact ⟨hdefined.trans hsession.depth_eq_zero, Nat.zero_le limit⟩
  | expression hsession | statements hsession =>
    exact ⟨hsession.depth_eq_zero, Nat.zero_le limit⟩
  | part _ hpart ih => exact ⟨hpart.depth_eq.trans ih.1, ih.2⟩
  | @body active machine next _ _ _ _ _ _ _ _ _ hargs hdepth ih =>
    have hactive : next.depth = active := (depth_of_evaluateAll hargs).trans ih.1
    refine ⟨congrArg (· + 1) hactive, ?_⟩
    omega

/-- Ways to evaluate and execute that do at every moment what those on `fuel` do. -/
structure AgreeAtMoments (limit fuel : Nat) (evaluate' : Expr → Eval Value)
    (execute' : Stmt → Eval Outcome) : Prop where
  evaluate {active : Nat} {expression : Expr} {machine : Machine} :
    Moment limit active (.evaluate expression) machine →
    evaluate limit fuel expression machine = evaluate' expression machine
  execute {active : Nat} {statement : Stmt} {machine : Machine} :
    Moment limit active (.execute statement) machine →
    execute limit fuel statement machine = execute' statement machine

theorem traced_moment (limit : Nat) :
    Traced limit limit fun task machine => ∃ active, Moment limit active task machine where
  part := fun ⟨active, hmoment⟩ hpart => ⟨active, hmoment.part hpart⟩
  body := fun ⟨active, hmoment⟩ hclosure harity hargs hdepth =>
    ⟨active + 1, hmoment.body hclosure harity hargs hdepth⟩
  guard _ _ _ _ := .inl rfl

section

variable {limit fuel active : Nat} {evaluate' : Expr → Eval Value} {execute' : Stmt → Eval Outcome}
  {machine : Machine}

theorem AgreeAtMoments.agreeOn (hagree : AgreeAtMoments limit fuel evaluate' execute') :
    AgreeOn (fun task machine => ∃ active, Moment limit active task machine) limit fuel evaluate'
      execute' where
  evaluate := fun ⟨_, hmoment⟩ => hagree.evaluate hmoment
  execute := fun ⟨_, hmoment⟩ => hagree.execute hmoment

/-- The parts of an expression are evaluated at moments only. -/
theorem Moment.evaluateWith_eq {expression : Expr}
    (hagree : AgreeAtMoments limit fuel evaluate' execute')
    (hmoment : Moment limit active (.evaluate expression) machine) :
    Eval.evaluate limit (fuel + 1) expression machine =
      evaluateWith limit evaluate' (runBody execute') expression machine :=
  (traced_moment limit).evaluateWith_eq hagree.agreeOn ⟨active, hmoment⟩

/-- The parts of a statement are evaluated and run at moments only. -/
theorem Moment.executeWith_eq {statement : Stmt}
    (hagree : AgreeAtMoments limit fuel evaluate' execute')
    (hmoment : Moment limit active (.execute statement) machine) :
    Eval.execute limit (fuel + 1) statement machine =
      executeWith limit fuel evaluate' (runBody execute') statement machine :=
  (traced_moment limit).executeWith_eq hagree.agreeOn ⟨active, hmoment⟩

end

/-- At every moment of every program and session, the call depth is the number of function
    bodies that are being run, and at most the limit; it is the same again when what begins
    at that moment has ended. These moments are all: what begins at one of them asks for
    nothing to be evaluated or executed elsewhere. A call of a function on as many arguments
    as it takes, once these have been evaluated, raises an error of its own just if the depth
    is the limit, and else it begins the body one call deeper. -/
theorem Moment.depth_within_limit {settings : Settings} {active : Nat} {task : Task}
    {machine : Machine} (hmoment : Moment settings.callDepthLimit active task machine) :
    machine.depth = active ∧ machine.depth ≤ min settings.maxCallDepth 4096 ∧
      (∀ fuel, (leftBy settings.callDepthLimit fuel machine task).depth = active) ∧
      (∀ fuel evaluate' execute',
        AgreeAtMoments settings.callDepthLimit fuel evaluate' execute' →
        (∀ expression, task = .evaluate expression →
          evaluate settings.callDepthLimit (fuel + 1) expression machine =
            evaluateWith settings.callDepthLimit evaluate' (runBody execute') expression machine) ∧
        ∀ statement, task = .execute statement →
          execute settings.callDepthLimit (fuel + 1) statement machine =
            executeWith settings.callDepthLimit fuel evaluate' (runBody execute') statement
              machine) ∧
      ∀ fuel name args span closure values next,
        machine.store.get? machine.scope name = some (.function closure) →
        closure.params.length = args.length →
        evaluateAll (evaluate settings.callDepthLimit fuel) args machine = .ok values next →
        next.depth = active ∧
        (next.depth = min settings.maxCallDepth 4096 →
          call settings.callDepthLimit (evaluate settings.callDepthLimit fuel)
              (executeBody settings.callDepthLimit fuel) span name args machine =
            .error (.fault ⟨.recursionLimit (min settings.maxCallDepth 4096) name, span⟩) next) ∧
        (next.depth ≠ min settings.maxCallDepth 4096 →
          call settings.callDepthLimit (evaluate settings.callDepthLimit fuel)
              (executeBody settings.callDepthLimit fuel) span name args machine =
            ofBody next.scope (executeBody settings.callDepthLimit fuel closure.body
              (next.entered closure values)) ∧
          (next.entered closure values).depth = active + 1 ∧
          (task = .call name args span → Moment settings.callDepthLimit (active + 1)
            (.run closure.body) (next.entered closure values))) := by
  have hlimit : min settings.maxCallDepth 4096 = settings.callDepthLimit := rfl
  obtain ⟨hdepth, hactive⟩ := hmoment.depth_eq_active
  rw [hlimit]
  generalize settings.callDepthLimit = limit at *
  refine ⟨hdepth, hdepth ▸ hactive, fun fuel => (depth_leftBy limit fuel machine task).trans hdepth,
    ?_, ?_⟩
  · intro fuel evaluate' execute' hagree
    constructor
    · rintro expression rfl
      exact hmoment.evaluateWith_eq hagree
    · rintro statement rfl
      exact hmoment.executeWith_eq hagree
  intro fuel name args span closure values next hclosure harity hargs
  have hnext : next.depth = active := (depth_of_evaluateAll hargs).trans hdepth
  have hcallee := (callee_of_get hclosure span args.length).trans (if_pos harity)
  have hcall (run : List Stmt → Eval Outcome) :
      call limit (evaluate limit fuel) run span name args machine =
        enter limit run span name closure values next := by
    rw [call, bind_of_eq_ok hcallee, bind_of_eq_ok hargs]
  refine ⟨hnext, ?_, ?_⟩
  · intro hreached
    rw [hcall, enter_of_limit_le (Nat.le_of_eq hreached.symm)]
  · intro hbelow
    have hless : next.depth < limit := by omega
    refine ⟨by rw [hcall, enter_of_lt hless], congrArg (· + 1) hnext, ?_⟩
    rintro rfl
    exact hmoment.body hclosure harity hargs hless

/-- A function that calls itself at once. -/
def endless : FunctionDef :=
  { name := "f", params := [], body := [.call "f" [] ⟨11, 14⟩], span := ⟨0, 14⟩ }

/-- A session that has defined it. -/
def withEndless : Machine :=
  (Machine.start {} {}).defined endless

/-- With a limit of one call, the function is being run when it calls itself, and so that
    call fails. -/
theorem depth_within_limit_endless :
    ∃ machine, Moment 1 1 (.call "f" [] ⟨11, 14⟩) machine ∧ machine.depth = 1 ∧
      call 1 (evaluate 1 0) (executeBody 1 0) ⟨11, 14⟩ "f" [] machine =
        .error (.fault ⟨.recursionLimit 1 "f", ⟨11, 14⟩⟩) machine := by
  have hdefined : Finished (perform 1 0 (.definition endless) (.start {} {})) := nofun
  have hsession : withEndless.Session 1 [endless] := .performed (.start {} {}) hdefined
  have hfound : withEndless.store.get? withEndless.scope "f" = some (.function (endless.closure 0)) := by
    cbv
  have hargs (machine : Machine) : evaluateAll (evaluate 1 0) [] machine = .ok [] machine := rfl
  have houter : Moment 1 0 (.call "f" [] ⟨0, 3⟩) withEndless := .part (.expression hsession) .called
  have hbody := houter.body hfound rfl (hargs withEndless) (by decide)
  have hinner : Moment 1 1 (.call "f" [] ⟨11, 14⟩) _ := .part (.part hbody .firstStatement) .calling
  have hsettings : Moment ({ maxCallDepth := 1 } : Settings).callDepthLimit 1 _ _ := hinner
  obtain ⟨hdepth, _, _, _, hcalls⟩ := hsettings.depth_within_limit
  obtain ⟨_, hreached, _⟩ :=
    hcalls 0 "f" [] ⟨11, 14⟩ (endless.closure 0) [] _ (by cbv) rfl (hargs _)
  exact ⟨_, hinner, hdepth, hreached hdepth⟩

end Eval
end KawaiiLang
