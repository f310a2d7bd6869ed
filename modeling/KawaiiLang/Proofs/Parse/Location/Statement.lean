import KawaiiLang.Parse.Statement
import KawaiiLang.Proofs.Parse.Location.Expression

namespace KawaiiLang.Parser

variable {words : List Token} {stop : Token} {p : Span → Prop} (hreadable : Readable words p)

/-- A list of statements whose spans are all as `p` says. -/
def Body (p : Span → Prop) (body : List Stmt) : Prop :=
  ∀ statement ∈ body, statement.All p

/-- A condition and its block whose spans are all as `p` says. -/
def Branch (p : Span → Prop) (branch : Expr × List Stmt) : Prop :=
  branch.1.All p ∧ Body p branch.2

/-- What a branch adds to the parts of a conditional. -/
theorem Branch.parts {branch : Expr × List Stmt} (hbranch : Branch p branch) :
    ∀ part ∈ Node.expression branch.1 :: branch.2.map Node.statement, part.All p :=
  List.forall_mem_cons.mpr ⟨hbranch.1, List.forall_mem_map.mpr hbranch.2⟩

section

variable {statement : Parser Stmt} (hstatement : Locates words stop (Stmt.All p) statement)

include hstatement

theorem locates_terminated : Locates words stop (Stmt.All p) (terminated statement) := by
  refine hstatement.bind ?_
  intro first hfirst
  exact (locates_accept (.symbol .semicolon)).bind fun _ _ => locates_pure hfirst

theorem locates_sequence (bound : Nat) :
    Locates words stop (Body p) (sequence statement bound) := by
  induction bound with
  | zero => exact locates_pure nofun
  | succ bound ih =>
    refine locates_get_bind fun starts => ?_
    cases starts with
    | true =>
      refine (locates_terminated hstatement).bind ?_
      intro first hfirst
      refine ih.bind ?_
      intro rest hrest
      exact locates_pure (List.forall_mem_cons.mpr ⟨hfirst, hrest⟩)
    | false => exact locates_pure nofun

theorem locates_bodyOf : Locates words stop (Body p) (bodyOf statement) :=
  locates_get_bind (locates_sequence hstatement)

include hreadable

theorem locates_blockOf : Locates words stop (Body p) (blockOf statement) := by
  refine (locates_bodyOf hstatement).bind ?_
  intro body hbody
  exact locates_expect_bind hreadable trivial (locates_pure hbody)

theorem locates_branchOf (keyword : Keyword) :
    Locates words stop (Branch p) (branchOf statement keyword) := by
  refine locates_expect_bind hreadable trivial ?_
  refine (locates_expression hreadable).bind ?_
  intro condition hcondition
  refine locates_expect_bind hreadable trivial ?_
  refine locates_expect_bind hreadable trivial ?_
  refine (locates_blockOf hreadable hstatement).bind ?_
  intro body hbody
  exact locates_pure ⟨hcondition, hbody⟩

theorem locates_elifsOf (bound : Nat) :
    Locates words stop (fun elifs => ∀ branch ∈ elifs, Branch p branch)
      (elifsOf statement bound) := by
  induction bound with
  | zero => exact locates_pure nofun
  | succ bound ih =>
    refine (locates_accept (.keyword .nyanyan)).bind ?_
    intro keyword _
    cases keyword with
    | none => exact locates_pure nofun
    | some _ =>
      refine (locates_branchOf hreadable hstatement .nyanyan).bind ?_
      intro first hfirst
      refine ih.bind ?_
      intro rest hrest
      exact locates_pure (List.forall_mem_cons.mpr ⟨hfirst, hrest⟩)

theorem locates_otherwiseOf :
    Locates words stop (fun otherwise => Body p (otherwise.getD [])) (otherwiseOf statement) := by
  refine (locates_accept (.keyword .baka)).bind ?_
  intro keyword _
  cases keyword with
  | none => exact locates_pure nofun
  | some _ =>
    refine locates_expect_bind hreadable trivial ?_
    refine (locates_blockOf hreadable hstatement).bind ?_
    intro body hbody
    exact locates_pure hbody

theorem locates_loopBodyOf :
    Locates words stop (fun body => Body p body.inner) (loopBodyOf statement) := by
  refine (locates_accept (.keyword .yamete)).bind fun _ _ => .ite (locates_pure nofun) ?_
  refine (locates_accept (.keyword .motto)).bind fun _ _ => .ite (locates_pure nofun) ?_
  refine locates_expect_bind hreadable trivial ?_
  refine (locates_blockOf hreadable hstatement).bind ?_
  intro body hbody
  exact locates_pure hbody

variable {first : Span} (hfirst : p first)

include hfirst

theorem locates_loopOf : Locates words stop (Stmt.All p) (loopOf statement first) := by
  refine locates_expect_bind hreadable trivial ?_
  refine (locates_expression hreadable).bind ?_
  intro condition hcondition
  refine locates_expect_bind hreadable trivial ?_
  refine locates_node hreadable (locates_loopBodyOf hreadable hstatement) hfirst ?_
  intro body hbody span hspan
  exact ⟨hspan, List.forall_mem_cons.mpr ⟨hcondition, List.forall_mem_map.mpr hbody⟩⟩

theorem locates_conditionalOf :
    Locates words stop (Stmt.All p) (conditionalOf statement first) := by
  refine (locates_branchOf hreadable hstatement .nyan).bind ?_
  intro branch hbranch
  refine locates_get_bind fun bound => ?_
  refine (locates_elifsOf hreadable hstatement bound).bind ?_
  intro elifs helifs
  refine locates_node hreadable (locates_otherwiseOf hreadable hstatement) hfirst ?_
  intro otherwise hotherwise span hspan
  refine ⟨hspan, List.forall_mem_append.mpr ⟨?_, List.forall_mem_map.mpr hotherwise⟩⟩
  intro part hpart
  obtain ⟨other, hother, hpart⟩ := List.mem_flatMap.mp hpart
  exact (List.forall_mem_cons.mpr ⟨hbranch, helifs⟩ other hother).parts part hpart

theorem locates_guardedOf : Locates words stop (Stmt.All p) (guardedOf statement first) := by
  have hblock := locates_blockOf hreadable hstatement
  refine locates_expect_bind hreadable trivial ?_
  refine hblock.bind ?_
  intro body hbody
  refine locates_expect_bind hreadable trivial (locates_expect_bind hreadable trivial ?_)
  refine locates_node hreadable hblock hfirst ?_
  intro handler hhandler span hspan
  refine ⟨hspan, List.forall_mem_append.mpr ⟨?_, ?_⟩⟩
  · exact List.forall_mem_map.mpr hbody
  · exact List.forall_mem_map.mpr hhandler

end

include hreadable

theorem locates_returnAt {first : Span} (hfirst : p first) :
    Locates words stop (Stmt.All p) (returnAt first) := by
  refine locates_get.bind fun cursor _ => .ite ?_ (locates_pure ⟨hfirst, nofun⟩)
  refine locates_node hreadable (locates_expression hreadable) hfirst ?_
  intro value hvalue span hspan
  exact ⟨hspan, List.forall_mem_singleton.mpr hvalue⟩

theorem locates_nameStatement {name : Token} (hname : name ∈ words) :
    Locates words stop (Stmt.All p) (nameStatement name) := by
  have hspan := hreadable.span name hname
  refine (locates_accept (.keyword .asain)).bind fun _ _ => .ite ?_ ?_
  · refine (locates_expression hreadable).bind ?_
    intro value hvalue
    refine locates_pure ⟨hreadable.through hspan hvalue.span, ?_⟩
    exact List.forall_mem_singleton.mpr hvalue
  refine (locates_takeIf _).bind ?_
  intro found _
  cases found with
  | some op => exact locates_spanFrom hreadable hspan fun span hspan => ⟨hspan, nofun⟩
  | none =>
    refine locates_sees_bind (fun cursor hopened => bind_congr_of_eq
      (arguments_of_sees _ Keyword.purinto.spelling hopened) fun _ _ _ => rfl) ?_
      (locates_unmet hreadable trivial)
    refine locates_node hreadable (locates_arguments hreadable) hspan ?_
    intro args hargs span hspan
    exact ⟨hspan, List.forall_mem_map.mpr hargs⟩

theorem locates_statementFrom {nested : Parser Stmt}
    (hnested : Locates words stop (Stmt.All p) nested) {token : Token} (htoken : token ∈ words) :
    Locates words stop (Stmt.All p) (statementFrom nested token) := by
  have hspan := hreadable.span token htoken
  unfold statementFrom
  split
  -- The statements of one word.
  iterate 3
    · exact locates_pure ⟨hspan, nofun⟩
  · exact locates_returnAt hreadable hspan
  · exact locates_loopOf hreadable hnested hspan
  · exact locates_conditionalOf hreadable hnested hspan
  · exact locates_guardedOf hreadable hnested hspan
  -- Output and input.
  · refine locates_node hreadable (locates_arguments hreadable) hspan ?_
    intro args hargs span hspan
    exact ⟨hspan, List.forall_mem_map.mpr hargs⟩
  · refine locates_node hreadable (locates_prompt hreadable) hspan ?_
    intro prompt _ span hspan
    exact ⟨hspan, nofun⟩
  · exact locates_nameStatement hreadable htoken
  · exact locates_refuse htoken trivial

theorem locates_nestedStatement (bound : Nat) :
    Locates words stop (Stmt.All p) (nestedStatement bound) := by
  induction bound with
  | zero => exact locates_unmet hreadable trivial
  | succ bound ih =>
    refine locates_takeIf_some.bind ?_
    intro found hfound
    cases found with
    | none => exact locates_unmet hreadable trivial
    | some token => exact locates_statementFrom hreadable ih (hfound token rfl)

theorem locates_statement : Locates words stop (Stmt.All p) statement :=
  locates_get_bind (locates_nestedStatement hreadable)

end KawaiiLang.Parser
