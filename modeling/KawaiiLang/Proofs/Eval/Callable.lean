import Mathlib
import KawaiiLang.Eval.Basic
import KawaiiLang.Parse.Program
import KawaiiLang.Proofs.Parse.Complete.Expression
import KawaiiLang.Proofs.Parse.Location.Expression
import KawaiiLang.Proofs.Parse.Sound.Statement

namespace KawaiiLang

/-- The expression that is written like the statement, if there is one: a statement that prints,
    reads or calls. -/
def Stmt.callable? : Stmt → Option Expr
  | print args span => some (.print args span)
  | input prompt span => some (.input prompt span)
  | call name args span => some (.call name args span)
  | _ => none

namespace Eval

variable {limit fuel : Nat} {statement : Stmt} {value : Expr}

/-- A statement that is written like an expression does what the expression does, and drops its
    value. -/
theorem execute_of_callable? (hsame : statement.callable? = some value) :
    execute limit fuel statement = (do let _ ← evaluate limit fuel value; return .normal) := by
  cases fuel with
  | zero =>
    rw [execute_zero, evaluate_zero]
    rfl
  | succ fuel =>
    rw [execute_succ, evaluate_succ]
    cases statement with
    | print | input | call =>
      cases hsame
      simp only [executeWith, evaluateWith, bind_assoc, pure_bind]
    | _ => cases hsame

theorem executeBody_of_callable? (hsame : statement.callable? = some value) :
    executeBody limit fuel [statement] =
      (do let _ ← evaluate limit fuel value; return .normal) := by
  simp only [executeBody, runBody, execute_of_callable? hsame, bind_assoc, pure_bind]

end Eval

namespace Parser

open Grammar (relationalOps additiveOps multiplicativeOps)

/-- The operators of all three tiers. -/
def operators : List Token.Kind :=
  (relationalOps ++ additiveOps ++ multiplicativeOps).map Prod.fst

theorem mem_operators {kind : Token.Kind} (op : BinaryOp)
    (hop : (kind, op) ∈ relationalOps ++ additiveOps ++ multiplicativeOps) : kind ∈ operators :=
  List.mem_map_of_mem hop

/-- No statement begins with an operator, and none is ended by it. -/
theorem not_statement_of_mem_operators :
    ∀ kind ∈ operators, kind.startsStatement = false ∧ kind ≠ .symbol .semicolon := by
  decide

variable {cursor middle final : Cursor}

/-- An expression goes on behind its first part only with an operator. -/
theorem expressionOf_of_not_operator {factor : Parser Expr} {value : Expr}
    (hfactor : factor cursor = .ok value middle)
    (hend : ∀ token ∈ middle.rest.head?, token.kind ∉ operators) :
    expressionOf factor cursor = .ok value middle := by
  refine chain_single _ (chain_single _ (chain_single _ hfactor ?_) ?_) ?_
  all_goals
    intro token htoken
    refine Option.eq_none_iff_forall_ne_some.mpr fun op hop => hend token htoken (mem_operators op ?_)
  · exact List.mem_append_right _ (multiplicative_eq_some_iff.mp hop)
  · exact List.mem_append_left _ (List.mem_append_right _ (additive_eq_some_iff.mp hop))
  · exact List.mem_append_left _ (List.mem_append_left _ (relational_eq_some_iff.mp hop))

/-- If all tokens are one expression, only an operator can stand behind its first part. -/
theorem mem_operators_of_expressionOf {factor : Parser Expr} {first value : Expr}
    (hfirst : factor cursor = .ok first middle)
    (hvalue : expressionOf factor cursor = .ok value final) (hend : final.rest = []) :
    ∀ sign ∈ middle.rest.head?, sign.kind ∈ operators := by
  intro sign hsign
  by_cases hsome : sign.kind ∈ operators
  · exact hsome
  · have hplain : ∀ other ∈ middle.rest.head?, other.kind ∉ operators := by
      intro other hother
      rwa [Option.some.inj (hother.symm.trans hsign)]
    rw [expressionOf_of_not_operator hfirst hplain] at hvalue
    cases hvalue
    rw [hend] at hsign
    cases hsign

/-- An expression begins with one of its smallest parts. -/
theorem exists_of_expressionOf_eq_ok {factor : Parser Expr} {value : Expr}
    (hvalue : expressionOf factor cursor = .ok value final) :
    ∃ first middle, factor cursor = .ok first middle := by
  have hchain {operator : Token.Kind → Option BinaryOp} {operand : Parser Expr} {value : Expr}
      {final : Cursor} (htier : tier operator operand cursor = .ok value final) :
      ∃ first middle, operand cursor = .ok first middle := by
    rw [tier, bind_of_eq_ok (remaining_apply cursor)] at htier
    cases hlength : cursor.rest.length with
    | zero =>
      rw [hlength] at htier
      exact ⟨_, _, htier⟩
    | succ bound =>
      rw [hlength, chain, bind_eq_ok_iff] at htier
      obtain ⟨first, middle, hfirst, _⟩ := htier
      exact ⟨first, middle, hfirst⟩
  obtain ⟨_, _, hvalue⟩ := hchain hvalue
  obtain ⟨_, _, hvalue⟩ := hchain hvalue
  exact hchain hvalue

/-- A node that is read as its parts and gets the span of all that was read. -/
theorem node_eq_ok_iff {α β : Type} {parser : Parser α} {node : α → Span → β} {first : Span}
    {result : β} :
    (do let part ← parser; return node part (← spanFrom first) : Parser β) cursor =
        .ok result final ↔
      ∃ part, parser cursor = .ok part final ∧ node part (first.through final.lastSpan) = result := by
  have hspan (next : Cursor) : spanFrom first next = .ok (first.through next.lastSpan) next := rfl
  rw [bind_eq_ok_iff]
  constructor
  · rintro ⟨part, middle, hpart, hnode⟩
    rw [bind_of_eq_ok (hspan middle)] at hnode
    obtain ⟨rfl, rfl⟩ := pure_eq_ok_iff.mp hnode
    exact ⟨part, hpart, rfl⟩
  · rintro ⟨part, hpart, rfl⟩
    exact ⟨part, final, hpart, bind_of_eq_ok (hspan final) _⟩

/-- Two nodes that are read as the same parts get the same span. -/
theorem same_node {α β γ : Type} {parser : Parser α} {node : α → Span → β} {other : α → Span → γ}
    {span : Span} {first : β} {second : γ} {last : Cursor}
    (hfirst : (do let part ← parser; return node part (← spanFrom span) : Parser β) cursor =
      .ok first middle)
    (hsecond : (do let part ← parser; return other part (← spanFrom span) : Parser γ) cursor =
      .ok second last) :
    middle = last ∧ ∃ part, first = node part (span.through last.lastSpan) ∧
      second = other part (span.through last.lastSpan) := by
  obtain ⟨part, hpart, rfl⟩ := node_eq_ok_iff.mp hfirst
  obtain ⟨same, hsame, rfl⟩ := node_eq_ok_iff.mp hsecond
  rw [hpart] at hsame
  cases hsame
  exact ⟨rfl, part, rfl, rfl⟩

/-- A name that begins a statement and is read as a part of an expression begins a call in both,
    or else a sign behind it makes a statement of it. -/
theorem nameStatement_cases {name : Token} {first : Expr} {statement : Stmt} {last : Cursor}
    (hname : name.kind = .identifier)
    (hfirst : factorFrom (factor cursor.rest.length) name cursor = .ok first middle)
    (hstatement : nameStatement name cursor = .ok statement last) :
    (middle = last ∧ statement.callable? = some first) ∨
      middle = cursor ∧ ∃ sign ∈ cursor.rest.head?, sign.kind ∉ operators := by
  -- In front of a sign that is no operator, the expression is the name alone.
  have hsign {sign : Token} {input : List Token} {kind : Token.Kind}
      (hrest : cursor.rest = sign :: input) (hkind : sign.kind = kind)
      (hopening : kind ≠ .symbol .leftParen) (hplain : kind ∉ operators) :
      middle = cursor ∧ ∃ sign ∈ cursor.rest.head?, sign.kind ∉ operators := by
    have hsees : sees (.symbol .leftParen) cursor = .ok false cursor :=
      sees_of_kind_ne (by simpa [hrest, hkind] using hopening)
    simp only [factorFrom, hname] at hfirst
    rw [bind_of_eq_ok hsees, if_neg Bool.false_ne_true] at hfirst
    obtain ⟨_, rfl⟩ := pure_eq_ok_iff.mp hfirst
    exact ⟨rfl, sign, by simp [hrest], hkind ▸ hplain⟩
  rw [nameStatement, bind_eq_ok_iff] at hstatement
  obtain ⟨assigns, second, haccept, hstatement⟩ := hstatement
  obtain ⟨rfl, rfl⟩ | ⟨sign, rfl, hrest, hkind, _⟩ := accept_cases haccept
  · rw [Option.isSome_none, if_neg Bool.false_ne_true, bind_eq_ok_iff] at hstatement
    obtain ⟨op, third, htake, hstatement⟩ := hstatement
    obtain ⟨rfl, rfl, _⟩ | ⟨sign, op, rfl, hrest, hop, _⟩ := takeIf_cases htake
    · dsimp only at hstatement
      rw [bind_of_eq_ok (sees_apply _ third)] at hstatement
      split at hstatement
      · next hsees =>
        simp only [factorFrom, hname] at hfirst
        rw [bind_of_eq_ok (sees_apply _ third), if_pos hsees] at hfirst
        obtain ⟨hlast, args, rfl, rfl⟩ := same_node hfirst hstatement
        exact .inl ⟨hlast, rfl⟩
      · exact absurd hstatement unmet_ne_ok
    · have hkind : sign.kind = .symbol .increment ∨ sign.kind = .symbol .decrement := by
        unfold updateOp at hop
        split at hop <;> simp_all
      obtain hkind | hkind := hkind
      · exact .inr (hsign hrest hkind (by decide) (by decide))
      · exact .inr (hsign hrest hkind (by decide) (by decide))
  · exact .inr (hsign hrest hkind (by decide) (by decide))

/-- A token that begins a statement and the smallest part of an expression begins the same
    callable in both, unless it is a name that a sign behind it makes a statement of. -/
theorem statementFrom_cases {nested : Parser Stmt} {token : Token} {first : Expr} {statement : Stmt}
    {last : Cursor}
    (hfirst : factorFrom (factor cursor.rest.length) token cursor = .ok first middle)
    (hstatement : statementFrom nested token cursor = .ok statement last) :
    (middle = last ∧ statement.callable? = some first) ∨
      middle = cursor ∧ ∃ sign ∈ cursor.rest.head?, sign.kind ∉ operators := by
  cases hkind : token.kind with
  | identifier =>
    simp only [statementFrom, hkind] at hstatement
    exact nameStatement_cases hkind hfirst hstatement
  | keyword keyword =>
    cases keyword with
    | purinto =>
      simp only [factorFrom, hkind] at hfirst
      simp only [statementFrom, hkind] at hstatement
      obtain ⟨hlast, args, rfl, rfl⟩ := same_node hfirst hstatement
      exact .inl ⟨hlast, rfl⟩
    | ohayo =>
      simp only [factorFrom, hkind] at hfirst
      simp only [statementFrom, hkind] at hstatement
      obtain ⟨hlast, text, rfl, rfl⟩ := same_node hfirst hstatement
      exact .inl ⟨hlast, rfl⟩
    | pasu | yamete | motto | sayonara | nani | nyan | ganbatte =>
      simp only [factorFrom, hkind] at hfirst
      exact absurd hfirst refuse_ne_ok
    | _ =>
      simp only [statementFrom, hkind] at hstatement
      exact absurd hstatement refuse_ne_ok
  | _ =>
    simp only [statementFrom, hkind] at hstatement
    exact absurd hstatement refuse_ne_ok

theorem factor_apply {token : Token} {input : List Token} (hrest : cursor.rest = token :: input)
    (bound : Nat) :
    factor (bound + 1) cursor = factorFrom (factor bound) token (cursor.movedTo input) := by
  rw [factor, bind_of_eq_ok (takeIf_of_eq_some hrest rfl)]

theorem statement_apply {token : Token} {input : List Token} (hrest : cursor.rest = token :: input) :
    statement cursor =
      statementFrom (nestedStatement input.length) token (cursor.movedTo input) := by
  rw [statement, bind_of_eq_ok (remaining_apply cursor), hrest, List.length_cons, nestedStatement,
    bind_of_eq_ok (takeIf_of_eq_some hrest rfl)]

/-- In front of an operator or of nothing, a body is at its end. -/
theorem sequence_of_operator (hstop : cursor.stop.kind = .endOfInput)
    (hrest : ∀ token ∈ cursor.rest.head?, token.kind ∈ operators) (bound : Nat) :
    sequence statement bound cursor = .ok [] cursor := by
  cases bound with
  | zero => rfl
  | succ bound =>
    have hsees : seesStatement cursor = .ok false cursor := by
      rw [seesStatement_apply, Cursor.current, List.headD_eq_head?_getD]
      cases hhead : cursor.rest.head? with
      | none => rw [Option.getD_none, hstop]; rfl
      | some token =>
        rw [Option.getD_some, (not_statement_of_mem_operators _ (hrest token hhead)).1]
    rw [sequence, bind_of_eq_ok hsees]
    rfl

/-- A body that begins with a statement in front of an operator or of nothing has no other. -/
theorem sequence_eq_ok_of_operator {bound : Nat} {body : List Stmt} {single : Stmt}
    (hstop : middle.stop.kind = .endOfInput)
    (hrest : ∀ token ∈ middle.rest.head?, token.kind ∈ operators)
    (hsingle : statement cursor = .ok single middle) (hsees : cursor.current.kind.startsStatement)
    (hbody : sequence statement (bound + 1) cursor = .ok body final) :
    body = [single] ∧ final = middle := by
  have hsemicolon : accept (.symbol .semicolon) middle = .ok none middle :=
    accept_of_kind_ne fun sign hsign => (not_statement_of_mem_operators _ (hrest sign hsign)).2
  have hterminated : terminated statement cursor = .ok single middle := by
    rw [terminated, bind_of_eq_ok hsingle, bind_of_eq_ok hsemicolon]
    rfl
  rw [sequence, bind_of_eq_ok (seesStatement_apply cursor), if_pos hsees,
    bind_of_eq_ok hterminated, bind_of_eq_ok (sequence_of_operator hstop hrest bound)] at hbody
  cases hbody
  exact ⟨rfl, rfl⟩

/-- What is one expression as well as a body is one statement, written like the expression. -/
theorem callable_of_expression_of_bodyOf {words : List Token} {stop : Token}
    (hover : cursor.Over words stop) (hstop : stop.kind = .endOfInput) {value : Expr}
    {body : List Stmt} {last : Cursor} (hvalue : expression cursor = .ok value final)
    (hend : final.rest = []) (hbody : bodyOf statement cursor = .ok body last)
    (hlast : last.rest = []) : ∃ single, body = [single] ∧ single.callable? = some value := by
  rw [expression, bind_of_eq_ok (remaining_apply cursor)] at hvalue
  rw [bodyOf, bind_of_eq_ok (remaining_apply cursor)] at hbody
  obtain ⟨first, middle, hfirst⟩ := exists_of_expressionOf_eq_ok hvalue
  have hsigns := mem_operators_of_expressionOf hfirst hvalue hend
  have halone (hnil : middle.rest = []) : first = value := by
    rw [expressionOf_of_not_operator hfirst (by simp [hnil])] at hvalue
    cases hvalue
    rfl
  cases hrest : cursor.rest with
  | nil =>
    rw [hrest] at hfirst
    exact absurd hfirst unmet_ne_ok
  | cons token input =>
    have hmiddle : middle.stop.kind = .endOfInput := by
      have htoken : token ∈ words := hover.mem_of_mem_rest (by simp [hrest])
      have hreadable : Readable words fun _ => True :=
        ⟨List.ne_nil_of_mem htoken, fun _ _ => trivial, fun _ _ => trivial⟩
      have hlocates := locates_factor hreadable cursor.rest.length cursor hover
      rw [hfirst] at hlocates
      rw [hlocates.2.stop_eq, hstop]
    rw [hrest, List.length_cons] at hbody hfirst
    obtain ⟨hsees, single, third, hstatement⟩ : cursor.current.kind.startsStatement ∧
        ∃ single third, statement cursor = .ok single third := by
      rw [sequence, bind_of_eq_ok (seesStatement_apply cursor)] at hbody
      split at hbody
      · next hsees =>
        rw [bind_eq_ok_iff] at hbody
        obtain ⟨_, _, hsingle, _⟩ := hbody
        rw [terminated, bind_eq_ok_iff] at hsingle
        obtain ⟨single, third, hstatement, _⟩ := hsingle
        exact ⟨hsees, single, third, hstatement⟩
      · obtain ⟨_, rfl⟩ := pure_eq_ok_iff.mp hbody
        rw [hrest] at hlast
        cases hlast
    rw [factor_apply hrest] at hfirst
    have hfrom := hstatement
    rw [statement_apply hrest] at hfrom
    obtain ⟨rfl, hsame⟩ | ⟨rfl, sign, hsign, hplain⟩ := statementFrom_cases hfirst hfrom
    · obtain ⟨rfl, rfl⟩ := sequence_eq_ok_of_operator hmiddle hsigns hstatement hsees hbody
      exact ⟨single, rfl, halone hlast ▸ hsame⟩
    · exact absurd (hsigns sign hsign) hplain

end Parser

/-- Where tokens can be read as one expression and as a body, the body is one statement that
    prints, reads input or calls, and running it does just what evaluating the expression does. -/
theorem executeBody_eq_evaluate {tokens : List Token} {value : Expr} {body : List Stmt}
    {next last : Cursor} (hvalue : Parser.expression (.ofTokens tokens) = .ok value next)
    (hnext : next.rest = [])
    (hbody : Parser.bodyOf Parser.statement (.ofTokens tokens) = .ok body last)
    (hlast : last.rest = []) :
    (∃ single, body = [single] ∧ single.callable? = some value) ∧
      ∀ limit fuel machine,
        (∀ result final, Eval.evaluate limit fuel value machine = .ok result final →
          Eval.executeBody limit fuel body machine = .ok .normal final) ∧
        ∀ reason final, Eval.evaluate limit fuel value machine = .error reason final →
          Eval.executeBody limit fuel body machine = .error reason final := by
  have hover : (Cursor.ofTokens tokens).Over (Cursor.ofTokens tokens).rest _ := ⟨⟨[], rfl, rfl⟩, rfl⟩
  obtain ⟨single, rfl, hsame⟩ := Parser.callable_of_expression_of_bodyOf hover
    (Cursor.kind_stop_ofTokens tokens) hvalue hnext hbody hlast
  refine ⟨⟨single, rfl, hsame⟩, ?_⟩
  intro limit fuel machine
  rw [Eval.executeBody_of_callable? hsame]
  constructor
  · intro result final hresult
    exact bind_of_eq_ok hresult _
  · intro reason final hresult
    exact bind_of_eq_error hresult _

/-- The tokens of `f ( 1 + x )`, each of them one character wide. -/
def calling : List Token :=
  let words : List (Token.Kind × String × Option Literal) :=
    [(.identifier, "f", none), (.symbol .leftParen, "(", none), (.integer, "1", some (.int 1)),
      (.symbol .plus, "+", none), (.identifier, "x", none), (.symbol .rightParen, ")", none),
      (.endOfInput, "", none)]
  words.mapIdx fun index (kind, lexeme, literal) =>
    { kind, lexeme, literal, span := .single index, position := ⟨1, index + 1⟩ }

/-- Where no function is defined, the call fails at its own span in both ways. -/
theorem executeBody_eq_evaluate_calling :
    ∃ value body next last, Parser.expression (.ofTokens calling) = .ok value next ∧
      next.rest = [] ∧ Parser.bodyOf Parser.statement (.ofTokens calling) = .ok body last ∧
      last.rest = [] ∧ ∃ final,
        Eval.evaluate 1 2 value (.start {} {}) =
          .error (.fault ⟨.undefinedFunction "f", ⟨0, 6⟩⟩) final ∧
        Eval.executeBody 1 2 body (.start {} {}) =
          .error (.fault ⟨.undefinedFunction "f", ⟨0, 6⟩⟩) final := by
  obtain ⟨value, next, hvalue, hnext, final, hresult⟩ : ∃ value next,
      Parser.expression (.ofTokens calling) = .ok value next ∧ next.rest = [] ∧ ∃ final,
        Eval.evaluate 1 2 value (.start {} {}) =
          .error (.fault ⟨.undefinedFunction "f", ⟨0, 6⟩⟩) final :=
    ⟨_, _, by cbv, by cbv, _, by cbv⟩
  obtain ⟨body, last, hbody, hlast⟩ : ∃ body last,
      Parser.bodyOf Parser.statement (.ofTokens calling) = .ok body last ∧ last.rest = [] :=
    ⟨_, _, by cbv, by cbv⟩
  have hsame := (executeBody_eq_evaluate hvalue hnext hbody hlast).2 1 2 (.start {} {})
  exact ⟨value, body, next, last, hvalue, hnext, hbody, hlast, final, hresult,
    hsame.2 _ final hresult⟩

end KawaiiLang
