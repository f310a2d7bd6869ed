import KawaiiLang.Proofs.Grammar.Extent
import KawaiiLang.Proofs.Parse.Complete.Program

namespace KawaiiLang

open Grammar (Phrase Clause Exact InOrder exact_single exact_spanOf)
open Token (Ordered)

/-- The tokens of `input` in front of `rest` can be read as the node. -/
def Node.Derives : Node → List Token → List Token → Prop
  | expression value, input, rest => Phrase.expression.Derives input value rest
  | statement result, input, rest => Clause.statement.Derives input result rest

/-- The node is read from the tokens of `input` in front of `rest`. Its span is that of these
    tokens, and all that is below it lies in them, part for part. -/
inductive Node.Laid : List Token → Node → List Token → Prop where
  | intro {input rest : List Token} {node : Node} (hread : node.Derives input rest)
      (hspan : Exact input node.span rest) (hparts : InOrder Laid input node.parts rest) :
      Laid input node rest

namespace Node.Laid

variable {input rest : List Token} {node : Node}

theorem derives (hnode : Laid input node rest) : node.Derives input rest := by
  cases hnode with
  | intro hread => exact hread

theorem exact (hnode : Laid input node rest) : Exact input node.span rest := by
  cases hnode with
  | intro _ hspan => exact hspan

theorem parts (hnode : Laid input node rest) : InOrder Laid input node.parts rest := by
  cases hnode with
  | intro _ _ hparts => exact hparts

theorem suffix (hnode : Laid input node rest) : rest <:+ input :=
  hnode.exact.suffix

/-- A node by itself. -/
theorem alone (hnode : Laid input node rest) : InOrder Laid input [node] rest :=
  .singleton hnode

/-- A node that is just one token. -/
theorem of_single {token : Token} (hread : node.Derives (token :: rest) rest)
    (hspan : node.span = token.span) (hparts : node.parts = []) :
    Laid (token :: rest) node rest := by
  refine .intro hread ?_ ?_
  · rw [hspan]
    exact exact_single token rest
  · rw [hparts]
    exact .nil (List.suffix_cons _ _)

/-- A node whose parts follow its first token. -/
theorem of_spanOf {token : Token} (hordered : Ordered (token :: input))
    (hread : node.Derives (token :: input) rest) (hspan : node.span = Grammar.spanOf token input rest)
    (hparts : InOrder Laid input node.parts rest) : Laid (token :: input) node rest := by
  refine .intro hread ?_ (hparts.of_suffix (List.suffix_cons _ _))
  rw [hspan]
  exact exact_spanOf (hparts.suffix fun _ _ _ => suffix) hordered

end Node.Laid

namespace Grammar

/-- What is read as a phrase is laid in its tokens. -/
def Phrase.Laid : (phrase : Phrase) → List Token → phrase.Tree → List Token → Prop
  | arguments, input, args, rest | items, input, args, rest =>
    InOrder Node.Laid input (args.map .expression) rest
  | expression, input, value, rest | simple, input, value, rest | term, input, value, rest
  | factor, input, value, rest => Node.Laid input (.expression value) rest

section

variable {input middle rest : List Token} {token : Token}

theorem laid_binary {op : BinaryOp} {left right : Expr}
    (hread : Phrase.expression.Derives input
      (.binary op left right (left.span.through right.span)) rest)
    (hleft : Node.Laid input (.expression left) (token :: middle))
    (hright : Node.Laid middle (.expression right) rest) (hordered : Ordered input) :
    Node.Laid input (.expression (.binary op left right (left.span.through right.span))) rest := by
  have hmiddle := List.suffix_cons token middle
  refine .intro hread (hleft.exact.through hmiddle hright.exact hordered) ?_
  exact hleft.alone.append hmiddle hright.alone

theorem laid_unary {op : UnaryOp} {operand : Expr}
    (hread : Phrase.expression.Derives (token :: input)
      (.unary op operand (token.span.through operand.span)) rest)
    (hoperand : Node.Laid input (.expression operand) rest) (hordered : Ordered (token :: input)) :
    Node.Laid (token :: input)
      (.expression (.unary op operand (token.span.through operand.span))) rest := by
  refine .intro hread ?_ (hoperand.alone.of_suffix (List.suffix_cons _ _))
  exact (exact_single token input).through (List.suffix_refl input) hoperand.exact hordered

theorem Phrase.Derives.of_factor {value : Expr} (hfactor : Phrase.factor.Derives input value rest) :
    Phrase.expression.Derives input value rest :=
  .expression (.simple (.term hfactor))

end

theorem Phrase.Derives.laid {phrase : Phrase} {input rest : List Token} {tree : phrase.Tree}
    (hphrase : phrase.Derives input tree rest) (hordered : Ordered input) :
    phrase.Laid input tree rest := by
  induction hphrase with
  | expression _ ih | simple _ ih | term _ ih => exact ih hordered
  | comparison hleft hop hright ihleft ihright =>
    have hmiddle := (List.suffix_cons _ _).trans hleft.suffix
    exact laid_binary (.comparison hleft hop hright) (ihleft hordered)
      (ihright (hordered.of_suffix hmiddle)) hordered
  | sum hleft hop hright ihleft ihright =>
    have hmiddle := (List.suffix_cons _ _).trans hleft.suffix
    exact laid_binary (.expression (.sum hleft hop hright)) (ihleft hordered)
      (ihright (hordered.of_suffix hmiddle)) hordered
  | product hleft hop hright ihleft ihright =>
    have hmiddle := (List.suffix_cons _ _).trans hleft.suffix
    exact laid_binary (.expression (.simple (.product hleft hop hright))) (ihleft hordered)
      (ihright (hordered.of_suffix hmiddle)) hordered
  | negation htoken hoperand ih =>
    exact laid_unary (.of_factor (.negation htoken hoperand))
      (ih (hordered.of_suffix (List.suffix_cons _ _))) hordered
  | complement htoken hoperand ih =>
    exact laid_unary (.of_factor (.complement htoken hoperand))
      (ih (hordered.of_suffix (List.suffix_cons _ _))) hordered
  | group htoken hinner hclosing ih =>
    have hparts := Node.Laid.alone (ih (hordered.of_suffix (List.suffix_cons _ _)))
    exact .of_spanOf hordered (.of_factor (.group htoken hinner hclosing)) rfl
      (hparts.to_suffix (List.suffix_cons _ _))
  | call htoken hargs ih =>
    exact .of_spanOf hordered (.of_factor (.call htoken hargs)) rfl
      (ih (hordered.of_suffix (List.suffix_cons _ _)))
  | print htoken hargs ih =>
    exact .of_spanOf hordered (.of_factor (.print htoken hargs)) rfl
      (ih (hordered.of_suffix (List.suffix_cons _ _)))
  | input htoken htext =>
    exact .of_spanOf hordered (.of_factor (.input htoken htext)) rfl (.nil htext.suffix)
  | name htoken => exact .of_single (.of_factor (.name htoken)) rfl rfl
  | hai htoken => exact .of_single (.of_factor (.hai htoken)) rfl rfl
  | iie htoken => exact .of_single (.of_factor (.iie htoken)) rfl rfl
  | integer htoken hvalue => exact .of_single (.of_factor (.integer htoken hvalue)) rfl rfl
  | float htoken hvalue => exact .of_single (.of_factor (.float htoken hvalue)) rfl rfl
  | string htoken hvalue => exact .of_single (.of_factor (.string htoken hvalue)) rfl rfl
  | noArguments => exact .nil ((List.suffix_cons _ _).trans (List.suffix_cons _ _))
  | arguments _ _ _ ih =>
    have hitems := ih (hordered.of_suffix (List.suffix_cons _ _))
    exact (hitems.of_suffix (List.suffix_cons _ _)).to_suffix (List.suffix_cons _ _)
  | item _ ih => exact Node.Laid.alone (ih hordered)
  | items hvalue _ _ ihvalue ihvalues =>
    have hmiddle := (List.suffix_cons _ _).trans hvalue.suffix
    exact (Node.Laid.alone (ihvalue hordered)).append (List.suffix_cons _ _)
      (ihvalues (hordered.of_suffix hmiddle))

/-- What is read as a clause is laid in its tokens. -/
def Clause.Laid : (clause : Clause) → List Token → clause.Tree → List Token → Prop
  | statement, input, result, rest => Node.Laid input (.statement result) rest
  | body, input, statements, rest | block, input, statements, rest =>
    InOrder Node.Laid input (statements.map .statement) rest
  | loopBody, input, repeated, rest => InOrder Node.Laid input (repeated.inner.map .statement) rest
  | elifs, input, branches, rest =>
    InOrder Node.Laid input
      (branches.flatMap fun branch => .expression branch.1 :: branch.2.map .statement) rest
  | otherwise, input, statements, rest =>
    InOrder Node.Laid input ((statements.getD []).map .statement) rest

/-- A condition in its parentheses, and the statements that depend on it. -/
theorem laid_condition {opening closing : Token} {input middle rest : List Token} {condition : Expr}
    {statements : List Stmt}
    (hcondition : Phrase.expression.Derives input condition (closing :: middle))
    (hstatements : InOrder Node.Laid middle (statements.map .statement) rest)
    (hordered : Ordered (opening :: input)) :
    InOrder Node.Laid (opening :: input) (.expression condition :: statements.map .statement) rest :=
  .cons (List.suffix_cons _ _) (hcondition.laid (hordered.of_suffix (List.suffix_cons _ _)))
    (hstatements.of_suffix (List.suffix_cons _ _))

theorem Clause.Derives.laid {clause : Clause} {input rest : List Token} {tree : clause.Tree}
    (hclause : clause.Derives input tree rest) (hordered : Ordered input) :
    clause.Laid input tree rest := by
  induction hclause with
  | pass htoken => exact .of_single (.pass htoken) rfl rfl
  | breakLoop htoken => exact .of_single (.breakLoop htoken) rfl rfl
  | continueLoop htoken => exact .of_single (.continueLoop htoken) rfl rfl
  | returnNothing htoken htakes => exact .of_single (.returnNothing htoken htakes) rfl rfl
  | returnValue htoken htakes hvalue =>
    have hlaid : Node.Laid _ _ _ := hvalue.laid (hordered.of_suffix (List.suffix_cons _ _))
    exact .of_spanOf hordered (.returnValue htoken htakes hvalue) rfl hlaid.alone
  | @assign token sign input rest value htoken hsign hvalue =>
    have hpast := (List.suffix_cons sign input).trans (List.suffix_cons token _)
    have hlaid : Node.Laid _ _ _ := hvalue.laid (hordered.of_suffix hpast)
    refine .intro (.assign htoken hsign hvalue) ?_ (hlaid.alone.of_suffix hpast)
    exact (exact_single token _).through (List.suffix_cons _ _) hlaid.exact hordered
  | increment htoken hsign =>
    exact .of_spanOf hordered (.increment htoken hsign) rfl (.nil (List.suffix_cons _ _))
  | decrement htoken hsign =>
    exact .of_spanOf hordered (.decrement htoken hsign) rfl (.nil (List.suffix_cons _ _))
  | call htoken hargs =>
    exact .of_spanOf hordered (.call htoken hargs) rfl
      (hargs.laid (hordered.of_suffix (List.suffix_cons _ _)))
  | print htoken hargs =>
    exact .of_spanOf hordered (.print htoken hargs) rfl
      (hargs.laid (hordered.of_suffix (List.suffix_cons _ _)))
  | input htoken htext =>
    exact .of_spanOf hordered (.input htoken htext) rfl (.nil htext.suffix)
  | @loop token opening closing input middle rest condition body htoken hopening hcondition hclosing
      hbody ih =>
    have hinside := hordered.of_suffix (List.suffix_cons _ _)
    have hmiddle := hinside.of_suffix (Parser.condition_suffix opening hcondition)
    exact .of_spanOf hordered (.loop htoken hopening hcondition hclosing hbody) rfl
      (laid_condition hcondition (ih hmiddle) hinside)
  | @branch token opening closing input first second third rest condition body elifs otherwise
      htoken hopening hcondition hclosing hbody helifs hotherwise ihbody ihelifs ihotherwise =>
    have hinside := hordered.of_suffix (List.suffix_cons _ _)
    have hfirst := hinside.of_suffix (Parser.condition_suffix opening hcondition)
    have hsecond := hfirst.of_suffix hbody.suffix
    have hthird := hsecond.of_suffix helifs.suffix
    have hthen := laid_condition hcondition (ihbody hfirst) hinside
    refine .of_spanOf hordered
      (.branch htoken hopening hcondition hclosing hbody helifs hotherwise) rfl ?_
    exact (hthen.append (List.suffix_refl _) (ihelifs hsecond)).append (List.suffix_refl _)
      (ihotherwise hthird)
  | guarded htoken hbody hhandlerToken hhandler ihbody ihhandler =>
    have hinside := hordered.of_suffix (List.suffix_cons _ _)
    have hmiddle := hinside.of_suffix ((List.suffix_cons _ _).trans hbody.suffix)
    exact .of_spanOf hordered (.guarded htoken hbody hhandlerToken hhandler) rfl
      ((ihbody hinside).append (List.suffix_cons _ _) (ihhandler hmiddle))
  | empty | noElif | noOtherwise => exact .nil (List.suffix_refl _)
  | plain hfirst _ ihfirst ihothers =>
    exact (Node.Laid.alone (ihfirst hordered)).append (List.suffix_refl _)
      (ihothers (hordered.of_suffix hfirst.suffix))
  | terminated hfirst _ _ ihfirst ihothers =>
    have hmiddle := (List.suffix_cons _ _).trans hfirst.suffix
    exact (Node.Laid.alone (ihfirst hordered)).append (List.suffix_cons _ _)
      (ihothers (hordered.of_suffix hmiddle))
  | block _ _ _ ih =>
    have hbody := ih (hordered.of_suffix (List.suffix_cons _ _))
    exact (hbody.of_suffix (List.suffix_cons _ _)).to_suffix (List.suffix_cons _ _)
  | breakOnly | continueOnly => exact .nil (List.suffix_cons _ _)
  | loopBlock _ ih => exact ih hordered
  | @elif token opening closing input first second rest condition body others htoken hopening
      hcondition hclosing hbody hothers ihbody ihothers =>
    have hinside := hordered.of_suffix (List.suffix_cons _ _)
    have hfirst := hinside.of_suffix (Parser.condition_suffix opening hcondition)
    have hbranch := laid_condition hcondition (ihbody hfirst) hinside
    exact (hbranch.of_suffix (List.suffix_cons _ _)).append (List.suffix_refl _)
      (ihothers (hfirst.of_suffix hbody.suffix))
  | otherwise _ _ ih =>
    exact InOrder.of_suffix (ih (hordered.of_suffix (List.suffix_cons _ _))) (List.suffix_cons _ _)

theorem Entry.laid {input rest : List Token} {entry : MainEntry} (hentry : Entry input entry rest)
    (hordered : Ordered input) : InOrder Node.Laid input (entry.body.map .statement) rest := by
  cases hentry with
  | block hblock => exact hblock.laid hordered
  | plain hstatement => exact Node.Laid.alone (hstatement.laid hordered)
  | terminated hstatement =>
    exact (Node.Laid.alone (hstatement.laid hordered)).to_suffix (List.suffix_cons _ _)

/-- The definition is read from the tokens of `input` in front of `rest`. Its span is that of
    these tokens, and the statements of its body lie in them one behind the other. -/
structure Definition.Laid (input : List Token) (function : FunctionDef) (rest : List Token) :
    Prop where
  derives : Definition input function rest
  exact : Exact input function.span rest
  body : InOrder Node.Laid input (function.body.map .statement) rest

theorem Definition.laid {input rest : List Token} {function : FunctionDef}
    (hdefinition : Definition input function rest) (hordered : Ordered input) :
    Definition.Laid input function rest := by
  cases hdefinition with
  | @plain token name inside middle _ params entry htoken hname hparams hdistinct hentry =>
    have hmiddle : middle <:+ name :: inside := hparams.suffix.trans (List.suffix_cons _ _)
    have hpast := hmiddle.trans (List.suffix_cons token _)
    refine ⟨.plain htoken hname hparams hdistinct hentry, ?_, ?_⟩
    · exact exact_spanOf (hentry.suffix.trans hmiddle) hordered
    · exact (hentry.laid (hordered.of_suffix hpast)).of_suffix hpast
  | @arrow token name arrow inside middle _ params entry htoken hname hparams harrow hdistinct
      hentry =>
    have hbehind : middle <:+ inside := (List.suffix_cons arrow middle).trans hparams.suffix
    have hmiddle : middle <:+ name :: inside := hbehind.trans (List.suffix_cons _ _)
    have hpast := hmiddle.trans (List.suffix_cons token _)
    refine ⟨.arrow htoken hname hparams harrow hdistinct hentry, ?_, ?_⟩
    · exact exact_spanOf (hentry.suffix.trans hmiddle) hordered
    · exact (hentry.laid (hordered.of_suffix hpast)).of_suffix hpast

theorem Definitions.laid {input rest : List Token} {functions : List FunctionDef}
    (hdefinitions : Definitions input functions rest) (hordered : Ordered input) :
    InOrder Definition.Laid input functions rest := by
  induction hdefinitions with
  | none => exact .nil (List.suffix_refl _)
  | more hfirst _ ih =>
    have hlaid := hfirst.laid hordered
    exact .cons (List.suffix_refl _) hlaid (ih (hordered.of_suffix hlaid.exact.suffix))

end Grammar

end KawaiiLang
