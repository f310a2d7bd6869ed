import KawaiiLang.Proofs.Grammar.Nesting

namespace KawaiiLang

open Token (Ordered Extent)

/-- The node is read from words of its own, the last of which is no semicolon. Its span is that
    of these words, and the spans of its parts lie in it one behind the other. -/
structure Node.Placed (words : List Token) (node : Node) : Prop where
  own : ∃ before own after, words = before ++ own ++ after ∧ node.Derives (own ++ after) after ∧
    Extent own node.span ∧ ∀ last ∈ own.getLast?, last.kind ≠ .symbol .semicolon
  within : ∀ part ∈ node.parts, part.span.Within node.span
  apart : Span.Apart (node.parts.map Node.span)

/-- The definition is read from words of its own, and no semicolon behind them is left over. Its
    span is that of these words, and the spans of its statements lie in it one behind the
    other. -/
structure FunctionDef.Placed (words : List Token) (function : FunctionDef) : Prop where
  own : ∃ before own after, words = before ++ own ++ after ∧
    Grammar.Definition (own ++ after) function after ∧ Extent own function.span ∧
    ∀ next ∈ after.head?, next.kind ≠ .symbol .semicolon
  within : ∀ statement ∈ function.body, statement.span.Within function.span
  apart : Span.Apart (function.body.map Stmt.span)

namespace Grammar

/-- The token in front of `rest` is one of `input`, and no semicolon. -/
def EndsPlain (input rest : List Token) : Prop :=
  ∃ last, last :: rest <:+ input ∧ last.kind ≠ .symbol .semicolon

theorem EndsPlain.of_suffix {input wider rest : List Token} (hends : EndsPlain input rest)
    (hinput : input <:+ wider) : EndsPlain wider rest := by
  obtain ⟨last, hlast, hkind⟩ := hends
  exact ⟨last, hlast.trans hinput, hkind⟩

/-- A last token of a given kind. -/
theorem endsPlain_of_kind {input rest : List Token} {last : Token} {kind : Token.Kind}
    (hinput : last :: rest <:+ input) (hlast : last.kind = kind)
    (hkind : kind ≠ .symbol .semicolon) : EndsPlain input rest :=
  ⟨last, hinput, hlast ▸ hkind⟩

theorem Prompt.endsPlain {input rest : List Token} {text : Option String}
    (hprompt : Prompt input text rest) : EndsPlain input rest := by
  cases hprompt with
  | absent _ hclosing => exact endsPlain_of_kind (List.suffix_cons _ _) hclosing nofun
  | given _ _ _ hclosing =>
    exact endsPlain_of_kind ((List.suffix_cons _ _).trans (List.suffix_cons _ _)) hclosing nofun

theorem Phrase.Derives.endsPlain {phrase : Phrase} {input rest : List Token} {tree : phrase.Tree}
    (hphrase : phrase.Derives input tree rest) : EndsPlain input rest := by
  induction hphrase with
  | expression _ ih | simple _ ih | term _ ih | item _ ih => exact ih
  | comparison hleft _ _ _ ih | sum hleft _ _ _ ih | product hleft _ _ _ ih
  | items hleft _ _ _ ih => exact ih.of_suffix ((List.suffix_cons _ _).trans hleft.suffix)
  | negation _ _ ih | complement _ _ ih | call _ _ ih | print _ _ ih =>
    exact ih.of_suffix (List.suffix_cons _ _)
  | input _ htext => exact htext.endsPlain.of_suffix (List.suffix_cons _ _)
  | group _ hinner hclosing | arguments _ hinner hclosing =>
    exact endsPlain_of_kind (hinner.suffix.trans (List.suffix_cons _ _)) hclosing nofun
  | name hkind | hai hkind | iie hkind | integer hkind | float hkind | string hkind =>
    exact endsPlain_of_kind (List.suffix_refl _) hkind nofun
  | noArguments _ hclosing => exact endsPlain_of_kind (List.suffix_cons _ _) hclosing nofun

/-- A clause that is read from any tokens at all ends with one that is no semicolon, unless it is
    a body. -/
def Clause.EndsPlain : Clause → List Token → List Token → Prop
  | body, _, _ => True
  | elifs, input, rest | otherwise, input, rest => input = rest ∨ Grammar.EndsPlain input rest
  | statement, input, rest | block, input, rest | loopBody, input, rest =>
    Grammar.EndsPlain input rest

theorem Clause.Derives.endsPlain {clause : Clause} {input rest : List Token} {tree : clause.Tree}
    (hclause : clause.Derives input tree rest) : clause.EndsPlain input rest := by
  induction hclause with
  | pass hkind | breakLoop hkind | continueLoop hkind | returnNothing hkind | breakOnly hkind
  | continueOnly hkind => exact endsPlain_of_kind (List.suffix_refl _) hkind nofun
  | returnValue _ _ hvalue => exact hvalue.endsPlain.of_suffix (List.suffix_cons _ _)
  | assign _ _ hvalue =>
    exact hvalue.endsPlain.of_suffix ((List.suffix_cons _ _).trans (List.suffix_cons _ _))
  | increment _ hsign | decrement _ hsign =>
    exact endsPlain_of_kind (List.suffix_cons _ _) hsign nofun
  | call _ hargs | print _ hargs => exact hargs.endsPlain.of_suffix (List.suffix_cons _ _)
  | input _ htext => exact htext.endsPlain.of_suffix (List.suffix_cons _ _)
  | @loop token opening _ _ _ _ _ _ _ _ hcondition _ _ ih =>
    exact (EndsPlain.of_suffix ih (Parser.condition_suffix opening hcondition)).of_suffix
      (List.suffix_cons _ _)
  | @branch token opening _ _ first second third rest _ _ _ _ _ _ hcondition _ hbody helifs _ ihbody
      ihelifs ihotherwise =>
    have hpast := (Parser.condition_suffix opening hcondition).trans (List.suffix_cons token _)
    have hends : Grammar.EndsPlain first rest := by
      obtain rfl | hends := ihotherwise
      · obtain rfl | hends := ihelifs
        · exact ihbody
        · exact hends.of_suffix hbody.suffix
      · exact hends.of_suffix (helifs.suffix.trans hbody.suffix)
    exact hends.of_suffix hpast
  | guarded _ hbody _ _ _ ih =>
    have hpast := (List.suffix_cons _ _).trans hbody.suffix
    exact (EndsPlain.of_suffix ih hpast).of_suffix (List.suffix_cons _ _)
  | empty | plain | terminated => exact trivial
  | block _ hbody hclosing =>
    exact endsPlain_of_kind (hbody.suffix.trans (List.suffix_cons _ _)) hclosing nofun
  | loopBlock _ ih => exact ih
  | noElif | noOtherwise => exact .inl rfl
  | @elif token opening _ _ first _ rest _ _ _ _ _ hcondition _ hbody _ ihbody ihothers =>
    have hpast := (Parser.condition_suffix opening hcondition).trans (List.suffix_cons token _)
    have hends : Grammar.EndsPlain first rest := by
      obtain rfl | hends := ihothers
      · exact ihbody
      · exact hends.of_suffix hbody.suffix
    exact .inr (hends.of_suffix hpast)
  | otherwise _ _ ih => exact .inr (EndsPlain.of_suffix ih (List.suffix_cons _ _))

theorem Exact.exists_own {words input rest : List Token} {span : Span}
    (hspan : Exact input span rest) (hinput : input <:+ words) :
    ∃ before own, words = before ++ own ++ rest ∧ input = own ++ rest ∧ Extent own span := by
  obtain ⟨own, rfl, hown⟩ := hspan
  obtain ⟨before, rfl⟩ := hinput
  exact ⟨before, own, (List.append_assoc before own rest).symm, rfl, hown⟩

end Grammar

open Grammar (Definition Definitions EntryEndsAt Exact InOrder Whole)

theorem Node.Derives.endsPlain {node : Node} {input rest : List Token}
    (hnode : node.Derives input rest) : Grammar.EndsPlain input rest := by
  cases node with
  | expression => exact Grammar.Phrase.Derives.endsPlain hnode
  | statement => exact Grammar.Clause.Derives.endsPlain hnode

section

variable {words input rest : List Token} {node : Node} {function : FunctionDef} {program : Program}

/-- What is laid in some of the words has a place among them. -/
theorem Node.Laid.placed (hnode : Node.Laid input node rest) (hinput : input <:+ words)
    (hordered : Ordered words) : node.Placed words := by
  have hinside := hordered.of_suffix hinput
  have hspans : InOrder Exact input (node.parts.map Node.span) rest :=
    hnode.parts.map fun _ _ _ => Node.Laid.exact
  refine ⟨?_, ?_, hspans.apart hinside⟩
  · obtain ⟨before, own, hwords, rfl, hown⟩ := hnode.exact.exists_own hinput
    refine ⟨before, own, rest, hwords, hnode.derives, hown, ?_⟩
    intro last hlast
    obtain ⟨other, ⟨between, hother⟩, hkind⟩ := hnode.derives.endsPlain
    have hsplit : own = between ++ [other] := by
      have happend : own ++ rest = (between ++ [other]) ++ rest := by
        rw [List.append_assoc, List.singleton_append, hother]
      exact List.append_cancel_right happend
    rw [hsplit, List.getLast?_concat] at hlast
    cases hlast
    exact hkind
  · intro part hpart
    exact hspans.within hnode.exact hinside part.span (List.mem_map_of_mem hpart)

theorem Grammar.Definition.Laid.placed (hfunction : Definition.Laid input function rest)
    (hinput : input <:+ words) (hordered : Ordered words) (hrest : EntryEndsAt rest) :
    function.Placed words := by
  have hinside := hordered.of_suffix hinput
  have hspans : InOrder Exact input (function.body.map Stmt.span) rest := by
    have hnodes : InOrder Exact input ((function.body.map Node.statement).map Node.span) rest :=
      hfunction.body.map fun _ _ _ => Node.Laid.exact
    rwa [List.map_map] at hnodes
  refine ⟨?_, ?_, hspans.apart hinside⟩
  · obtain ⟨before, own, hwords, rfl, hown⟩ := hfunction.exact.exists_own hinput
    exact ⟨before, own, rest, hwords, hfunction.derives, hown, hrest.not_semicolon⟩
  · intro statement hstatement
    exact hspans.within hfunction.exact hinside statement.span (List.mem_map_of_mem hstatement)

/-- Each of the definitions in front of the main entry has a place, and what stands behind it
    cannot belong to it. -/
theorem Grammar.Definitions.exists_of_mem {token : Token} {functions : List FunctionDef}
    (hfunctions : Definitions input functions (token :: rest)) (htoken : token.kind = .keyword .uWuNyaa)
    (hfunction : function ∈ functions) :
    ∃ start middle, start <:+ input ∧ Definition start function middle ∧ EntryEndsAt middle := by
  generalize hlast : token :: rest = last at hfunctions
  induction hfunctions with
  | none => cases hfunction
  | more hfirst hothers ih =>
    subst hlast
    obtain rfl | hfunction := List.mem_cons.mp hfunction
    · exact ⟨_, _, List.suffix_refl _, hfirst, hothers.endsAt (.of_main htoken _)⟩
    · obtain ⟨start, middle, hstart, hplace⟩ := ih hfunction rfl
      obtain ⟨_, _, rfl, _, hmiddle⟩ := hfirst.exists_start
      exact ⟨start, middle, (hstart.trans hmiddle).trans (List.suffix_cons _ _), hplace⟩

theorem Grammar.Whole.function_laid (hwhole : Whole words program) (hordered : Ordered words)
    (hfunction : function ∈ program.functions) :
    ∃ start middle, start <:+ words ∧ Definition.Laid start function middle ∧
      EntryEndsAt middle := by
  cases hwhole with
  | empty => cases hfunction
  | main hfunctions htoken =>
    obtain ⟨start, middle, hstart, hdefinition, hmiddle⟩ :=
      hfunctions.exists_of_mem htoken hfunction
    exact ⟨start, middle, hstart, hdefinition.laid (hordered.of_suffix hstart), hmiddle⟩

/-- The definitions, and behind them the statements of the main entry. -/
theorem Grammar.Whole.laid {functions : List FunctionDef} {entry : MainEntry}
    (hwhole : Whole words ⟨functions, some entry⟩) (hordered : Ordered words) :
    ∃ middle start, InOrder Definition.Laid words functions middle ∧ start <:+ middle ∧
      InOrder Node.Laid start (entry.body.map .statement) [] := by
  cases hwhole with
  | @main token opening closing arrow _ middle _ _ hfunctions _ _ _ _ hentry =>
    have hstart : middle <:+ token :: opening :: closing :: arrow :: middle := ⟨[_, _, _, _], rfl⟩
    have hmiddle := hordered.of_suffix (hstart.trans hfunctions.suffix)
    exact ⟨_, middle, hfunctions.laid hordered, hstart, hentry.laid hmiddle⟩

/-- Every node of a program is laid in the words of the program. -/
theorem Grammar.Whole.node_laid (hwhole : Whole words program) (hordered : Ordered words)
    (hnode : program.Contains node) : ∃ start middle, start <:+ words ∧ node.Laid start middle := by
  induction hnode with
  | function hfunction hstatement =>
    obtain ⟨input, rest, hinput, hlaid, _⟩ := hwhole.function_laid hordered hfunction
    obtain ⟨start, middle, hstart, _, hstatement⟩ :=
      hlaid.body.exists_of_mem (fun _ _ _ => Node.Laid.suffix) (List.mem_map_of_mem hstatement)
    exact ⟨start, middle, hstart.trans hinput, hstatement⟩
  | main hmain hstatement =>
    obtain ⟨functions, main⟩ := program
    subst hmain
    obtain ⟨middle, input, hfunctions, hinput, hentry⟩ := hwhole.laid hordered
    have hmiddle := hfunctions.suffix fun _ _ _ hfunction => hfunction.exact.suffix
    obtain ⟨start, rest, hstart, _, hstatement⟩ :=
      hentry.exists_of_mem (fun _ _ _ => Node.Laid.suffix) (List.mem_map_of_mem hstatement)
    exact ⟨start, rest, (hstart.trans hinput).trans hmiddle, hstatement⟩
  | part _ hpart ih =>
    obtain ⟨input, rest, hinput, hlaid⟩ := ih
    obtain ⟨start, middle, hstart, _, hpart⟩ :=
      hlaid.parts.exists_of_mem (fun _ _ _ => Node.Laid.suffix) hpart
    exact ⟨start, middle, hstart.trans hinput, hpart⟩

/-- The spans of the definitions and of the statements of the main entry do not overlap. -/
theorem Grammar.Whole.apart (hwhole : Whole words program) (hordered : Ordered words) :
    Span.Apart (program.functions.map FunctionDef.span ++
      (program.main.elim [] MainEntry.body).map Stmt.span) := by
  obtain ⟨functions, main⟩ := program
  cases main with
  | none =>
    cases hwhole
    exact .nil
  | some entry =>
    obtain ⟨middle, start, hfunctions, hstart, hentry⟩ := hwhole.laid hordered
    have hfirst : InOrder Exact words (functions.map FunctionDef.span) middle :=
      hfunctions.map fun _ _ _ => Definition.Laid.exact
    have hsecond : InOrder Exact start ((entry.body.map Node.statement).map Node.span) [] :=
      hentry.map fun _ _ _ => Node.Laid.exact
    rw [List.map_map] at hsecond
    exact (hfirst.append hstart hsecond).apart hordered

end

end KawaiiLang
