import KawaiiLang.Proofs.Grammar.Follow
import KawaiiLang.Proofs.Program.Node

namespace KawaiiLang

/-- The same function, perhaps with another span. -/
structure FunctionDef.Respanned (first second : FunctionDef) : Prop where
  name : first.name = second.name
  params : first.params = second.params
  body : first.body = second.body

/-- The same program, but for the spans of its functions. -/
structure Program.Respanned (first second : Program) : Prop where
  functions : List.Forall₂ FunctionDef.Respanned first.functions second.functions
  main : first.main = second.main

theorem FunctionDef.Respanned.refl (function : FunctionDef) : function.Respanned function :=
  ⟨rfl, rfl, rfl⟩

theorem FunctionDef.forall₂_respanned_refl (functions : List FunctionDef) :
    List.Forall₂ Respanned functions functions :=
  List.forall₂_same.mpr fun function _ => .refl function

namespace Grammar

/-- What may stand between a statement and what follows it. -/
inductive Gap : List Token → Prop where
  | nothing : Gap []
  | semicolon {token : Token} (htoken : token.kind = .symbol .semicolon) : Gap [token]

/-- A statement ends in front of a gap. -/
theorem Clause.Onward.endsAt_gap {gap after : List Token} (hafter : Clause.Onward after)
    (hgap : Gap gap) : Clause.statement.EndsAt (gap ++ after) := by
  cases hgap with
  | nothing => exact hafter.endsAt
  | semicolon htoken => exact .of_semicolon htoken after

theorem EntryEndsAt.onward {rest : List Token} (hrest : EntryEndsAt rest) : Clause.Onward rest :=
  ⟨hrest.statement, hrest.not_semicolon⟩

/-- The statement `inner` is read from the tokens `own` of `input`, and `T` holds with any other
    tokens in their place that are read as it, and with any gap behind them. -/
structure Place (T : List Token → Prop) (inner : Stmt) (input before own gap after : List Token) :
    Prop where
  split : input = before ++ (own ++ (gap ++ after))
  gapped : Gap gap
  derives : Clause.statement.Derives (own ++ (gap ++ after)) inner (gap ++ after)
  onward : Clause.Onward after
  replace : ∀ {words between : List Token}, Gap between →
    Clause.statement.Derives (words ++ (between ++ after)) inner (between ++ after) →
      T (before ++ (words ++ (between ++ after)))

/-- What holds of tokens with more of them in front. -/
theorem Place.behind {T T' : List Token → Prop} {inner : Stmt}
    {input whole before own gap after : List Token} (hplace : Place T inner input before own gap after)
    (front : List Token) (hwhole : whole = front ++ input)
    (hT : ∀ words, T (words ++ after) → T' (front ++ (words ++ after))) :
    Place T' inner whole (front ++ before) own gap after where
  split := by rw [hwhole, hplace.split, List.append_assoc]
  gapped := hplace.gapped
  derives := hplace.derives
  onward := hplace.onward
  replace {words between} hbetween hwords := by
    have hinside := hplace.replace hbetween hwords
    simp only [← List.append_assoc] at hinside ⊢
    simpa only [List.append_assoc] using hT _ hinside

theorem Place.mono {T T' : List Token → Prop} {inner : Stmt}
    {input before own gap after : List Token} (hplace : Place T inner input before own gap after)
    (hT : ∀ words, T (words ++ after) → T' (words ++ after)) :
    Place T' inner input before own gap after :=
  hplace.behind [] rfl hT

/-- The gap behind a statement can be another one. A semicolon behind a return without a value must
    not give way to a value. -/
theorem Place.regap {T : List Token → Prop} {inner : Stmt} {input before own gap after : List Token}
    (hplace : Place T inner input before own gap after) {between : List Token}
    (hbetween : Gap between)
    (hbare : (∃ span, inner = .returnWith none span) → ¬ TakesValue (between ++ after)) :
    T (before ++ (own ++ (between ++ after))) := by
  refine hplace.replace hbetween (hplace.derives.onto ⟨?_, ?_, hbare⟩)
  · exact hplace.onward.endsAt_gap hplace.gapped
  · exact hplace.onward.endsAt_gap hbetween

section

variable {input rest : List Token}

/-- The span of tokens depends on the first and on the last of them. -/
theorem spanOf_of_suffix (first : Token) {after : List Token} (hrest : rest <:+ after)
    (hlength : rest.length < after.length) (words others : List Token) :
    spanOf first (words ++ after) rest = spanOf first (others ++ after) rest := by
  obtain ⟨tail, rfl⟩ := hrest
  have htail : tail ≠ [] := by
    rintro rfl
    simp at hlength
  rw [← List.append_assoc, ← List.append_assoc, spanOf_append, spanOf_append,
    List.getLast?_append_of_ne_nil _ htail, List.getLast?_append_of_ne_nil _ htail]

namespace Clause

/-- Whether a return in front of a body takes a value depends on the statements of the body. -/
theorem Derives.takesValue_of_body {other : List Token} {statements : List Stmt}
    (hbody : body.Derives input statements rest) (hother : body.Derives other statements rest)
    (hend : body.EndsAt rest) (htakes : TakesValue other) : TakesValue input := by
  cases statements with
  | nil =>
    cases hother
    exact absurd htakes hend.not_takesValue
  | cons first others =>
    have hcall : ∃ name args span, first = .call name args span := by
      cases hother with
      | plain hfirst | terminated hfirst => exact hfirst.takesValue_iff.mp htakes
    cases hbody with
    | plain hfirst | terminated hfirst => exact hfirst.takesValue_iff.mpr hcall

/-- A statement in front of a body is read as it in front of any other tokens of this body. -/
theorem Derives.onto_body {own gap middle other : List Token} {first : Stmt} {others : List Stmt}
    (hfirst : statement.Derives (own ++ (gap ++ middle)) first (gap ++ middle)) (hgap : Gap gap)
    (hmiddle : body.Derives middle others rest) (hother : body.Derives other others rest)
    (hend : body.EndsAt rest) :
    statement.Derives (own ++ (gap ++ other)) first (gap ++ other) := by
  refine hfirst.onto ⟨(hmiddle.onward hend).endsAt_gap hgap, (hother.onward hend).endsAt_gap hgap, ?_⟩
  intro hbare htakes
  cases hgap with
  | nothing =>
    exact hfirst.not_takesValue_of_bare hbare (hmiddle.takesValue_of_body hother hend htakes)
  | semicolon hsemicolon => exact not_takesValue_of_semicolon _ hsemicolon htakes

theorem Derives.cons {own gap middle : List Token} {first : Stmt} {others : List Stmt}
    (hfirst : statement.Derives (own ++ (gap ++ middle)) first (gap ++ middle)) (hgap : Gap gap)
    (hothers : body.Derives middle others rest) :
    body.Derives (own ++ (gap ++ middle)) (first :: others) rest := by
  cases hgap with
  | nothing => exact .plain hfirst hothers
  | semicolon hsemicolon => exact .terminated hfirst hsemicolon hothers

/-- Whether the statement is one of those just below what a clause is read as. -/
def Has (inner : Stmt) : (clause : Clause) → clause.Tree → Prop
  | statement, result => .statement inner ∈ (Node.statement result).parts
  | body, statements | block, statements => inner ∈ statements
  | loopBody, repeated => inner ∈ repeated.inner
  | elifs, branches => ∃ branch ∈ branches, inner ∈ branch.2
  | otherwise, statements => inner ∈ statements.getD []

/-- The statement has a place in what is read as the clause. Unless this is a body, some token of it
    stands behind the place. -/
def HasPlace (clause : Clause) (tree : clause.Tree) (inner : Stmt) (input rest : List Token) : Prop :=
  ∃ before own gap after, Place (clause.Derives · tree rest) inner input before own gap after ∧
    rest <:+ after ∧ (clause ≠ body → rest.length < after.length)

/-- A place in a part of a clause that has other tokens in front. -/
theorem HasPlace.behind {part whole : Clause} {tree : part.Tree} {result : whole.Tree}
    {inner : Stmt} {middle : List Token} (hplace : part.HasPlace tree inner input middle)
    (hpart : part ≠ body) (hrest : rest <:+ middle) (front : List Token)
    (hwhole : ∀ words, part.Derives words tree middle → whole.Derives (front ++ words) result rest) :
    whole.HasPlace result inner (front ++ input) rest := by
  obtain ⟨before, own, gap, after, hplace, hmiddle, hlength⟩ := hplace
  refine ⟨_, own, gap, after, hplace.behind front rfl fun words => hwhole _, hrest.trans hmiddle, ?_⟩
  exact fun _ => hrest.length_le.trans_lt (hlength hpart)

/-- A place in a part of a statement, whose span does not depend on what stands in this place. -/
theorem HasPlace.node {part : Clause} {tree : part.Tree} {inner : Stmt} {middle : List Token}
    (hplace : part.HasPlace tree inner input middle) (hpart : part ≠ body) (hrest : rest <:+ middle)
    (node : Span → Stmt) (token : Token) (front : List Token)
    (hnode : ∀ words, part.Derives words tree middle → statement.Derives (token :: (front ++ words))
      (node (spanOf token (front ++ words) rest)) rest) :
    statement.HasPlace (node (spanOf token (front ++ input) rest)) inner (token :: (front ++ input))
      rest := by
  obtain ⟨before, own, gap, after, hplace, hmiddle, hlength⟩ := hplace
  have hlength := hrest.length_le.trans_lt (hlength hpart)
  have hrest := hrest.trans hmiddle
  refine ⟨_, own, gap, after, hplace.behind (token :: front) rfl fun words hwords => ?_, hrest,
    fun _ => hlength⟩
  have hspan := spanOf_of_suffix token hrest hlength (front ++ words)
    (front ++ (before ++ (own ++ gap)))
  simp only [List.append_assoc] at hspan
  rw [hplace.split, ← hspan]
  exact hnode _ hwords

/-- The first statement of a body has its place, and each of the others keeps its own. -/
theorem Derives.place_cons {own gap middle : List Token} {first inner : Stmt} {others : List Stmt}
    (hfirst : statement.Derives (own ++ (gap ++ middle)) first (gap ++ middle)) (hgap : Gap gap)
    (hothers : body.Derives middle others rest) (hend : body.EndsAt rest)
    (hinner : inner ∈ first :: others)
    (hplaces : inner ∈ others → body.HasPlace others inner middle rest) :
    body.HasPlace (first :: others) inner (own ++ (gap ++ middle)) rest := by
  obtain rfl | hinner := List.mem_cons.mp hinner
  · refine ⟨[], own, gap, middle, ⟨rfl, hgap, hfirst, hothers.onward hend, ?_⟩, hothers.suffix,
      nofun⟩
    intro words between hbetween hwords
    exact hwords.cons hbetween hothers
  · obtain ⟨before, words, between, after, hplace, hrest, _⟩ := hplaces hinner
    refine ⟨_, words, between, after, hplace.behind (own ++ gap) (by simp) fun other hother => ?_,
      hrest, nofun⟩
    rw [List.append_assoc]
    exact (hfirst.onto_body hgap hothers hother hend).cons hgap hother

/-- Every statement just below a clause has its place. -/
theorem Derives.place {clause : Clause} {tree : clause.Tree} {inner : Stmt}
    (hclause : clause.Derives input tree rest) (hend : clause = body → body.EndsAt rest)
    (hinner : clause.Has inner tree) : clause.HasPlace tree inner input rest := by
  induction hclause with
  | pass | breakLoop | continueLoop | returnValue | returnNothing | assign | increment | decrement
  | call | print | input => simp [Has, Node.parts] at hinner
  | breakOnly | continueOnly | noElif | noOtherwise | empty => simp [Has, LoopBody.inner] at hinner
  | @loop token opening closing _ _ rest condition body htoken hopening hcondition hclosing _ ih =>
    replace hinner : inner ∈ body.inner := by simpa [Has, Node.parts] using hinner
    obtain ⟨words, _, rfl, hwords⟩ := hcondition.exchange
    have hplace := (ih nofun hinner).node nofun (List.suffix_refl _) (.loop condition body) token
      (opening :: (words ++ [closing])) fun other hother => by
        simpa using .loop htoken hopening (hwords _) hclosing hother
    simpa using hplace
  | @branch token opening closing _ _ _ _ rest condition body elifs otherwise htoken hopening
      hcondition hclosing hbody helifs hotherwise ihbody ihelifs ihotherwise =>
    obtain ⟨words, _, rfl, hwords⟩ := hcondition.exchange
    replace hinner : inner ∈ body ∨ Clause.elifs.Has inner elifs ∨
        Clause.otherwise.Has inner otherwise := by
      simpa [Has, Node.parts, and_assoc, or_assoc] using hinner
    obtain hinner | hinner | hinner := hinner
    · have hrest := hotherwise.suffix.trans helifs.suffix
      have hplace := (ihbody nofun hinner).node nofun hrest (.branch condition body elifs otherwise)
        token (opening :: (words ++ [closing])) fun other hother => by
          simpa using .branch htoken hopening (hwords _) hclosing hother helifs hotherwise
      simpa using hplace
    · obtain ⟨first, rfl, hfirst⟩ := hbody.exchange
      have hplace := (ihelifs nofun hinner).node nofun hotherwise.suffix
        (.branch condition body elifs otherwise) token (opening :: (words ++ closing :: first))
        fun other hother => by
          simpa using
            .branch htoken hopening (hwords _) hclosing (hfirst _ trivial) hother hotherwise
      simpa using hplace
    · obtain ⟨second, rfl, hsecond⟩ := helifs.exchange
      obtain ⟨first, rfl, hfirst⟩ := hbody.exchange
      have hplace := (ihotherwise nofun hinner).node nofun (List.suffix_refl _)
        (.branch condition body elifs otherwise) token
        (opening :: (words ++ closing :: (first ++ second))) fun other hother => by
          simpa using .branch htoken hopening (hwords _) hclosing (hfirst _ trivial)
            (hsecond _ trivial) hother
      simpa using hplace
  | @guarded token handlerToken _ _ rest body handler htoken hbody hhandlerToken hhandler ihbody
      ihhandler =>
    replace hinner : inner ∈ body ∨ inner ∈ handler := by simpa [Has, Node.parts] using hinner
    obtain hinner | hinner := hinner
    · have hrest := hhandler.suffix.trans (List.suffix_cons handlerToken _)
      exact (ihbody nofun hinner).node nofun hrest (.guarded body handler) token [] fun other hother =>
        .guarded htoken hother hhandlerToken hhandler
    · obtain ⟨words, rfl, hwords⟩ := hbody.exchange
      have hplace := (ihhandler nofun hinner).node nofun (List.suffix_refl _) (.guarded body handler)
        token (words ++ [handlerToken]) fun other hother => by
          simpa using .guarded htoken (hwords _ trivial) hhandlerToken hother
      simpa using hplace
  | plain hfirst hothers _ ih =>
    obtain ⟨words, rfl⟩ := hfirst.suffix
    exact hfirst.place_cons .nothing hothers (hend rfl) hinner (ih hend)
  | terminated hfirst hsemicolon hothers _ ih =>
    obtain ⟨words, rfl⟩ := hfirst.suffix
    exact hfirst.place_cons (.semicolon hsemicolon) hothers (hend rfl) hinner (ih hend)
  | @block opening closing _ rest statements hopening hbody hclosing ih =>
    -- The closing brace stands behind the places in the body, so it is the last token of the block.
    obtain ⟨before, own, gap, after, hplace, hrest, _⟩ := ih (fun _ => .of_closing hclosing _) hinner
    refine ⟨_, own, gap, after, hplace.behind [opening] rfl fun other hother => ?_,
      (List.suffix_cons _ _).trans hrest, fun _ => hrest.length_le⟩
    exact .block hopening hother hclosing
  | loopBlock _ ih =>
    exact (ih nofun hinner).behind nofun (List.suffix_refl _) [] fun _ => .loopBlock
  | @elif token opening closing _ _ _ rest condition body others htoken hopening hcondition hclosing
      hbody hothers ihbody ihothers =>
    obtain ⟨words, _, rfl, hwords⟩ := hcondition.exchange
    replace hinner : inner ∈ body ∨ elifs.Has inner others := by simpa [Has] using hinner
    obtain hinner | hinner := hinner
    · have hplace := (ihbody nofun hinner).behind nofun hothers.suffix
        (token :: opening :: (words ++ [closing])) fun other hother => by
          simpa using .elif htoken hopening (hwords _) hclosing hother hothers
      simpa using hplace
    · obtain ⟨first, rfl, hfirst⟩ := hbody.exchange
      have hplace := (ihothers nofun hinner).behind nofun (List.suffix_refl _)
        (token :: opening :: (words ++ closing :: first)) fun other hother => by
          simpa using .elif htoken hopening (hwords _) hclosing (hfirst _ trivial) hother
      simpa using hplace
  | @otherwise token _ _ _ htoken _ ih =>
    exact (ih nofun hinner).behind nofun (List.suffix_refl _) [token] fun _ => .otherwise htoken

end Clause

/-- The only statement of an entry, with any gap behind it. -/
theorem Entry.single {own gap : List Token} {inner : Stmt} (hgap : Gap gap)
    (hstatement : Clause.statement.Derives (own ++ (gap ++ rest)) inner (gap ++ rest)) :
    Entry (own ++ (gap ++ rest)) (.single inner) rest := by
  cases hgap with
  | nothing => exact .plain hstatement
  | semicolon hsemicolon => exact .terminated hstatement hsemicolon

/-- Every statement that an entry runs has its place. -/
theorem Entry.place {entry : MainEntry} {inner : Stmt} (hentry : Entry input entry rest)
    (hrest : EntryEndsAt rest) (hinner : inner ∈ entry.body) :
    ∃ before own gap after, Place (Entry · entry rest) inner input before own gap after := by
  cases hentry with
  | block hblock =>
    obtain ⟨before, own, gap, after, hplace, _⟩ := hblock.place nofun hinner
    exact ⟨before, own, gap, after, hplace.mono fun _ => .block⟩
  | plain hstatement =>
    obtain rfl := List.mem_singleton.mp hinner
    obtain ⟨words, rfl⟩ := hstatement.suffix
    exact ⟨[], words, [], rest, rfl, .nothing, hstatement, hrest.onward, Entry.single⟩
  | @terminated semicolon _ _ _ hstatement hsemicolon =>
    obtain rfl := List.mem_singleton.mp hinner
    obtain ⟨words, rfl⟩ := hstatement.suffix
    exact ⟨[], words, [semicolon], rest, rfl, .semicolon hsemicolon, hstatement, hrest.onward,
      Entry.single⟩

/-- Every statement of a function has its place. The semicolon behind an only statement belongs to
    the span of the function. -/
theorem Definition.place {function : FunctionDef} {inner : Stmt}
    (hfunction : Definition input function rest) (hrest : EntryEndsAt rest)
    (hinner : inner ∈ function.body) :
    ∃ before own gap after,
      Place (fun input => ∃ other, function.Respanned other ∧ Definition input other rest) inner input
        before own gap after := by
  cases hfunction with
  | @plain token name _ _ _ _ _ htoken hname hparams hdistinct hentry =>
    obtain ⟨before, own, gap, after, hplace⟩ := hentry.place hrest hinner
    obtain ⟨words, rfl, hwords⟩ := hparams.exchange
    refine ⟨_, own, gap, after, hplace.behind (token :: name :: words) rfl fun other hother => ?_⟩
    refine ⟨_, ?_, .plain htoken hname (hwords _) hdistinct hother⟩
    exact ⟨rfl, rfl, rfl⟩
  | @arrow token name arrow _ _ _ _ _ htoken hname hparams harrow hdistinct hentry =>
    obtain ⟨before, own, gap, after, hplace⟩ := hentry.place hrest hinner
    obtain ⟨words, rfl, hwords⟩ := hparams.exchange
    refine ⟨_, own, gap, after,
      hplace.behind (token :: name :: (words ++ [arrow])) (by simp) fun other hother => ?_⟩
    simp only [List.cons_append, List.append_assoc, List.nil_append]
    refine ⟨_, ?_, .arrow htoken hname (hwords _) harrow hdistinct hother⟩
    exact ⟨rfl, rfl, rfl⟩

theorem Definitions.place {functions : List FunctionDef} {function : FunctionDef} {inner : Stmt}
    (hfunctions : Definitions input functions rest) (hrest : EntryEndsAt rest)
    (hfunction : function ∈ functions) (hinner : inner ∈ function.body) :
    ∃ before own gap after,
      Place (fun input => ∃ others, List.Forall₂ FunctionDef.Respanned functions others ∧
        Definitions input others rest) inner input before own gap after := by
  induction hfunctions with
  | none => cases hfunction
  | @more _ _ _ first others hfirst hothers ih =>
    have hmiddle := hothers.endsAt hrest
    obtain rfl | hfunction := List.mem_cons.mp hfunction
    · obtain ⟨before, own, gap, after, hplace⟩ := hfirst.place hmiddle hinner
      refine ⟨before, own, gap, after, hplace.mono ?_⟩
      rintro words ⟨other, hsame, hother⟩
      exact ⟨_, .cons hsame (FunctionDef.forall₂_respanned_refl others), .more hother hothers⟩
    · obtain ⟨before, own, gap, after, hplace⟩ := ih hrest hfunction
      obtain ⟨words, rfl, hwords⟩ := hfirst.exchange hmiddle
      refine ⟨_, own, gap, after, hplace.behind words rfl ?_⟩
      rintro _ ⟨functions, hsame, hfunctions⟩
      exact ⟨_, .cons (.refl first) hsame, .more (hwords _ (hfunctions.endsAt hrest)) hfunctions⟩

theorem Whole.place_main {words : List Token} {functions : List FunctionDef} {entry : MainEntry}
    {inner : Stmt} (hwhole : Whole words ⟨functions, some entry⟩) (hinner : inner ∈ entry.body) :
    ∃ before own gap after,
      Place (Whole · ⟨functions, some entry⟩) inner words before own gap after := by
  cases hwhole with
  | @main token opening closing arrow _ _ _ _ hfunctions htoken hopening hclosing harrow hentry =>
    obtain ⟨before, own, gap, after, hplace⟩ := hentry.place .nil hinner
    obtain ⟨front, rfl, hfront⟩ := hfunctions.exchange (.of_main htoken _)
    refine ⟨_, own, gap, after, hplace.behind (front ++ [token, opening, closing, arrow]) (by simp)
      fun other hother => ?_⟩
    simpa using Whole.main (hfront _ (.of_main htoken _)) htoken hopening hclosing harrow hother

/-- Every statement of a program, at whatever depth, has its place. -/
theorem Whole.place {words : List Token} {program : Program} {inner : Stmt}
    (hwhole : Whole words program) (hinner : program.Contains (.statement inner)) :
    ∃ before own gap after,
      Place (fun words => ∃ other, program.Respanned other ∧ Whole words other) inner words before own
        gap after := by
  generalize hnode : Node.statement inner = node at hinner
  induction hinner generalizing inner with
  | function hfunction hstatement =>
    cases hnode
    cases hwhole with
    | empty => cases hfunction
    | main hfunctions htoken hopening hclosing harrow hentry =>
      obtain ⟨before, own, gap, after, hplace⟩ :=
        hfunctions.place (.of_main htoken _) hfunction hstatement
      refine ⟨before, own, gap, after, hplace.mono ?_⟩
      rintro _ ⟨others, hsame, hothers⟩
      exact ⟨⟨others, _⟩, ⟨hsame, rfl⟩, .main hothers htoken hopening hclosing harrow hentry⟩
  | main hmain hstatement =>
    cases hnode
    obtain ⟨functions, main⟩ := program
    subst hmain
    obtain ⟨before, own, gap, after, hplace⟩ := hwhole.place_main hstatement
    refine ⟨before, own, gap, after, hplace.mono fun _ hother => ?_⟩
    exact ⟨_, ⟨FunctionDef.forall₂_respanned_refl functions, rfl⟩, hother⟩
  | @part node part _ hpart ih =>
    subst hnode
    cases node with
    | expression value => cases value <;> simp [Node.parts] at hpart
    | statement outer =>
      obtain ⟨before, own, gap, after, houter⟩ := ih rfl
      obtain ⟨front, words, between, behind, hplace, hrest, _⟩ := houter.derives.place nofun hpart
      obtain ⟨tail, rfl⟩ := hrest
      refine ⟨before ++ front, words, between, _,
        hplace.behind before houter.split fun other hother => ?_⟩
      rw [← List.append_assoc other] at hother ⊢
      exact houter.replace houter.gapped hother

end

end Grammar
end KawaiiLang
