import KawaiiLang.Parse.Program
import KawaiiLang.Proofs.Parse.Lookahead.Statement

namespace KawaiiLang.Parser

variable {bound bound' : Nat}

theorem local_param (function : String) (earlier : List String) :
    Local bound bound' id (param function earlier) (param function earlier) := by
  refine local_expect_bind fun token => ?_
  by_cases hearlier : earlier.contains token.lexeme = true
  · rw [if_pos hearlier]
    exact .inr ⟨_, rfl, rfl⟩
  · rw [if_neg hearlier]
    exact .inl (local_pure rfl)

theorem blind_moreParams (function : String) (length length' : Nat) (earlier : List String) :
    Blind (min length bound) (min length' bound') (moreParams function earlier length)
      (moreParams function earlier length') := by
  have hbase (earlier : List String) :
      Blind 0 0 (moreParams function earlier 0) (moreParams function earlier 0) :=
    (local_param function earlier).bind fun _ _ _ => local_pure rfl
  have hzero (earlier : List String) (cursor : Cursor) (hcursor : cursor.Within 0) :
      moreParams function earlier 0 cursor = moreParams function earlier 1 cursor := by
    cases hparam : param function earlier cursor with
    | ok name next =>
      rw [param, bind_eq_ok_iff] at hparam
      obtain ⟨token, middle, hexpect, _⟩ := hparam
      have hrest := (expect_eq_ok hexpect).1
      rw [hcursor.rest_eq_nil] at hrest
      cases hrest
    | error error next =>
      rw [moreParams, moreParams, bind_of_eq_error hparam, bind_of_eq_error hparam]
  refine local_loops hbase hzero hzero ?_ length length' earlier
  intro length length' ih earlier
  refine (local_param function earlier).bind fun name name' hname => ?_
  cases hname
  refine local_takeIf_bind (local_pure rfl) ?_
  intro _ comma _
  exact .inl ((ih (earlier ++ [name])).mono (by omega) (by omega))

theorem blind_params (function : String) :
    Blind bound bound' (params function) (params function) := by
  refine local_expect_then (local_sees_bind fun closed => ?_)
  cases closed with
  | true => exact local_expect_then (local_pure rfl)
  | false =>
    refine local_remaining_bind fun length _ length' _ => ?_
    have hnames := (blind_moreParams function length length' []).of_min (Nat.le_refl _)
      (Nat.le_refl _)
    exact hnames.bind fun _ _ _ => local_expect_then (local_pure rfl)

theorem blind_functionBody (function : String) :
    Blind bound bound' (functionBody function) (functionBody function) := by
  refine local_accept_bind ?_ fun _ => blind_blockOf paired_statement
  refine local_seesStatement_bind fun starts => .ite ?_ (local_unmet _ _)
  exact (blind_terminated paired_statement).bind fun _ _ _ => local_pure rfl

theorem blind_mainBody : Blind bound bound' mainBody mainBody := by
  refine local_accept_bind ?_
    fun _ => (blind_blockOf paired_statement).bind fun _ _ _ => local_pure rfl
  refine local_seesStatement_bind fun starts => .ite ?_ (local_unmet _ _)
  exact (blind_terminated paired_statement).bind fun _ _ _ => local_pure rfl

theorem blind_definition (first first' : Span) :
    Blind bound bound' (definition first) (definition first') := by
  refine local_expect_bind fun name => .inl ?_
  refine (blind_params name.lexeme).bind fun _ _ _ => ?_
  have hbody (params params' : List String) : Blind bound bound'
      (do
        let body ← functionBody name.lexeme
        return ({ name := name.lexeme, params, body, span := ← spanFrom first } : FunctionDef))
      (do
        let body ← functionBody name.lexeme
        return ({ name := name.lexeme, params := params', body,
                  span := ← spanFrom first' } : FunctionDef)) :=
    (blind_functionBody name.lexeme).node _ _ _ _
  exact local_accept_bind (hbody _ _) fun _ => hbody _ _

theorem blind_definitions (length length' : Nat) :
    Blind (min length bound) (min length' bound') (definitions length) (definitions length') := by
  have hzero (cursor : Cursor) (hcursor : cursor.Within 0) :
      definitions 0 cursor = definitions 1 cursor := by
    have hnone : ∀ token ∈ cursor.rest.head?, token.kind ≠ .keyword .kawaii := by
      simp [hcursor.rest_eq_nil]
    rw [definitions, definitions, bind_of_eq_ok (accept_of_kind_ne hnone)]
  have hbase : Blind 0 0 (definitions 0) (definitions 0) := local_pure rfl
  refine local_loop hbase hzero hzero ?_ length length'
  intro length length' ih
  refine local_takeIf_bind (local_pure rfl) ?_
  intro _ keyword _
  refine .inl ((blind_definition _ _).bind fun _ _ _ => ?_)
  exact Local.bind (ih.mono (by omega) (by omega)) fun _ _ _ => local_pure rfl

theorem local_atEnd_bind {β δ : Type} {key : β → δ} {next next' : Bool → Parser β}
    (hnext : ∀ ended, Local bound bound' key (next ended) (next' ended)) :
    Local bound bound' key (atEnd >>= next) (atEnd >>= next') := by
  refine local_look_bind ?_ hnext
  intro cursor cursor' _ _ htake
  rw [Bool.eq_iff_iff, List.isEmpty_iff, List.isEmpty_iff, ← List.head?_eq_none_iff,
    ← List.head?_eq_none_iff, head?_eq_of_take_two_eq htake]

theorem blind_program : Blind bound bound' program program := by
  refine local_atEnd_bind fun ended => .ite (local_pure rfl) ?_
  refine local_remaining_bind fun length _ length' _ => ?_
  have hdefinitions := (blind_definitions length length').of_min (Nat.le_refl _) (Nat.le_refl _)
  refine hdefinitions.bind fun _ _ _ => ?_
  have hmain : Blind length length' mainEntry mainEntry :=
    local_expect_then (local_expect_then (local_expect_then (local_expect_then blind_mainBody)))
  have hfinished : Blind length length' (finished .endAfterMain) (finished .endAfterMain) :=
    local_atEnd_bind fun ended => .ite (local_pure rfl) (local_unmet _ _)
  exact hmain.bind fun _ _ _ => hfinished.bind fun _ _ _ => local_pure rfl

/-- What follows the token at fault and the next one cannot mend a syntax error. -/
theorem program_error_of_fork {cursor cursor' next : Cursor} {error : SyntaxError}
    {rest' : List Token} (hstop : cursor.stop.kind = .endOfInput)
    (hstop' : cursor'.stop.kind = .endOfInput) (herror : program cursor = .error error next)
    (hfork : Fork cursor.rest cursor'.rest (error.onward next) rest') :
    ∃ error' next', program cursor' = .error error' next' := by
  have hlocal := blind_program cursor cursor' ⟨hstop, Nat.le_refl _⟩ ⟨hstop', Nat.le_refl _⟩
  rw [LocalAt, herror] at hlocal
  exact hlocal.2 rest' hfork

end KawaiiLang.Parser
