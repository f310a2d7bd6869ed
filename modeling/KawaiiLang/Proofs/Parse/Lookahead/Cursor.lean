import KawaiiLang.Proofs.Parse.Cursor

namespace KawaiiLang

/-- The tokens from the one on that a syntax error is about. A token that is refused has been read
    before. -/
def SyntaxError.onward (error : SyntaxError) (next : Cursor) : List Token :=
  match error.fault with
  | .expected _ => next.rest
  | _ => error.found :: next.rest

/-- There are at most `bound` tokens to read, and an end mark behind them. -/
structure Cursor.Within (bound : Nat) (cursor : Cursor) : Prop where
  stop_kind : cursor.stop.kind = .endOfInput
  length_le : cursor.rest.length ≤ bound

theorem Cursor.Within.mono {bound larger : Nat} {cursor : Cursor} (hcursor : cursor.Within bound)
    (hbound : bound ≤ larger) : cursor.Within larger :=
  ⟨hcursor.stop_kind, Nat.le_trans hcursor.length_le hbound⟩

theorem Cursor.Within.rest_eq_nil {cursor : Cursor} (hcursor : cursor.Within 0) : cursor.rest = [] :=
  List.eq_nil_of_length_eq_zero (Nat.le_zero.mp hcursor.length_le)

namespace Parser

/-- The two inputs are the same up to `rest` and `rest'`, and also in the two tokens behind. -/
def Fork (input input' rest rest' : List Token) : Prop :=
  ∃ read, input = read ++ rest ∧ input' = read ++ rest' ∧ rest.take 2 = rest'.take 2

namespace Fork

variable {input input' middle rest rest' : List Token}

theorem take_two (hfork : Fork input input' rest rest') : input.take 2 = input'.take 2 := by
  obtain ⟨read, rfl, rfl, htake⟩ := hfork
  have hfewer := congrArg (List.take (2 - read.length)) htake
  rw [List.take_take, List.take_take, Nat.min_eq_left (Nat.sub_le _ _)] at hfewer
  rw [List.take_append, List.take_append, hfewer]

theorem eq_of_self (hfork : Fork input input' input rest') : input' = rest' := by
  obtain ⟨read, hread, rfl, _⟩ := hfork
  have hnil : read = [] := List.append_left_eq_self.mp hread.symm
  rw [hnil, List.nil_append]

/-- Two inputs are also the same up to each earlier place. -/
theorem split (hfork : Fork input input' rest rest') (hmiddle : middle <:+ input)
    (hrest : rest <:+ middle) :
    ∃ middle', Fork input input' middle middle' ∧ Fork middle middle' rest rest' := by
  obtain ⟨read, hread, rfl, htake⟩ := hfork
  obtain ⟨first, rfl⟩ := hmiddle
  obtain ⟨between, rfl⟩ := hrest
  have hsplit : read = first ++ between := by
    rw [← List.append_assoc] at hread
    exact (List.append_cancel_right hread).symm
  have hinside : Fork (between ++ rest) (between ++ rest') rest rest' := ⟨between, rfl, rfl, htake⟩
  refine ⟨between ++ rest', ⟨first, rfl, ?_, hinside.take_two⟩, hinside⟩
  rw [hsplit, List.append_assoc]

end Fork

variable {α β γ δ : Type} {bound bound' : Nat}

/-- What a step of reading does from a cursor depends only on the tokens that it reads, or that are
    in front of its error, and on the next two: from another cursor with these tokens the other
    step does the same, and gives a result with the same `key`. -/
def LocalAt (cursor cursor' : Cursor) (key : α → γ) (parser parser' : Parser α) : Prop :=
  match parser cursor with
  | .ok a next => next.stop = cursor.stop ∧ next.rest <:+ cursor.rest ∧
    ∀ rest', Fork cursor.rest cursor'.rest next.rest rest' →
      ∃ a' next', parser' cursor' = .ok a' next' ∧ key a = key a' ∧ next'.rest = rest' ∧
        next'.stop = cursor'.stop
  | .error error next => error.onward next <:+ cursor.rest ∧
    ∀ rest', Fork cursor.rest cursor'.rest (error.onward next) rest' →
      ∃ error' next', parser' cursor' = .error error' next'

/-- A step that is local from wherever at most `bound` tokens are left, and at most `bound'` on the
    other side. -/
def Local (bound bound' : Nat) (key : α → γ) (parser parser' : Parser α) : Prop :=
  ∀ cursor cursor' : Cursor, cursor.Within bound → cursor'.Within bound' →
    LocalAt cursor cursor' key parser parser'

/-- Only the tokens that are read count, and not what they are read as. -/
abbrev Blind (bound bound' : Nat) (parser parser' : Parser α) : Prop :=
  Local bound bound' (fun _ => ()) parser parser'

/-- A step that reads a token if it gives a result. -/
def Advances (parser : Parser α) : Prop :=
  ∀ ⦃cursor next : Cursor⦄ ⦃a : α⦄, cursor.stop.kind = .endOfInput →
    parser cursor = .ok a next → next.rest.length < cursor.rest.length

section

variable {key : α → γ} {parser parser' : Parser α}

theorem Local.mono {larger larger' : Nat} (hparser : Local larger larger' key parser parser')
    (hbound : bound ≤ larger) (hbound' : bound' ≤ larger') :
    Local bound bound' key parser parser' :=
  fun _ _ hcursor hcursor' => hparser _ _ (hcursor.mono hbound) (hcursor'.mono hbound')

theorem Local.of_min {length length' : Nat}
    (hparser : Local (min length bound) (min length' bound') key parser parser')
    (hlength : length ≤ bound) (hlength' : length' ≤ bound') :
    Local length length' key parser parser' :=
  hparser.mono (Nat.le_min.mpr ⟨Nat.le_refl _, hlength⟩) (Nat.le_min.mpr ⟨Nat.le_refl _, hlength'⟩)

/-- With nothing left to read, nothing is read. -/
theorem Local.rest_eq_nil (hparser : Local bound bound' key parser parser') {cursor next : Cursor}
    {a : α} (hcursor : cursor.Within 0) (hresult : parser cursor = .ok a next) : next.rest = [] := by
  have hlocal := hparser cursor cursor (hcursor.mono (Nat.zero_le _)) (hcursor.mono (Nat.zero_le _))
  rw [LocalAt, hresult, hcursor.rest_eq_nil] at hlocal
  exact List.suffix_nil.mp hlocal.2.1

theorem Local.rest_eq_nil' (hparser : Local bound bound' key parser parser') {cursor next : Cursor}
    {a : α} (hcursor : cursor.Within 0) (hresult : parser' cursor = .ok a next) :
    next.rest = [] := by
  have hlocal := hparser cursor cursor (hcursor.mono (Nat.zero_le _)) (hcursor.mono (Nat.zero_le _))
  rw [LocalAt, hcursor.rest_eq_nil] at hlocal
  have hfork : Fork [] [] [] [] := ⟨[], rfl, rfl, rfl⟩
  cases hleft : parser cursor with
  | ok b other =>
    rw [hleft] at hlocal
    obtain ⟨_, hsuffix, hlocal⟩ := hlocal
    rw [List.suffix_nil.mp hsuffix] at hlocal
    obtain ⟨_, _, hresult', _, hrest', _⟩ := hlocal [] hfork
    rw [hresult] at hresult'
    cases hresult'
    exact hrest'
  | error error other =>
    rw [hleft] at hlocal
    obtain ⟨hsuffix, hlocal⟩ := hlocal
    rw [List.suffix_nil.mp hsuffix] at hlocal
    obtain ⟨_, _, hresult'⟩ := hlocal [] hfork
    rw [hresult] at hresult'
    cases hresult'

/-- Steps that do the same from the two cursors. That of the second one only counts if it has the
    next two tokens of the first. -/
theorem LocalAt.of_eq {cursor cursor' : Cursor} {other other' : Parser α}
    (hparser : LocalAt cursor cursor' key parser parser') (hother : other cursor = parser cursor)
    (hother' : cursor.rest.take 2 = cursor'.rest.take 2 → other' cursor' = parser' cursor') :
    LocalAt cursor cursor' key other other' := by
  rw [LocalAt] at hparser ⊢
  rw [hother]
  cases hresult : parser cursor with
  | ok a next =>
    rw [hresult] at hparser
    refine ⟨hparser.1, hparser.2.1, ?_⟩
    intro rest' hfork
    rw [hother' hfork.take_two]
    exact hparser.2.2 rest' hfork
  | error error next =>
    rw [hresult] at hparser
    refine ⟨hparser.1, ?_⟩
    intro rest' hfork
    rw [hother' hfork.take_two]
    exact hparser.2 rest' hfork

theorem local_pure {a a' : α} (hkey : key a = key a') :
    Local bound bound' key (pure a) (pure a') := by
  intro cursor cursor' _ _
  refine ⟨rfl, List.suffix_refl _, ?_⟩
  intro rest' hfork
  exact ⟨a', cursor', rfl, hkey, hfork.eq_of_self, rfl⟩

theorem local_unmet (expectation expectation' : Expectation) :
    Local bound bound' key (unmet expectation) (unmet expectation') := by
  intro cursor cursor' _ _
  exact ⟨List.suffix_refl _, fun _ _ => ⟨_, _, rfl⟩⟩

/-- Two steps, the second of which need only be local where the first one can leave off. -/
theorem Local.bind_of_shorter {inner inner' : Nat} {other : β → δ} {next next' : α → Parser β}
    (hparser : Local bound bound' key parser parser')
    (hinner : bound ≤ inner ∨ bound ≤ inner + 1 ∧ Advances parser)
    (hinner' : bound' ≤ inner' ∨ bound' ≤ inner' + 1 ∧ Advances parser')
    (hnext : ∀ a a', key a = key a' → Local inner inner' other (next a) (next' a')) :
    Local bound bound' other (parser >>= next) (parser' >>= next') := by
  intro cursor cursor' hcursor hcursor'
  have hwithin {bound inner : Nat} {part : Parser α} {first second : Cursor} {a : α}
      (hfirst : first.Within bound) (hpart : part first = .ok a second)
      (hstop : second.stop = first.stop) (hlength : second.rest.length ≤ first.rest.length)
      (hinner : bound ≤ inner ∨ bound ≤ inner + 1 ∧ Advances part) : second.Within inner := by
    refine ⟨hstop ▸ hfirst.stop_kind, ?_⟩
    have hbound := hfirst.length_le
    obtain hinner | ⟨hinner, hadvances⟩ := hinner
    · omega
    · have hshorter := hadvances hfirst.stop_kind hpart
      omega
  have hfirst := hparser cursor cursor' hcursor hcursor'
  cases hresult : parser cursor with
  | error error middle =>
    rw [LocalAt, hresult] at hfirst
    rw [LocalAt, bind_of_eq_error hresult]
    refine ⟨hfirst.1, ?_⟩
    intro rest' hfork
    obtain ⟨error', middle', hparser'⟩ := hfirst.2 rest' hfork
    exact ⟨error', middle', bind_of_eq_error hparser' next'⟩
  | ok a middle =>
    rw [LocalAt, hresult] at hfirst
    obtain ⟨hstop, hmiddle, hfirst⟩ := hfirst
    rw [LocalAt, bind_of_eq_ok hresult]
    have hinside := hwithin hcursor hresult hstop hmiddle.length_le hinner
    -- Where the second step starts on the other side, if both agree up to `rest`.
    have hother {rest rest' : List Token} (hrest : rest <:+ middle.rest)
        (hfork : Fork cursor.rest cursor'.rest rest rest') :
        ∃ a' middle', (parser' >>= next') cursor' = next' a' middle' ∧ key a = key a' ∧
          middle'.Within inner' ∧ middle'.stop = cursor'.stop ∧
          Fork middle.rest middle'.rest rest rest' := by
      obtain ⟨rest'', hbefore, hbehind⟩ := hfork.split hmiddle hrest
      obtain ⟨a', middle', hparser', hkey, rfl, hstop'⟩ := hfirst rest'' hbefore
      obtain ⟨read, _, hread', _⟩ := hbefore
      have hlength : middle'.rest.length ≤ cursor'.rest.length := by simp [hread']
      exact ⟨a', middle', bind_of_eq_ok hparser' next', hkey,
        hwithin hcursor' hparser' hstop' hlength hinner', hstop', hbehind⟩
    have hempty : (cursor'.movedTo []).Within inner' := ⟨hcursor'.stop_kind, Nat.zero_le _⟩
    have hsecond := hnext a a rfl middle _ hinside hempty
    rw [LocalAt] at hsecond
    cases hlast : next a middle with
    | ok b last =>
      rw [hlast] at hsecond
      refine ⟨hsecond.1.trans hstop, hsecond.2.1.trans hmiddle, ?_⟩
      intro rest' hfork
      obtain ⟨a', middle', hbind, hkey, hinside', hstop', hbehind⟩ := hother hsecond.2.1 hfork
      have hthird := hnext a a' hkey middle middle' hinside hinside'
      rw [LocalAt, hlast] at hthird
      obtain ⟨b', last', hlast', hkey', hrest', hstop''⟩ := hthird.2.2 rest' hbehind
      exact ⟨b', last', hbind.trans hlast', hkey', hrest', hstop''.trans hstop'⟩
    | error error last =>
      rw [hlast] at hsecond
      refine ⟨hsecond.1.trans hmiddle, ?_⟩
      intro rest' hfork
      obtain ⟨a', middle', hbind, hkey, hinside', hstop', hbehind⟩ := hother hsecond.1 hfork
      have hthird := hnext a a' hkey middle middle' hinside hinside'
      rw [LocalAt, hlast] at hthird
      obtain ⟨error', last', hlast'⟩ := hthird.2 rest' hbehind
      exact ⟨error', last', hbind.trans hlast'⟩

theorem Local.bind {other : β → δ} {next next' : α → Parser β}
    (hparser : Local bound bound' key parser parser')
    (hnext : ∀ a a', key a = key a' → Local bound bound' other (next a) (next' a')) :
    Local bound bound' other (parser >>= next) (parser' >>= next') :=
  hparser.bind_of_shorter (.inl (Nat.le_refl _)) (.inl (Nat.le_refl _)) hnext

end

/-- A look at the cursor that takes in the next two tokens at most. -/
theorem local_look_bind {key : β → δ} {look : Cursor → α} {next next' : α → Parser β}
    (hlook : ∀ cursor cursor' : Cursor, cursor.stop.kind = .endOfInput →
      cursor'.stop.kind = .endOfInput → cursor.rest.take 2 = cursor'.rest.take 2 →
        look cursor = look cursor')
    (hnext : ∀ a, Local bound bound' key (next a) (next' a)) :
    Local bound bound' key ((do return look (← get)) >>= next)
      ((do return look (← get)) >>= next') := by
  intro cursor cursor' hcursor hcursor'
  refine (hnext (look cursor) cursor cursor' hcursor hcursor').of_eq rfl ?_
  intro htake
  rw [hlook cursor cursor' hcursor.stop_kind hcursor'.stop_kind htake]
  rfl

/-- A bound on what is still to come may differ, as long as it is one. -/
theorem local_remaining_bind {key : β → δ} {next next' : Nat → Parser β}
    (hnext : ∀ length ≤ bound, ∀ length' ≤ bound',
      Local length length' key (next length) (next' length')) :
    Local bound bound' key (remaining >>= next) (remaining >>= next') := by
  intro cursor cursor' hcursor hcursor'
  have hlocal := hnext _ hcursor.length_le _ hcursor'.length_le cursor cursor'
    ⟨hcursor.stop_kind, Nat.le_refl _⟩ ⟨hcursor'.stop_kind, Nat.le_refl _⟩
  exact hlocal.of_eq (bind_of_eq_ok (remaining_apply cursor) next)
    fun _ => bind_of_eq_ok (remaining_apply cursor') next'

theorem head?_eq_of_take_two_eq {input input' : List Token} (htake : input.take 2 = input'.take 2) :
    input.head? = input'.head? := by
  have hhead := congrArg List.head? htake
  rwa [List.head?_take, List.head?_take, if_neg (by decide), if_neg (by decide)] at hhead

theorem local_sees_bind {key : β → δ} {kind : Token.Kind} {next next' : Bool → Parser β}
    (hnext : ∀ seen, Local bound bound' key (next seen) (next' seen)) :
    Local bound bound' key (sees kind >>= next) (sees kind >>= next') := by
  refine local_look_bind ?_ hnext
  intro cursor cursor' _ _ htake
  rw [head?_eq_of_take_two_eq htake]

/-- What is done behind a token that both sides read. -/
theorem LocalAt.behind {key : α → γ} {cursor cursor' : Cursor} {token : Token} {rest : List Token}
    {parser parser' other other' : Parser α} (hrest : cursor.rest = token :: rest)
    (hparser : ∀ next : Cursor, next.Within (bound' - 1) →
      LocalAt (cursor.movedTo rest) next key parser parser') (hcursor' : cursor'.Within bound')
    (hother : other cursor = parser (cursor.movedTo rest))
    (hother' : ∀ {rest'}, cursor'.rest = token :: rest' →
      other' cursor' = parser' (cursor'.movedTo rest')) :
    LocalAt cursor cursor' key other other' := by
  have hpast : rest <:+ cursor.rest := hrest ▸ List.suffix_cons token rest
  have hfirst := hparser (cursor'.movedTo []) ⟨hcursor'.stop_kind, Nat.zero_le _⟩
  -- The other side has read the token too if both agree up to some later place.
  have hsecond {last last' : List Token} (hlast : last <:+ rest)
      (hfork : Fork cursor.rest cursor'.rest last last') :
      ∃ rest', other' cursor' = parser' (cursor'.movedTo rest') ∧ Fork rest rest' last last' ∧
        LocalAt (cursor.movedTo rest) (cursor'.movedTo rest') key parser parser' := by
    obtain ⟨rest', hbefore, hbehind⟩ := hfork.split hpast hlast
    obtain ⟨read, hread, hread', _⟩ := hbefore
    rw [hrest, ← List.singleton_append] at hread
    obtain rfl := List.append_cancel_right hread
    have hlength := hcursor'.length_le
    rw [hread', List.singleton_append, List.length_cons] at hlength
    exact ⟨rest', hother' hread', hbehind,
      hparser _ ⟨hcursor'.stop_kind, Nat.le_sub_of_add_le hlength⟩⟩
  rw [LocalAt] at hfirst ⊢
  rw [hother]
  cases hresult : parser (cursor.movedTo rest) with
  | ok a next =>
    rw [hresult] at hfirst
    refine ⟨hfirst.1, hfirst.2.1.trans hpast, ?_⟩
    intro last' hfork
    obtain ⟨rest', hstep, hbehind, hlocal⟩ := hsecond hfirst.2.1 hfork
    rw [LocalAt, hresult] at hlocal
    rw [hstep]
    exact hlocal.2.2 last' hbehind
  | error error next =>
    rw [hresult] at hfirst
    refine ⟨hfirst.1.trans hpast, ?_⟩
    intro last' hfork
    obtain ⟨rest', hstep, hbehind, hlocal⟩ := hsecond hfirst.1 hfork
    rw [LocalAt, hresult] at hlocal
    rw [hstep]
    exact hlocal.2 last' hbehind

/-- A token that both sides read, and then refuse. -/
theorem LocalAt.refuse {key : α → γ} {cursor cursor' : Cursor} {token : Token} {rest : List Token}
    {fault : SyntaxFault} {parser parser' : Parser α} (hrest : cursor.rest = token :: rest)
    (hparser : parser cursor = refuse token fault (cursor.movedTo rest))
    (hparser' : ∀ {rest'}, cursor'.rest = token :: rest' →
      parser' cursor' = refuse token fault (cursor'.movedTo rest')) :
    LocalAt cursor cursor' key parser parser' := by
  rw [LocalAt, hparser]
  refine ⟨?_, ?_⟩
  · rw [hrest]
    cases fault with
    | expected => exact List.suffix_cons token rest
    | _ => exact List.suffix_refl _
  · intro rest' hfork
    have hhead := head?_eq_of_take_two_eq hfork.take_two
    rw [hrest, List.head?_cons] at hhead
    obtain ⟨tail', htail'⟩ := List.head?_eq_some_iff.mp hhead.symm
    exact ⟨_, _, hparser' htail'⟩

/-- The two steps refuse the same token that has been read. -/
def Refuse (token : Token) (parser parser' : Parser α) : Prop :=
  ∃ fault, parser = refuse token fault ∧ parser' = refuse token fault

/-- There is a use for the next token, or there is none. -/
theorem exists_selected (select : Token → Option α) (cursor : Cursor) :
    (∀ token ∈ cursor.rest.head?, select token = none) ∨
      ∃ token rest a, cursor.rest = token :: rest ∧ select token = some a := by
  cases hrest : cursor.rest with
  | nil => exact .inl nofun
  | cons token rest =>
    cases hselect : select token with
    | none => exact .inl (by simpa using hselect)
    | some a => exact .inr ⟨token, rest, a, rfl, hselect⟩

/-- A token that may be read, and then what follows it. The token itself may be refused later. -/
theorem local_takeIf_bind {key : β → δ} {select : Token → Option α}
    {next next' : Option α → Parser β} (hnone : Local bound bound' key (next none) (next' none))
    (hsome : ∀ token a, select token = some a →
      Local (bound - 1) (bound' - 1) key (next (some a)) (next' (some a)) ∨
        Refuse token (next (some a)) (next' (some a))) :
    Local bound bound' key (takeIf select >>= next) (takeIf select >>= next') := by
  intro cursor cursor' hcursor hcursor'
  obtain hleft | ⟨token, rest, a, hrest, hselect⟩ := exists_selected select cursor
  · refine (hnone cursor cursor' hcursor hcursor').of_eq
      (bind_of_eq_ok (takeIf_of_eq_none hleft) next) ?_
    intro htake
    have hleft' : ∀ token ∈ cursor'.rest.head?, select token = none := by
      rwa [← head?_eq_of_take_two_eq htake]
    exact bind_of_eq_ok (takeIf_of_eq_none hleft') next'
  · have htaken := bind_of_eq_ok (takeIf_of_eq_some hrest hselect) next
    have htaken' {rest' : List Token} (hrest' : cursor'.rest = token :: rest') :=
      bind_of_eq_ok (takeIf_of_eq_some hrest' hselect) next'
    have hlength := hcursor.length_le
    rw [hrest, List.length_cons] at hlength
    obtain hinside | ⟨fault, hrefuse, hrefuse'⟩ := hsome token a hselect
    · refine LocalAt.behind hrest (fun cursor'' hcursor'' => ?_) hcursor' htaken htaken'
      exact hinside _ cursor'' ⟨hcursor.stop_kind, Nat.le_sub_of_add_le hlength⟩ hcursor''
    · rw [hrefuse] at htaken
      rw [hrefuse'] at htaken'
      exact LocalAt.refuse hrest htaken htaken'

section

variable {key : β → δ} {kind : Token.Kind}

theorem local_accept_bind {next next' : Option Token → Parser β}
    (hnone : Local bound bound' key (next none) (next' none))
    (hsome : ∀ token, Local bound bound' key (next (some token)) (next' (some token))) :
    Local bound bound' key (accept kind >>= next) (accept kind >>= next') := by
  refine local_takeIf_bind hnone fun token found hselect => .inl ?_
  exact (hsome found).mono (Nat.sub_le _ _) (Nat.sub_le _ _)

/-- A token that has to come next, and what is read behind it. -/
theorem local_expect_bind {expectation expectation' : Expectation} {next next' : Token → Parser β}
    (hnext : ∀ token, Local bound bound' key (next token) (next' token) ∨
      Refuse token (next token) (next' token)) :
    Local bound bound' key (expect kind expectation >>= next)
      (expect kind expectation' >>= next') := by
  simp only [expect, bind_assoc]
  refine local_takeIf_bind ?_ ?_
  · intro cursor cursor' _ _
    exact ⟨List.suffix_refl _, fun _ _ => ⟨_, _, rfl⟩⟩
  · intro token found hselect
    split at hselect <;> cases hselect
    obtain hlocal | hrefuse := hnext token
    · exact .inl (hlocal.mono (Nat.sub_le _ _) (Nat.sub_le _ _))
    · exact .inr hrefuse

theorem local_expect_then {expectation expectation' : Expectation} {next next' : Parser β}
    (hnext : Local bound bound' key next next') :
    Local bound bound' key (expect kind expectation >>= fun _ => next)
      (expect kind expectation' >>= fun _ => next') :=
  local_expect_bind fun _ => .inl hnext

theorem Local.ite {condition : Prop} [Decidable condition] {first first' second second' : Parser β}
    (hfirst : Local bound bound' key first first')
    (hsecond : Local bound bound' key second second') :
    Local bound bound' key (if condition then first else second)
      (if condition then first' else second') := by
  split
  · exact hfirst
  · exact hsecond

end

theorem blind_spanFrom (node node' : Span → β) (first first' : Span) :
    Blind bound bound' (do return node (← spanFrom first))
      (do return node' (← spanFrom first')) := by
  intro cursor cursor' hcursor hcursor'
  have hpure : Blind bound bound' (pure (node (first.through cursor.lastSpan)))
      (pure (node' (first'.through cursor'.lastSpan))) := local_pure rfl
  exact (hpure cursor cursor' hcursor hcursor').of_eq rfl fun _ => rfl

/-- A node made of what a step reads. -/
theorem Local.node {key : α → γ} {parser parser' : Parser α}
    (hparser : Local bound bound' key parser parser') (node node' : α → Span → β)
    (first first' : Span) :
    Blind bound bound' (do let a ← parser; return node a (← spanFrom first))
      (do let a ← parser'; return node' a (← spanFrom first')) :=
  hparser.bind fun _ _ _ => blind_spanFrom _ _ first first'

/-- Steps that repeat something at most `length` times. This is often enough where so few tokens
    are left, and with no token left the number does not matter. -/
theorem local_loops {ι : Type} {key : α → γ} {parser parser' : ι → Nat → Parser α}
    (hbase : ∀ i, Local 0 0 key (parser i 0) (parser' i 0))
    (hzero : ∀ i, ∀ cursor : Cursor, cursor.Within 0 → parser i 0 cursor = parser i 1 cursor)
    (hzero' : ∀ i, ∀ cursor : Cursor, cursor.Within 0 → parser' i 0 cursor = parser' i 1 cursor)
    (hstep : ∀ length length',
      (∀ i, Local (min length bound) (min length' bound') key (parser i length) (parser' i length')) →
        ∀ i, Local (min (length + 1) bound) (min (length' + 1) bound') key (parser i (length + 1))
          (parser' i (length' + 1)))
    (length length' : Nat) (i : ι) :
    Local (min length bound) (min length' bound') key (parser i length) (parser' i length') := by
  have hone {cursor : Cursor} {bound : Nat} (hcursor : cursor.Within 0) :
      cursor.Within (min (0 + 1) bound) := hcursor.mono (Nat.zero_le _)
  induction length generalizing length' i with
  | zero =>
    induction length' generalizing i with
    | zero => exact (hbase i).mono (Nat.min_le_left _ _) (Nat.min_le_left _ _)
    | succ length' ih =>
      intro cursor cursor' hcursor hcursor'
      have hnone := hcursor.mono (Nat.min_le_left _ _)
      exact (hstep 0 length' ih i cursor cursor' (hone hnone) hcursor').of_eq (hzero i cursor hnone)
        fun _ => rfl
  | succ length ih =>
    cases length' with
    | zero =>
      intro cursor cursor' hcursor hcursor'
      have hnone := hcursor'.mono (Nat.min_le_left _ _)
      exact (hstep length 0 (ih 0) i cursor cursor' hcursor (hone hnone)).of_eq rfl
        fun _ => hzero' i cursor' hnone
    | succ length' => exact hstep length length' (ih length') i

theorem local_loop {key : α → γ} {parser parser' : Nat → Parser α}
    (hbase : Local 0 0 key (parser 0) (parser' 0))
    (hzero : ∀ cursor : Cursor, cursor.Within 0 → parser 0 cursor = parser 1 cursor)
    (hzero' : ∀ cursor : Cursor, cursor.Within 0 → parser' 0 cursor = parser' 1 cursor)
    (hstep : ∀ length length',
      Local (min length bound) (min length' bound') key (parser length) (parser' length') →
        Local (min (length + 1) bound) (min (length' + 1) bound') key (parser (length + 1))
          (parser' (length' + 1)))
    (length length' : Nat) :
    Local (min length bound) (min length' bound') key (parser length) (parser' length') :=
  local_loops (fun (_ : Unit) => hbase) (fun _ => hzero) (fun _ => hzero')
    (fun length length' ih _ => hstep length length' (ih ())) length length' ()

end Parser
end KawaiiLang
