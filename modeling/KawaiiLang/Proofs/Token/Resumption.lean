import KawaiiLang.Proofs.Token.LineBreak

namespace KawaiiLang

open Lexeme (Cuts cut cut_text_append_rest)

theorem Position.ofOffset_add {source : String} {offset : Nat} {read : List Char}
    (hread : read <+: source.toList.drop offset) :
    ofOffset source (offset + read.length) = (ofOffset source offset).after read := by
  rw [ofOffset, List.take_add, ← List.prefix_iff_eq_take.mp hread, after_append]
  rfl

/-- The mark of a part of `source` that begins at `offset`, seen in the whole of it. -/
def Mark.within (source : String) (offset : Nat) (m : Mark) : Mark :=
  ⟨m.offset + offset, .ofOffset source (m.offset + offset)⟩

/-- The token of a part of `source` that begins at `offset`, seen in the whole of it. -/
def Token.within (source : String) (offset : Nat) (token : Token) : Token :=
  { token with
    span := token.span.below offset
    position := .ofOffset source (token.span.start + offset) }

/-- The error in a part of `source` that begins at `offset`, seen in the whole of it. -/
def LexError.within (source : String) (offset : Nat) (error : LexError) : LexError :=
  { error with
    span := error.span.below offset
    position := .ofOffset source (error.span.start + offset) }

namespace Shift

/-- A text that is the part of `source` which begins at `offset`. -/
def into (source : String) (offset : Nat) : Shift where
  mark := .within source offset
  token := .within source offset
  error := .within source offset
  token_tokenAt lexeme m kind literal := by
    simp [Lexeme.tokenAt, Token.within, Span.below, Mark.within, Nat.add_right_comm]
  token_endAt m := by
    simp [Token.endAt, Token.within, Span.below, Span.single, Mark.within, Nat.add_right_comm]
  error_at fault m length := by
    simp [LexError.within, Span.below, Mark.within, Nat.add_right_comm]

theorem follows_into {source : String} {offset : Nat} {m : Mark} {text : List Char}
    (hpart : text <+: source.toList.drop (m.offset + offset)) :
    (into source offset).Follows m text := by
  intro read hread
  have hposition := Position.ofOffset_add (hread.trans hpart)
  simp only [into, Mark.within, Mark.after, Nat.add_right_comm _ read.length, hposition]

end Shift

namespace Token

/-- The words lie in the text one behind the other, each of them where its span says. -/
structure InOrder (text : List Char) (words : List Token) : Prop where
  inside : ∀ word ∈ words, word.span.start < word.span.stop ∧ word.span.stop ≤ text.length
  lexeme : ∀ word ∈ words, word.lexeme.toList =
    (text.drop word.span.start).take (word.span.stop - word.span.start)
  apart : words.Pairwise fun first second => first.span.stop ≤ second.span.start

theorem Tiling.inOrder {text : List Char} {words : List Token} (htiling : Tiling text words) :
    InOrder text words :=
  ⟨htiling.inside, htiling.lexeme, htiling.apart⟩

theorem InOrder.append {text : List Char} {first second : List Token} (hfirst : InOrder text first)
    (hsecond : InOrder text second)
    (hapart : ∀ word ∈ first, ∀ other ∈ second, word.span.stop ≤ other.span.start) :
    InOrder text (first ++ second) where
  inside := List.forall_mem_append.mpr ⟨hfirst.inside, hsecond.inside⟩
  lexeme := List.forall_mem_append.mpr ⟨hfirst.lexeme, hsecond.lexeme⟩
  apart := List.pairwise_append.mpr ⟨hfirst.apart, hsecond.apart, hapart⟩

/-- Words that are in order in a part of `source` are so in the whole of it. -/
theorem InOrder.within {source : String} {offset : Nat} {part : List Char} {words : List Token}
    (hwords : InOrder part words) (hpart : part <+: source.toList.drop offset) :
    InOrder source.toList (words.map (·.within source offset)) where
  inside := by
    refine List.forall_mem_map.mpr fun word hword => ?_
    obtain ⟨hlt, hle⟩ := hwords.inside word hword
    have hlength := hpart.length_le
    rw [List.length_drop] at hlength
    simp only [Token.within, Span.below]
    omega
  lexeme := by
    refine List.forall_mem_map.mpr fun word hword => ?_
    obtain ⟨hlt, hle⟩ := hwords.inside word hword
    obtain ⟨more, hmore⟩ := hpart
    simp only [Token.within, Span.below, Nat.add_sub_add_right]
    rw [Nat.add_comm, ← List.drop_drop, ← hmore, List.drop_append_of_le_length (by omega),
      List.take_append_of_le_length (by rw [List.length_drop]; omega)]
    exact hwords.lexeme word hword
  apart := hwords.apart.map _ fun first second hapart => Nat.add_le_add_right hapart offset

end Token

namespace Lexer

theorem eq_text_append {c : Char} {cs front rest : List Char}
    (hrest : (cut c cs).rest = front ++ rest) : c :: cs = (cut c cs).text ++ front ++ rest := by
  rw [List.append_assoc, ← hrest, cut_text_append_rest]

/-- A scan makes the same of the text that it goes through if nothing comes behind that. -/
theorem exists_read (lexer : Lexer) :
    ∃ read, lexer.rest = read ++ lexer.scan.2.rest ∧ lexer.scan.2.mark = lexer.mark.after read ∧
      scan { lexer with rest := read } = (lexer.scan.1, { lexer.scan.2 with rest := [] }) := by
  fun_induction scan lexer with
  | case1 mark pending => exact ⟨[], rfl, rfl, scan_nil mark pending⟩
  | case2 c cs mark pending lexeme hfound ih =>
    obtain ⟨read, hrest, hmark, hscan⟩ := ih
    obtain ⟨others, htext, hcut⟩ := Lexeme.exists_cut_of_rest hrest
    refine ⟨lexeme.text ++ read, eq_text_append hrest, hmark.trans (Mark.after_append ..).symm, ?_⟩
    rw [scan_of_blank htext (by rw [hcut]; exact hfound), hcut]
    exact hscan
  | case3 c cs mark pending lexeme kind literal hfound ih =>
    obtain ⟨read, hrest, hmark, hscan⟩ := ih
    obtain ⟨others, htext, hcut⟩ := Lexeme.exists_cut_of_rest hrest
    refine ⟨lexeme.text ++ read, eq_text_append hrest, hmark.trans (Mark.after_append ..).symm, ?_⟩
    rw [scan_of_token htext (by rw [hcut]; exact hfound), hcut]
    exact hscan
  | case4 c cs mark pending lexeme fault hfound =>
    have hrest : lexeme.rest = [] ++ lexeme.rest := rfl
    obtain ⟨others, htext, hcut⟩ := Lexeme.exists_cut_of_rest hrest
    refine ⟨lexeme.text ++ [], eq_text_append hrest, by rw [List.append_nil]; rfl, ?_⟩
    rw [scan_of_fault htext (by rw [hcut]; exact hfound), hcut]
    rfl

/-- A scan that ends in an error has completed the tokens in front of the text at fault, and stops
    behind that text. -/
theorem exists_front (lexer : Lexer) {error : LexError} (hscan : lexer.scan.1 = .error error) :
    ∃ front words c cs, lexer.rest = front ++ c :: cs ∧ Cuts lexer.mark front words ∧
      lexer.scan.2.pending.toList = lexer.pending.toList ++ words ∧
      error.span.stop = lexer.scan.2.mark.offset := by
  fun_induction scan lexer with
  | case1 => cases hscan
  | case2 c cs mark pending lexeme hfound ih =>
    obtain ⟨front, words, d, ds, hrest, hcuts, hpending, hstop⟩ := ih hscan
    obtain ⟨others, htext, hcut⟩ := Lexeme.exists_cut_of_rest hrest
    refine ⟨lexeme.text ++ front, words, d, ds, eq_text_append hrest, ?_, hpending, hstop⟩
    rw [htext]
    exact .blank (by rw [hcut]; exact hfound) (by rw [hcut]; exact hcuts)
  | case3 c cs mark pending lexeme kind literal hfound ih =>
    obtain ⟨front, words, d, ds, hrest, hcuts, hpending, hstop⟩ := ih hscan
    obtain ⟨others, htext, hcut⟩ := Lexeme.exists_cut_of_rest hrest
    refine ⟨lexeme.text ++ front, lexeme.tokenAt mark kind literal :: words, d, ds,
      eq_text_append hrest, ?_, ?_, hstop⟩
    · rw [show (cut c cs).found = _ from hfound] at hcut
      rw [htext]
      exact .of_cut hcut hcuts
    · rw [hpending, push, Array.toList_push, List.append_assoc]
      rfl
  | case4 c cs mark pending lexeme fault hfound =>
    cases hscan
    exact ⟨[], [], c, cs, rfl, .nil mark, by simp [skip], rfl⟩

/-- A scan that succeeds reads the text to its end, and leaves no token waiting. -/
theorem scan_snd_of_eq_ok {lexer : Lexer} {tokens : List Token}
    (hscan : lexer.scan.1 = .ok tokens) : lexer.scan.2 = ⟨[], lexer.mark.after lexer.rest, #[]⟩ := by
  fun_induction scan lexer with
  | case1 => rfl
  | case2 c cs mark pending lexeme hfound ih
  | case3 c cs mark pending lexeme kind literal hfound ih =>
    rw [ih hscan, ← cut_text_append_rest c cs, Mark.after_append]
    rfl
  | case4 => cases hscan

/-- The lexer of `source` after so many scans, of which any may have ended in an error. -/
def afterScans (source : String) : Nat → Lexer
  | 0 => ofSource source
  | scans + 1 => (afterScans source scans).scan.2

/-- How many characters of `source` have been read after so many scans. -/
def reached (source : String) (scans : Nat) : Nat :=
  (afterScans source scans).mark.offset

/-- The text that is read by the scan which comes after so many others. -/
def stretch (source : String) (scans : Nat) : String :=
  String.ofList ((source.toList.drop (reached source scans)).take
    (reached source (scans + 1) - reached source scans))

/-- The tokens that a new lexer completes in a text, up to the first error in it if there is
    one. -/
def completed (text : String) : List Token :=
  match (ofSource text).scan with
  | (.ok tokens, _) => tokens.dropLast
  | (.error _, lexer) => lexer.pending.toList

/-- In a text without an error these are all tokens but the end mark. -/
theorem completed_of_eq_ok {text : String} {tokens : List Token}
    (htokens : Token.ofSource text = .ok tokens) :
    Cuts .start text.toList (completed text) ∧
      tokens = completed text ++ [.endAt (Mark.start.after text.toList)] := by
  obtain ⟨words, hcuts, rfl⟩ := Token.ofSource_eq_ok htokens
  have hcompleted : completed text = words := by
    rw [completed]
    cases hscan : (ofSource text).scan with
    | mk result next =>
      obtain rfl : result = _ := (congrArg Prod.fst hscan).symm.trans htokens
      exact List.dropLast_concat
  rw [hcompleted]
  exact ⟨hcuts, rfl⟩

/-- The tokens that are completed in a text are all those of a front of it. -/
theorem exists_cuts_completed (text : String) :
    ∃ front, front <+: text.toList ∧ Cuts .start front (completed text) := by
  cases hscan : (ofSource text).scan with
  | mk result next =>
    have hresult := congrArg Prod.fst hscan
    cases result with
    | ok tokens =>
      obtain ⟨hcuts, -⟩ := completed_of_eq_ok hresult
      exact ⟨_, List.prefix_rfl, hcuts⟩
    | error error =>
      obtain ⟨front, words, c, cs, hrest, hcuts, hpending, -⟩ := exists_front _ hresult
      rw [hscan] at hpending
      have hcompleted : completed text = words := by
        rw [completed, hscan]
        exact hpending
      exact ⟨front, ⟨_, hrest.symm⟩, hcompleted ▸ hcuts⟩

/-- The lexer has read `source` up to its mark. -/
structure Stands (source : String) (lexer : Lexer) : Prop where
  rest : lexer.rest = source.toList.drop lexer.mark.offset
  position : lexer.mark.position = .ofOffset source lexer.mark.offset
  le : lexer.mark.offset ≤ source.length

section Stands

variable {source : String} {lexer : Lexer}

theorem Stands.scan (hstands : Stands source lexer) : Stands source lexer.scan.2 := by
  obtain ⟨read, hrest, hmark, -⟩ := lexer.exists_read
  have hread : read <+: source.toList.drop lexer.mark.offset := ⟨_, hrest.symm.trans hstands.rest⟩
  refine ⟨?_, ?_, ?_⟩
  · rw [hmark, Mark.after, ← List.drop_drop, ← hstands.rest, hrest, List.drop_left]
  · rw [hmark, Mark.after, hstands.position]
    exact (Position.ofOffset_add hread).symm
  · have hlength := hread.length_le
    have hle := hstands.le
    rw [List.length_drop, String.length_toList] at hlength
    rw [hmark, Mark.after]
    dsimp only
    omega

theorem Stands.after_rest (hstands : Stands source lexer) :
    lexer.mark.after lexer.rest = Mark.start.after source.toList := by
  have hmark : lexer.mark = Mark.start.after (source.toList.take lexer.mark.offset) := by
    have hlength : (source.toList.take lexer.mark.offset).length = lexer.mark.offset := by
      rw [List.length_take, String.length_toList, Nat.min_eq_left hstands.le]
    rw [Mark.after, hlength, Mark.start, Nat.zero_add]
    exact congrArg (Mark.mk _) hstands.position
  conv => lhs; rw [hmark]
  rw [hstands.rest, ← Mark.after_append, List.take_append_drop]

/-- A scan makes of the text that it goes through what a new lexer makes of it alone. -/
theorem Stands.exists_own (hstands : Stands source lexer) :
    ∃ read, lexer.rest = read ++ lexer.scan.2.rest ∧ lexer.scan.2.mark = lexer.mark.after read ∧
      (lexer.scan.1, { lexer.scan.2 with rest := [] }) =
        match (ofSource (String.ofList read)).scan with
        | (.error own, next) =>
          (.error (own.within source lexer.mark.offset),
            next.shifted (.into source lexer.mark.offset) lexer.pending.toList)
        | (.ok own, next) =>
          (.ok (lexer.pending.toList ++ own.map (·.within source lexer.mark.offset)),
            next.shifted (.into source lexer.mark.offset) []) := by
  obtain ⟨read, hrest, hmark, hscan⟩ := lexer.exists_read
  refine ⟨read, hrest, hmark, hscan.symm.trans ?_⟩
  have hread : read <+: source.toList.drop lexer.mark.offset := ⟨_, hrest.symm.trans hstands.rest⟩
  have hpart : (ofSource (String.ofList read)).rest <+:
      source.toList.drop ((ofSource (String.ofList read)).mark.offset + lexer.mark.offset) := by
    simpa [ofSource, Mark.start] using hread
  have hself : (ofSource (String.ofList read)).shifted (.into source lexer.mark.offset)
      lexer.pending.toList = { lexer with rest := read } := by
    simp [ofSource, shifted, Shift.into, Mark.within, Mark.start, ← hstands.position]
  rw [← hself]
  exact scan_shifted _ (Shift.follows_into hpart) _

theorem stands_ofSource (source : String) : Stands source (ofSource source) :=
  ⟨rfl, rfl, Nat.zero_le _⟩

theorem stands_afterScans (source : String) (scans : Nat) :
    Stands source (afterScans source scans) := by
  induction scans with
  | zero => exact stands_ofSource source
  | succ scans ih => exact ih.scan

end Stands

section AfterScans

variable {source : String} {scans : Nat}

/-- The stretch that a scan reads is all that it looks at. -/
theorem scan_stretch (source : String) (scans : Nat) :
    reached source (scans + 1) = reached source scans + (stretch source scans).length ∧
      ((afterScans source scans).scan.1, { afterScans source (scans + 1) with rest := [] }) =
        match (ofSource (stretch source scans)).scan with
        | (.error own, next) =>
          (.error (own.within source (reached source scans)),
            next.shifted (.into source (reached source scans))
              (afterScans source scans).pending.toList)
        | (.ok own, next) =>
          (.ok ((afterScans source scans).pending.toList ++
              own.map (·.within source (reached source scans))),
            next.shifted (.into source (reached source scans)) []) := by
  have hstands := stands_afterScans source scans
  obtain ⟨read, hrest, hmark, hscan⟩ := hstands.exists_own
  have hreached : reached source (scans + 1) = reached source scans + read.length :=
    congrArg Mark.offset hmark
  have hstretch : stretch source scans = String.ofList read := by
    rw [stretch, hreached, Nat.add_sub_cancel_left]
    refine congrArg String.ofList ?_
    rw [reached, ← hstands.rest, hrest, List.take_left]
  rw [hstretch]
  exact ⟨by rw [hreached, String.length_ofList], hscan⟩

theorem reached_le (source : String) (scans : Nat) : reached source scans ≤ source.length :=
  (stands_afterScans source scans).le

/-- A scan that fails hands out the error of its stretch, and the tokens that the stretch has in
    front of it wait behind those that waited before. -/
theorem error_afterScans {error : LexError}
    (hscan : (afterScans source scans).scan.1 = .error error) :
    (∃ own, Token.ofSource (stretch source scans) = .error own ∧
        error = own.within source (reached source scans)) ∧
      (afterScans source (scans + 1)).pending.toList = (afterScans source scans).pending.toList ++
        (completed (stretch source scans)).map (·.within source (reached source scans)) := by
  obtain ⟨-, hown⟩ := scan_stretch source scans
  rw [hscan] at hown
  cases hstretch : (ofSource (stretch source scans)).scan with
  | mk result next =>
    rw [hstretch] at hown
    cases result with
    | ok own => cases (Prod.mk.inj hown).1
    | error own =>
      obtain ⟨herror, hnext⟩ := Prod.mk.inj hown
      refine ⟨⟨own, congrArg Prod.fst hstretch, Except.error.inj herror⟩, ?_⟩
      have hpending := congrArg Lexer.pending hnext
      rw [completed, hstretch]
      exact congrArg Array.toList hpending

/-- A scan that succeeds hands out the tokens of its stretch behind those that waited. -/
theorem ok_afterScans {tokens : List Token}
    (hscan : (afterScans source scans).scan.1 = .ok tokens) :
    tokens = (afterScans source scans).pending.toList ++
        (completed (stretch source scans)).map (·.within source (reached source scans)) ++
          [.endAt (afterScans source (scans + 1)).mark] := by
  obtain ⟨-, hown⟩ := scan_stretch source scans
  rw [hscan] at hown
  cases hstretch : (ofSource (stretch source scans)).scan with
  | mk result next =>
    rw [hstretch] at hown
    cases result with
    | error own => cases (Prod.mk.inj hown).1
    | ok own =>
      obtain ⟨htokens, hnext⟩ := Prod.mk.inj hown
      have hresult : Token.ofSource (stretch source scans) = .ok own := congrArg Prod.fst hstretch
      obtain ⟨-, hwords⟩ := completed_of_eq_ok hresult
      have hstop : next.mark = Mark.start.after (stretch source scans).toList := by
        rw [show next = _ from (congrArg Prod.snd hstretch).symm, scan_snd_of_eq_ok hresult]
        rfl
      have hmark : (afterScans source (scans + 1)).mark = next.mark.within source _ :=
        congrArg Lexer.mark hnext
      have hend := (Shift.into source (reached source scans)).token_endAt next.mark
      rw [Except.ok.inj htokens, hwords, List.map_append, ← List.append_assoc, hmark, ← hstop]
      exact congrArg (_ ++ [·]) hend

/-- A scan that fails reads at least one character. -/
theorem reached_lt_of_error {error : LexError}
    (hscan : (afterScans source scans).scan.1 = .error error) :
    reached source scans < reached source (scans + 1) := by
  obtain ⟨⟨own, hown, -⟩, -⟩ := error_afterScans hscan
  obtain ⟨hreached, -⟩ := scan_stretch source scans
  have hlength : (stretch source scans).length ≠ 0 := by
    intro hempty
    rw [String.length_eq_zero_iff.mp hempty, Token.ofSource] at hown
    cases hown.symm.trans (congrArg Prod.fst (scan_nil Mark.start #[]))
  omega

/-- The tokens that new lexers complete in the stretches of so many scans, seen in the whole of
    `source`. -/
def gathered (source : String) (scans : Nat) : List Token :=
  (List.range scans).flatMap fun earlier =>
    (completed (stretch source earlier)).map (·.within source (reached source earlier))

theorem gathered_succ (source : String) (scans : Nat) :
    gathered source (scans + 1) = gathered source scans ++
      (completed (stretch source scans)).map (·.within source (reached source scans)) := by
  simp [gathered, List.range_succ]

/-- While all scans fail, the tokens of their stretches wait. -/
theorem pending_afterScans
    (hfailures : ∀ earlier < scans, ∃ error, (afterScans source earlier).scan.1 = .error error) :
    (afterScans source scans).pending.toList = gathered source scans := by
  induction scans with
  | zero => rfl
  | succ scans ih =>
    obtain ⟨error, hscan⟩ := hfailures scans (Nat.lt_succ_self scans)
    rw [(error_afterScans hscan).2, gathered_succ,
      ih fun earlier hearlier => hfailures earlier (Nat.lt_succ_of_lt hearlier)]

theorem le_reached
    (hfailures : ∀ earlier < scans, ∃ error, (afterScans source earlier).scan.1 = .error error) :
    scans ≤ reached source scans := by
  induction scans with
  | zero => exact Nat.zero_le _
  | succ scans ih =>
    obtain ⟨error, hscan⟩ := hfailures scans (Nat.lt_succ_self scans)
    have hle := ih fun earlier hearlier => hfailures earlier (Nat.lt_succ_of_lt hearlier)
    exact Nat.succ_le_of_lt (Nat.lt_of_le_of_lt hle (reached_lt_of_error hscan))

/-- As each failure reads on, there are no more of them than characters. -/
theorem exists_first_success (source : String) :
    ∃ failures ≤ source.length,
      (∀ scans < failures, ∃ error, (afterScans source scans).scan.1 = .error error) ∧
        ∃ tokens, (afterScans source failures).scan.1 = .ok tokens := by
  have hfailed {scans : Nat} (hscan : ¬ ∃ tokens, (afterScans source scans).scan.1 = .ok tokens) :
      ∃ error, (afterScans source scans).scan.1 = .error error := by
    cases hresult : (afterScans source scans).scan.1 with
    | ok tokens => exact absurd ⟨tokens, hresult⟩ hscan
    | error error => exact ⟨error, rfl⟩
  have hsuccess : ∃ scans tokens, (afterScans source scans).scan.1 = .ok tokens := by
    by_contra hnone
    have hle : source.length + 1 ≤ reached source (source.length + 1) :=
      le_reached fun earlier _ => hfailed fun hok => hnone ⟨earlier, hok⟩
    have hlength := reached_le source (source.length + 1)
    omega
  classical
  have hfailures : ∀ scans < Nat.find hsuccess,
      ∃ error, (afterScans source scans).scan.1 = .error error :=
    fun scans hlt => hfailed (Nat.find_min hsuccess hlt)
  exact ⟨Nat.find hsuccess, Nat.le_trans (le_reached hfailures) (reached_le source _), hfailures,
    Nat.find_spec hsuccess⟩

/-- The tokens of earlier stretches lie in front of those of later ones. -/
theorem inOrder_gathered (source : String) (scans : Nat) :
    Token.InOrder source.toList (gathered source scans) ∧
      ∀ word ∈ gathered source scans,
        word.kind ≠ .endOfInput ∧ word.span.stop ≤ reached source scans := by
  induction scans with
  | zero =>
    exact ⟨⟨List.forall_mem_nil _, List.forall_mem_nil _, .nil⟩, List.forall_mem_nil _⟩
  | succ scans ih =>
    obtain ⟨hearlier, hwords⟩ := ih
    obtain ⟨hreached, -⟩ := scan_stretch source scans
    obtain ⟨front, hfront, hcuts⟩ := exists_cuts_completed (stretch source scans)
    have hpart : (stretch source scans).toList <+: source.toList.drop (reached source scans) := by
      rw [stretch, String.toList_ofList]
      exact List.take_prefix _ _
    have horder := hcuts.tiling.inOrder
    have hlength := hfront.length_le
    rw [String.length_toList] at hlength
    rw [gathered_succ]
    refine ⟨hearlier.append (horder.within (hfront.trans hpart)) ?_, ?_⟩
    · intro word hword
      refine List.forall_mem_map.mpr fun other _ => ?_
      exact Nat.le_trans (hwords word hword).2 (Nat.le_add_left _ _)
    · refine List.forall_mem_append.mpr ⟨?_, List.forall_mem_map.mpr ?_⟩ <;> intro word hword
      · obtain ⟨hkind, hstop⟩ := hwords word hword
        exact ⟨hkind, by omega⟩
      · have hkind := hcuts.kind_ne_endOfInput hword
        refine ⟨hkind, ?_⟩
        have hinside := (horder.inside _ hword).2
        simp only [Token.within, Span.below]
        omega

/-- After a success there is nothing left to read, and nothing waits. -/
theorem afterScans_of_success {tokens : List Token}
    (hscan : (afterScans source scans).scan.1 = .ok tokens) (more : Nat) :
    afterScans source (scans + 1 + more) = ⟨[], Mark.start.after source.toList, #[]⟩ := by
  induction more with
  | zero =>
    rw [Nat.add_zero, afterScans, scan_snd_of_eq_ok hscan,
      (stands_afterScans source scans).after_rest]
  | succ more ih =>
    rw [← Nat.add_assoc, afterScans, ih, scan_nil]

end AfterScans

/-- A lexer that goes on after its errors loses and repeats nothing. A scan that fails reads on by
    at least one character, so that one of the first scans succeeds, as many as there are
    characters and one more. It hands out, in the order of the source, what new lexers complete in
    the stretches of text between the places where the scans stopped, and the end mark; the scans
    behind it hand out the end mark alone. -/
theorem resumed_words (source : String) :
    (∀ scans, (afterScans source scans).rest = source.toList.drop (reached source scans)) ∧
    (∀ scans error, (afterScans source scans).scan.1 = .error error →
      reached source scans < reached source (scans + 1) ∧
      error.span.stop = reached source (scans + 1) ∧
      ∃ own, Token.ofSource (stretch source scans) = .error own ∧
        error = own.within source (reached source scans)) ∧
    ∃ failures ≤ source.length,
      (∀ scans < failures, ∃ error, (afterScans source scans).scan.1 = .error error) ∧
      (afterScans source failures).scan.1 = .ok (gathered source (failures + 1) ++
        [.endAt (Mark.start.after source.toList)]) ∧
      Token.InOrder source.toList (gathered source (failures + 1)) ∧
      (∀ word ∈ gathered source (failures + 1), word.kind ≠ .endOfInput) ∧
      ∀ scans > failures,
        (afterScans source scans).scan.1 = .ok [.endAt (Mark.start.after source.toList)] := by
  refine ⟨fun scans => (stands_afterScans source scans).rest, ?_, ?_⟩
  · intro scans error hscan
    obtain ⟨_, _, _, _, _, _, _, hstop⟩ := exists_front _ hscan
    exact ⟨reached_lt_of_error hscan, hstop, (error_afterScans hscan).1⟩
  · obtain ⟨failures, hle, hfailures, tokens, hscan⟩ := exists_first_success source
    obtain ⟨horder, hwords⟩ := inOrder_gathered source (failures + 1)
    refine ⟨failures, hle, hfailures, ?_, horder, fun word hword => (hwords word hword).1, ?_⟩
    · have hmark : (afterScans source (failures + 1)).mark = Mark.start.after source.toList :=
        congrArg Lexer.mark (afterScans_of_success hscan 0)
      rw [hscan, ok_afterScans hscan, pending_afterScans hfailures, gathered_succ, hmark]
    · intro scans hlt
      obtain ⟨more, rfl⟩ := Nat.exists_eq_add_of_lt hlt
      rw [Nat.add_right_comm, afterScans_of_success hscan, scan_nil]
      rfl

-- The sign alone and the open string are the errors, and the tokens around them come together.
example :
    (List.range 4).map (fun scans =>
        (afterScans "x = \"y\nz" scans).scan.1.toOption.map (·.map (·.lexeme))) =
      [none, none, some ["x", "z", ""], some [""]] := by decide +kernel

end Lexer
end KawaiiLang
