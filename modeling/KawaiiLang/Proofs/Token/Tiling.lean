import Mathlib.Data.List.Basic
import KawaiiLang.Proofs.Token.Cuts

namespace KawaiiLang

open Lexeme (Cuts cut cut_cases cut_text_append_rest cut_text_ne_nil separators)

namespace Token

/-- Whether the character number `offset` belongs to the token. -/
def Covers (token : Token) (offset : Nat) : Prop :=
  token.span.start ≤ offset ∧ offset < token.span.stop

/-- Whether the character number `offset` belongs to no string. -/
def OutsideStrings (words : List Token) (offset : Nat) : Prop :=
  ∀ word ∈ words, word.kind = .string → ¬ word.Covers offset

/-- Whether the character number `offset` belongs to a comment: outside of all strings there
    is a number sign, and no line feed from there on. -/
def InComment (text : List Char) (words : List Token) (offset : Nat) : Prop :=
  ∃ opening ≤ offset, text[opening]? = some '#' ∧ OutsideStrings words opening ∧
    ∀ i, opening ≤ i → i ≤ offset → text[i]? ≠ some '\n'

/-- The words lie in the text one behind the other, each of them where its span says, and
    what they leave out is white space and comments. -/
structure Tiling (text : List Char) (words : List Token) : Prop where
  inside : ∀ word ∈ words, word.span.start < word.span.stop ∧ word.span.stop ≤ text.length
  lexeme : ∀ word ∈ words, word.lexeme.toList =
    (text.drop word.span.start).take (word.span.stop - word.span.start)
  apart : words.Pairwise fun first second => first.span.stop ≤ second.span.start
  left_out : ∀ offset c, text[offset]? = some c →
    ((∀ word ∈ words, ¬ word.Covers offset) ↔
      (Lexeme.isBlank c = true ∧ OutsideStrings words offset) ∨ InComment text words offset)

end Token

namespace Lexeme.Cuts

variable {mark : Mark} {text : List Char} {words : List Token}

/-- The word is a token that has been cut off a text, behind all that comes before it. -/
def CutOff (mark : Mark) (text : List Char) (word : Token) : Prop :=
  ∃ before c cs kind literal, text = before ++ c :: cs ∧ (cut c cs).found = .token kind literal ∧
    word = (cut c cs).tokenAt (mark.after before) kind literal

/-- What is cut off the rest of a text is cut off the text. -/
theorem CutOff.of_rest {c : Char} {cs : List Char} {word : Token}
    (hword : CutOff (mark.after (cut c cs).text) (cut c cs).rest word) :
    CutOff mark (c :: cs) word := by
  obtain ⟨before, d, ds, kind, literal, hrest, hfound, rfl⟩ := hword
  refine ⟨(cut c cs).text ++ before, d, ds, kind, literal, ?_, hfound, ?_⟩
  · rw [List.append_assoc, ← hrest, cut_text_append_rest]
  · rw [Mark.after_append]

theorem cutOff_of_mem (hcuts : Cuts mark text words) {word : Token} (hword : word ∈ words) :
    CutOff mark text word := by
  induction hcuts with
  | nil => cases hword
  | blank _ _ ih => exact (ih hword).of_rest
  | token hfound _ ih =>
    obtain rfl | hword := List.mem_cons.mp hword
    · exact ⟨[], _, _, _, _, rfl, hfound, rfl⟩
    · exact (ih hword).of_rest

/-- No token that is cut off a text is an end mark. -/
theorem kind_ne_endOfInput (hcuts : Cuts mark text words) {word : Token} (hword : word ∈ words) :
    word.kind ≠ .endOfInput := by
  obtain ⟨before, c, cs, kind, literal, _, hfound, rfl⟩ := hcuts.cutOff_of_mem hword
  exact (cut_of_token hfound).1

/-- Every token lies behind the place where the text begins. -/
theorem offset_le_start (hcuts : Cuts mark text words) {word : Token} (hword : word ∈ words) :
    mark.offset ≤ word.span.start := by
  obtain ⟨before, c, cs, kind, literal, _, _, rfl⟩ := hcuts.cutOff_of_mem hword
  exact Nat.le_add_right _ _

theorem apart (hcuts : Cuts mark text words) :
    words.Pairwise fun first second => first.span.stop ≤ second.span.start := by
  induction hcuts with
  | nil => exact .nil
  | blank _ _ ih => exact ih
  | token _ hrest ih => exact .cons (fun word hword => hrest.offset_le_start hword) ih

/-- A lexeme behind `before` that has been cut off the text: a token, or else one that no
    token shares a character with. -/
structure Piece (mark : Mark) (text : List Char) (words : List Token) (before : List Char)
    (c : Char) (cs : List Char) : Prop where
  split : text = before ++ c :: cs
  role : ((cut c cs).found = .blank ∧ ∀ word ∈ words, word.span.stop ≤ (mark.after before).offset ∨
      (mark.after before).offset + (cut c cs).text.length ≤ word.span.start) ∨
    ∃ kind literal, (cut c cs).found = .token kind literal ∧
      (cut c cs).tokenAt (mark.after before) kind literal ∈ words

theorem Piece.of_rest {c d : Char} {cs ds before : List Char}
    (hpiece : Piece (mark.after (cut c cs).text) (cut c cs).rest words before d ds)
    (earlier : List Token)
    (hearlier : ∀ word ∈ earlier, word.span.stop ≤ mark.offset + (cut c cs).text.length) :
    Piece mark (c :: cs) (earlier ++ words) ((cut c cs).text ++ before) d ds where
  split := by rw [List.append_assoc, ← hpiece.split, cut_text_append_rest]
  role := by
    rw [Mark.after_append]
    obtain ⟨hblank, hwords⟩ | ⟨kind, literal, hfound, hmem⟩ := hpiece.role
    · refine .inl ⟨hblank, ?_⟩
      intro word hword
      obtain hword | hword := List.mem_append.mp hword
      · exact .inl (Nat.le_trans (hearlier word hword) (Nat.le_add_right _ _))
      · exact hwords word hword
    · exact .inr ⟨kind, literal, hfound, List.mem_append_right _ hmem⟩

theorem lt_after_cut {c : Char} {cs : List Char} {offset : Nat}
    (hstop : offset < mark.offset + (c :: cs).length) :
    offset < (mark.after (cut c cs).text).offset + (cut c cs).rest.length := by
  rwa [← cut_text_append_rest c cs, List.length_append, ← Nat.add_assoc] at hstop

/-- Every character of the text belongs to one of its lexemes. -/
theorem exists_piece (hcuts : Cuts mark text words) {offset : Nat} (hstart : mark.offset ≤ offset)
    (hstop : offset < mark.offset + text.length) :
    ∃ before c cs, Piece mark text words before c cs ∧ (mark.after before).offset ≤ offset ∧
      offset < (mark.after before).offset + (cut c cs).text.length := by
  induction hcuts with
  | nil => exact absurd hstop (Nat.not_lt.mpr hstart)
  | @blank mark c cs words hfound hrest ih =>
    by_cases hinside : offset < mark.offset + (cut c cs).text.length
    · refine ⟨[], c, cs, ⟨rfl, .inl ⟨hfound, ?_⟩⟩, hstart, hinside⟩
      exact fun word hword => .inr (hrest.offset_le_start hword)
    · obtain ⟨before, d, ds, hpiece, hbounds⟩ :=
        ih (Nat.not_lt.mp hinside) (lt_after_cut hstop)
      rw [← Mark.after_append] at hbounds
      exact ⟨_, d, ds, hpiece.of_rest [] nofun, hbounds⟩
  | @token mark c cs kind literal words hfound hrest ih =>
    by_cases hinside : offset < mark.offset + (cut c cs).text.length
    · exact ⟨[], c, cs, ⟨rfl, .inr ⟨kind, literal, hfound, List.mem_cons_self⟩⟩, hstart, hinside⟩
    · obtain ⟨before, d, ds, hpiece, hbounds⟩ :=
        ih (Nat.not_lt.mp hinside) (lt_after_cut hstop)
      rw [← Mark.after_append] at hbounds
      refine ⟨_, d, ds, hpiece.of_rest [_] ?_, hbounds⟩
      exact List.forall_mem_singleton.mpr (Nat.le_refl _)

variable {before cs : List Char} {c x : Char} {i : Nat}

/-- What stands between the ends of a lexeme belongs to it. -/
theorem mem_text_of_getElem? (hstart : before.length ≤ i)
    (hstop : i < before.length + (cut c cs).text.length)
    (hx : (before ++ c :: cs)[i]? = some x) : x ∈ (cut c cs).text := by
  rw [← cut_text_append_rest c cs, List.getElem?_append_right hstart,
    List.getElem?_append_left (by omega)] at hx
  exact List.mem_of_getElem? hx

/-- What stands just behind a lexeme is the first character of the rest. -/
theorem head?_rest (before : List Char) (c : Char) (cs : List Char) :
    (cut c cs).rest.head? = (before ++ c :: cs)[before.length + (cut c cs).text.length]? := by
  rw [List.getElem?_append_right (Nat.le_add_right _ _), Nat.add_sub_cancel_left]
  conv => rhs; rw [← cut_text_append_rest c cs]
  rw [List.getElem?_append_right (Nat.le_refl _), Nat.sub_self, List.head?_eq_getElem?]

/-- The offset of a lexeme is the length of what comes before it. -/
theorem offset_start_after (before : List Char) : (Mark.start.after before).offset = before.length :=
  Nat.zero_add _

theorem covers_tokenAt (before : List Char) (lexeme : Lexeme) (kind : Token.Kind)
    (literal : Option Literal) (i : Nat) :
    (lexeme.tokenAt (Mark.start.after before) kind literal).Covers i ↔
      before.length ≤ i ∧ i < before.length + lexeme.text.length := by
  rw [Token.Covers, tokenAt, offset_start_after]

/-- Only a string has a character in it that would separate tokens elsewhere. -/
theorem kind_eq_string (hcuts : Cuts .start text words) {word : Token} (hword : word ∈ words)
    (hcovers : word.Covers i) (hx : text[i]? = some x) (hseparates : x ∈ separators) :
    word.kind = .string := by
  obtain ⟨before, c, cs, kind, literal, rfl, hfound, rfl⟩ := hcuts.cutOff_of_mem hword
  obtain ⟨hstart, hstop⟩ := (covers_tokenAt before _ kind literal i).mp hcovers
  by_contra hkind
  exact (cut_of_token hfound).2 hkind x (mem_text_of_getElem? hstart hstop hx) hseparates

/-- A character that no token covers is white space, or belongs to a comment. -/
theorem blank_or_inComment (hcuts : Cuts .start text words) (hx : text[i]? = some x)
    (hleft : ∀ word ∈ words, ¬ word.Covers i) :
    isBlank x = true ∨ Token.InComment text words i := by
  obtain ⟨hi, _⟩ := List.getElem?_eq_some_iff.mp hx
  obtain ⟨before, c, cs, ⟨rfl, hrole⟩, hstart, hstop⟩ :=
    hcuts.exists_piece (Nat.zero_le i) (by rwa [Mark.start, Nat.zero_add])
  rw [offset_start_after] at hstart hstop
  obtain ⟨hblank, hapart⟩ | ⟨kind, literal, _, hmem⟩ := hrole
  · rw [offset_start_after] at hapart
    have hxmem := mem_text_of_getElem? hstart hstop hx
    obtain ⟨hc, htext⟩ | ⟨rfl, hline, _⟩ := cut_of_blank hblank
    · rw [htext, List.mem_singleton] at hxmem
      exact .inl (hxmem ▸ hc)
    · refine .inr ⟨before.length, hstart, by simp, ?_, ?_⟩
      · rintro word hword _ ⟨hfirst, hlast⟩
        have hpositive := List.length_pos_iff.mpr (cut_text_ne_nil '#' cs)
        have := hapart word hword
        omega
      · intro j hj hji hfeed
        exact hline (mem_text_of_getElem? hj (by omega) hfeed)
  · exact absurd ((covers_tokenAt before _ kind literal i).mpr ⟨hstart, hstop⟩) (hleft _ hmem)

/-- No token covers a character of a comment. -/
theorem not_covers_of_inComment (hcuts : Cuts .start text words) (hx : text[i]? = some x)
    (hcomment : Token.InComment text words i) {word : Token} (hword : word ∈ words) :
    ¬ word.Covers i := by
  obtain ⟨opening, hopening, hsign, houtside, hline⟩ := hcomment
  obtain ⟨hi, _⟩ := List.getElem?_eq_some_iff.mp hx
  obtain ⟨before, c, cs, ⟨rfl, hrole⟩, hstart, hstop⟩ :=
    hcuts.exists_piece (Nat.zero_le opening) (by rw [Mark.start]; omega)
  rw [offset_start_after] at hstart hstop
  have hsignmem := mem_text_of_getElem? hstart hstop hsign
  obtain ⟨hblank, hapart⟩ | ⟨kind, literal, hfound, hmem⟩ := hrole
  · rw [offset_start_after] at hapart
    obtain ⟨hc, htext⟩ | ⟨rfl, _, hnext⟩ := cut_of_blank hblank
    · rw [htext, List.mem_singleton] at hsignmem
      subst hsignmem
      cases hc
    · -- The comment goes on up to a line feed, and there is none up to `i`.
      have hinside : i < before.length + (cut '#' cs).text.length := by
        by_contra hpast
        have hpast := Nat.not_lt.mp hpast
        obtain ⟨next, hfeed⟩ : ∃ next,
            (before ++ '#' :: cs)[before.length + (cut '#' cs).text.length]? = some next :=
          ⟨_, List.getElem?_eq_getElem (by omega)⟩
        refine hline _ (by omega) hpast ?_
        rw [hfeed, hnext next ((head?_rest before '#' cs).trans hfeed)]
      rintro ⟨hfirst, hlast⟩
      have := hapart word hword
      omega
  · have hcovers := (covers_tokenAt before _ kind literal opening).mpr ⟨hstart, hstop⟩
    have hstring := hcuts.kind_eq_string hmem hcovers hsign (by decide)
    exact absurd hcovers (houtside _ hmem hstring)

/-- The words that a whole text is cut into are a tiling of it. -/
theorem tiling (hcuts : Cuts .start text words) : Token.Tiling text words where
  inside word hword := by
    obtain ⟨before, c, cs, kind, literal, rfl, _, rfl⟩ := hcuts.cutOff_of_mem hword
    have hpositive := List.length_pos_iff.mpr (cut_text_ne_nil c cs)
    have hlength := congrArg List.length (cut_text_append_rest c cs)
    rw [List.length_append] at hlength
    simp only [tokenAt, offset_start_after, List.length_append]
    omega
  lexeme word hword := by
    obtain ⟨before, c, cs, kind, literal, rfl, _, rfl⟩ := hcuts.cutOff_of_mem hword
    simp only [tokenAt, offset_start_after, String.toList_ofList, List.drop_left,
      Nat.add_sub_cancel_left]
    rw [← cut_text_append_rest c cs, List.take_left]
  apart := hcuts.apart
  left_out i x hx := by
    constructor
    · intro hleft
      obtain hblank | hcomment := hcuts.blank_or_inComment hx hleft
      · exact .inl ⟨hblank, fun word hword _ => hleft word hword⟩
      · exact .inr hcomment
    · rintro (⟨hblank, houtside⟩ | hcomment) word hword
      · intro hcovers
        have hseparates : x ∈ separators := by
          simp only [isBlank, Bool.or_eq_true, decide_eq_true_eq] at hblank
          simp only [separators, List.mem_cons]
          grind
        exact houtside word hword (hcuts.kind_eq_string hword hcovers hx hseparates) hcovers
      · exact hcuts.not_covers_of_inComment hx hcomment hword

end Lexeme.Cuts

namespace Token

/-- The tokens of a text are a tiling of it: there is one end mark, just behind the text,
    every other token is what stands at its span, what no token covers is white space and
    comments, and all of them know their places. -/
theorem ofSource_tiling {source : String} {tokens : List Token}
    (htokens : ofSource source = .ok tokens) :
    ∃ words stop, tokens = words ++ [stop] ∧ stop.kind = .endOfInput ∧
      stop.span = .single source.length ∧ (∀ word ∈ words, word.kind ≠ .endOfInput) ∧
      Tiling source.toList words ∧
      ∀ token ∈ tokens, token.position = .ofOffset source token.span.start := by
  obtain ⟨words, hcuts, rfl⟩ := ofSource_eq_ok htokens
  refine ⟨words, _, rfl, rfl, ?_, ?_, hcuts.tiling, ?_⟩
  · rw [endAt, Cuts.offset_start_after, String.length_toList]
  · intro word hword
    obtain ⟨before, c, cs, kind, literal, _, hfound, rfl⟩ := hcuts.cutOff_of_mem hword
    exact (Lexeme.cut_of_token hfound).1
  · intro token htoken
    obtain hword | hstop := List.mem_append.mp htoken
    · obtain ⟨before, c, cs, kind, literal, hsplit, _, rfl⟩ := hcuts.cutOff_of_mem hword
      simp only [Lexeme.tokenAt, Cuts.offset_start_after, Position.ofOffset, hsplit, List.take_left]
      rfl
    · rw [List.mem_singleton.mp hstop]
      simp only [endAt, Span.single, Cuts.offset_start_after, Position.ofOffset, List.take_length]
      rfl

/-- A number sign in a string, one that begins a comment, and a character of two bytes. -/
def withSigns : String :=
  "x \"# é\"#\"y\n2"

/-- The string is a token of five characters, and nothing behind it is one up to the end of
    the line. -/
theorem ofSource_tiling_withSigns :
    ∃ tokens words stop, ofSource withSigns = .ok tokens ∧ tokens = words ++ [stop] ∧
      tokens.map (·.span) = [⟨0, 1⟩, ⟨2, 7⟩, ⟨11, 12⟩, ⟨12, 13⟩] ∧
      Tiling withSigns.toList words := by
  have hspans : (ofSource withSigns).toOption.map (·.map (·.span)) =
      some [⟨0, 1⟩, ⟨2, 7⟩, ⟨11, 12⟩, ⟨12, 13⟩] := by decide +kernel
  cases htokens : ofSource withSigns with
  | error error =>
    rw [htokens] at hspans
    cases hspans
  | ok tokens =>
    rw [htokens] at hspans
    obtain ⟨words, stop, hsplit, _, _, _, htiling, _⟩ := ofSource_tiling htokens
    exact ⟨tokens, words, stop, rfl, hsplit, Option.some.inj hspans, htiling⟩

end Token
end KawaiiLang
