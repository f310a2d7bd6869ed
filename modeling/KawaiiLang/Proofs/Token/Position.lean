import Mathlib.Data.List.Pairwise
import KawaiiLang.Proofs.Token.Resumption

namespace KawaiiLang

open Lexeme (cut cut_text_ne_nil)

namespace Position

/-- One place is in front of another if it is on an earlier line, or earlier on the same one. -/
def Before (first second : Position) : Prop :=
  first.line < second.line ∨ first.line = second.line ∧ first.column < second.column

theorem Before.trans {first second third : Position} (hfirst : first.Before second)
    (hsecond : second.Before third) : first.Before third := by
  unfold Before at hfirst hsecond ⊢
  omega

theorem Before.ne {first second : Position} (hbefore : first.Before second) : first ≠ second := by
  rintro rfl
  unfold Before at hbefore
  omega

theorem before_next (p : Position) (c : Char) : p.Before (p.next c) := by
  unfold next
  split
  · exact .inl (Nat.lt_succ_self _)
  · exact .inr ⟨rfl, Nat.lt_succ_self _⟩

/-- Reading on leads to a later place, also where a line feed sets the column back. -/
theorem before_after (p : Position) {text : List Char} (htext : text ≠ []) :
    p.Before (p.after text) := by
  induction text generalizing p with
  | nil => exact absurd rfl htext
  | cons c text ih =>
    cases text with
    | nil => exact before_next p c
    | cons d text => exact (before_next p c).trans (ih (p.next c) (List.cons_ne_nil d text))

/-- Later characters of a text are at later places, and its end is behind all of them. -/
theorem ofOffset_before {source : String} {first second : Nat} (hlt : first < second)
    (hle : second ≤ source.length) : (ofOffset source first).Before (ofOffset source second) := by
  have hsplit := (source.toList.take second).take_append_drop first
  rw [List.take_take, Nat.min_eq_left (Nat.le_of_lt hlt)] at hsplit
  rw [ofOffset, ofOffset, ← hsplit, after_append]
  refine before_after _ fun hbetween => ?_
  rw [List.drop_eq_nil_iff, List.length_take, String.length_toList, Nat.min_eq_left hle] at hbetween
  exact absurd hlt (Nat.not_lt.mpr hbetween)

theorem ofOffset_of_length_le {source : String} {offset : Nat} (hle : source.length ≤ offset) :
    ofOffset source offset = ofOffset source source.length := by
  rw [← String.length_toList] at hle ⊢
  rw [ofOffset, ofOffset, List.take_of_length_le hle, List.take_length]

end Position

namespace Lexer

/-- The tokens that wait are at places one behind the other, and all of them in front of the place
    that the lexer has come to. -/
structure Onward (lexer : Lexer) : Prop where
  increasing : lexer.pending.toList.Pairwise fun first second =>
    first.position.Before second.position
  passed : ∀ token ∈ lexer.pending.toList, token.position.Before lexer.mark.position

variable {lexer : Lexer}

theorem before_skip (lexer : Lexer) (c : Char) (cs : List Char) :
    lexer.mark.position.Before (lexer.skip (cut c cs)).mark.position :=
  Position.before_after _ (cut_text_ne_nil c cs)

theorem Onward.skip (honward : Onward lexer) (c : Char) (cs : List Char) :
    Onward (lexer.skip (cut c cs)) where
  increasing := honward.increasing
  passed token htoken := (honward.passed token htoken).trans (before_skip lexer c cs)

/-- A token that is at the place of the lexer can wait behind the others once it has been read. -/
theorem Onward.push (honward : Onward lexer) (c : Char) (cs : List Char) (kind : Token.Kind)
    (literal : Option Literal) :
    Onward ((lexer.skip (cut c cs)).push (lexer.tokenOf (cut c cs) kind literal)) where
  increasing := by
    rw [Lexer.push, Array.toList_push]
    refine List.pairwise_append.mpr ⟨honward.increasing, List.pairwise_singleton _ _, ?_⟩
    intro token htoken _ hlast
    rw [List.mem_singleton.mp hlast]
    exact honward.passed token htoken
  passed := by
    rw [Lexer.push, Array.toList_push]
    refine List.forall_mem_append.mpr ⟨(honward.skip c cs).passed, ?_⟩
    intro token hlast
    rw [List.mem_singleton.mp hlast]
    exact before_skip lexer c cs

/-- What a scan hands out is in the order of its places, and what waits behind it as well. -/
theorem Onward.scan (honward : Onward lexer) :
    Onward lexer.scan.2 ∧ ∀ tokens, lexer.scan.1 = .ok tokens →
      tokens.Pairwise fun first second => first.position.Before second.position := by
  fun_induction Lexer.scan lexer with
  | case1 mark pending =>
    refine ⟨⟨.nil, List.forall_mem_nil _⟩, ?_⟩
    rintro _ ⟨⟩
    rw [Array.toList_push]
    refine List.pairwise_append.mpr ⟨honward.increasing, List.pairwise_singleton _ _, ?_⟩
    intro token htoken _ hlast
    rw [List.mem_singleton.mp hlast]
    exact honward.passed token htoken
  | case2 c cs mark pending lexeme hfound ih => exact ih (honward.skip c cs)
  | case3 c cs mark pending lexeme kind literal hfound ih =>
    exact ih (honward.push c cs kind literal)
  | case4 c cs mark pending lexeme fault hfound =>
    refine ⟨honward.skip c cs, ?_⟩
    rintro _ ⟨⟩

theorem onward_afterScans (source : String) (scans : Nat) : Onward (afterScans source scans) := by
  induction scans with
  | zero => exact ⟨.nil, List.forall_mem_nil _⟩
  | succ scans ih => exact ih.scan.1

end Lexer

/-- The tokens of a text begin at different places. -/
theorem Token.eq_of_position_eq {source : String} {tokens : List Token}
    (htokens : ofSource source = .ok tokens) {first second : Token} (hfirst : first ∈ tokens)
    (hsecond : second ∈ tokens) (hposition : first.position = second.position) :
    first = second := by
  have hincreasing := (Lexer.onward_afterScans source 0).scan.2 tokens htokens
  have hapart := hincreasing.imp Position.Before.ne
  by_contra hne
  have : Std.Symm fun first second : Token => first.position ≠ second.position :=
    ⟨fun _ _ hother => hother.symm⟩
  exact hapart.forall hfirst hsecond hne hposition

/-- Places tell characters apart: the further on a character, the later its place, up to the end of
    the text, and there is no place behind that. So the tokens that a lexer hands out at once are at
    different places in the order of the text, also if earlier scans have ended in errors. -/
theorem Position.ofOffset_increasing (source : String) :
    (∀ first second, first < second → second ≤ source.length →
      (ofOffset source first).Before (ofOffset source second)) ∧
    (∀ offset, source.length ≤ offset → ofOffset source offset = ofOffset source source.length) ∧
    ∀ scans tokens, (Lexer.afterScans source scans).scan.1 = .ok tokens →
      tokens.Pairwise fun first second => first.position.Before second.position := by
  refine ⟨fun _ _ => ofOffset_before, fun _ => ofOffset_of_length_le, ?_⟩
  intro scans tokens hscan
  exact (Lexer.onward_afterScans source scans).scan.2 tokens hscan

-- A line feed is the last character of its line.
example :
    (List.range 6).map (Position.ofOffset "a\n\nb") =
      [⟨1, 1⟩, ⟨1, 2⟩, ⟨2, 1⟩, ⟨3, 1⟩, ⟨3, 2⟩, ⟨3, 2⟩] := by decide

end KawaiiLang
