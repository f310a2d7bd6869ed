import Mathlib.Data.List.Basic
import KawaiiLang.Proofs.Grammar.Program
import KawaiiLang.Proofs.Program.Node

namespace KawaiiLang

/-- The words stand in a text one behind the other, and none of them is empty. -/
structure Token.Ordered (words : List Token) : Prop where
  nonempty : ∀ word ∈ words, word.span.start < word.span.stop
  apart : words.Pairwise fun first second => first.span.stop ≤ second.span.start

/-- The span runs from the start of the first of the words to the end of the last one. -/
def Token.Extent (words : List Token) (span : Span) : Prop :=
  ∃ first last, words.head? = some first ∧ words.getLast? = some last ∧
    span = ⟨first.span.start, last.span.stop⟩

/-- All of the span `inner` is in `outer`. -/
structure Span.Within (inner outer : Span) : Prop where
  start_le : outer.start ≤ inner.start
  stop_le : inner.stop ≤ outer.stop

/-- The spans do not overlap, and they come in the order of the text. -/
def Span.Apart (spans : List Span) : Prop :=
  spans.Pairwise fun first second => first.stop ≤ second.start

namespace Token

theorem Ordered.of_sublist {words others : List Token} (hwords : Ordered words)
    (hothers : others.Sublist words) : Ordered others where
  nonempty word hword := hwords.nonempty word (hothers.subset hword)
  apart := hwords.apart.sublist hothers

theorem Ordered.of_suffix {words others : List Token} (hwords : Ordered words)
    (hothers : others <:+ words) : Ordered others :=
  hwords.of_sublist hothers.sublist

theorem extent_singleton (token : Token) : Extent [token] token.span :=
  ⟨token, token, rfl, rfl, rfl⟩

/-- An extent reaches over every one of its words. -/
theorem Extent.word_within {words : List Token} {span : Span} (hextent : Extent words span)
    (hwords : Ordered words) {word : Token} (hword : word ∈ words) : word.span.Within span := by
  obtain ⟨first, last, hfirst, hlast, rfl⟩ := hextent
  constructor
  · obtain ⟨rest, rfl⟩ := List.head?_eq_some_iff.mp hfirst
    obtain rfl | hrest := List.mem_cons.mp hword
    · exact Nat.le_refl _
    · have hbefore := List.rel_of_pairwise_cons hwords.apart hrest
      exact Nat.le_trans (Nat.le_of_lt (hwords.nonempty first List.mem_cons_self)) hbefore
  · obtain ⟨earlier, rfl⟩ := List.getLast?_eq_some_iff.mp hlast
    obtain hearlier | hlast := List.mem_append.mp hword
    · have hbefore := (List.pairwise_append.mp hwords.apart).2.2 word hearlier last
        (List.mem_singleton_self last)
      exact Nat.le_trans hbefore (Nat.le_of_lt (hwords.nonempty last (by simp)))
    · obtain rfl := List.mem_singleton.mp hlast
      exact Nat.le_refl _

theorem Extent.within {words inside : List Token} {inner outer : Span}
    (hinner : Extent inside inner) (houter : Extent words outer) (hwords : Ordered words)
    (hinside : inside ⊆ words) : inner.Within outer := by
  obtain ⟨first, last, hfirst, hlast, rfl⟩ := hinner
  have hfirst := houter.word_within hwords (hinside (List.mem_of_head? hfirst))
  have hlast := houter.word_within hwords (hinside (List.mem_of_getLast? hlast))
  exact ⟨hfirst.start_le, hlast.stop_le⟩

/-- Words that stand in front of others end before these begin. -/
theorem Extent.stop_le_start {words others : List Token} {span other : Span}
    (hspan : Extent words span) (hother : Extent others other) (hwords : Ordered (words ++ others)) :
    span.stop ≤ other.start := by
  obtain ⟨_, last, _, hlast, rfl⟩ := hspan
  obtain ⟨first, _, hfirst, _, rfl⟩ := hother
  exact (List.pairwise_append.mp hwords.apart).2.2 last (List.mem_of_getLast? hlast) first
    (List.mem_of_head? hfirst)

theorem Extent.start_lt_stop {words : List Token} {span : Span} (hspan : Extent words span)
    (hwords : Ordered words) : span.start < span.stop := by
  obtain ⟨first, last, hfirst, hlast, rfl⟩ := hspan
  have hmem := List.mem_of_head? hfirst
  have hwithin := Extent.word_within ⟨first, last, hfirst, hlast, rfl⟩ hwords hmem
  exact Nat.lt_of_lt_of_le (hwords.nonempty first hmem) hwithin.stop_le

/-- A span tells where its words end. -/
theorem Extent.split_unique {words before own after front other behind : List Token} {span : Span}
    (hordered : Ordered words) (hown : Extent own span) (hother : Extent other span)
    (hwords : words = before ++ own ++ after) (hsplit : words = front ++ other ++ behind) :
    before ++ own = front ++ other ∧ after = behind := by
  obtain ⟨_, last, _, hlast, rfl⟩ := hown
  obtain ⟨_, final, _, hfinal, hspan⟩ := hother
  have hstop : last.span.stop = final.span.stop := (Span.mk.inj hspan).2
  obtain ⟨earlier, rfl⟩ := List.getLast?_eq_some_iff.mp hlast
  obtain ⟨start, rfl⟩ := List.getLast?_eq_some_iff.mp hfinal
  have hboth : before ++ earlier ++ last :: after = front ++ start ++ final :: behind := by
    simpa using hwords.symm.trans hsplit
  have hwords : words = before ++ earlier ++ last :: after := by simpa using hwords
  have hpositive := hordered.nonempty final (by simp [hsplit])
  have hlast := hordered.nonempty last (by simp [hwords])
  -- The last words end in the same place, so neither of them stands behind the other one.
  obtain ⟨_, hbehind, hbefore⟩ := List.pairwise_append.mp (hwords ▸ hordered.apart)
  have hearlier : final ∉ before ++ earlier := by
    intro hmem
    have := hbefore final hmem last List.mem_cons_self
    omega
  have hafter : final ∉ after := by
    intro hmem
    have := List.rel_of_pairwise_cons hbehind hmem
    omega
  obtain ⟨hfront, rfl, rfl⟩ := (List.append_cons_inj_of_notMem hearlier hafter).mp hboth
  exact ⟨by rw [← List.append_assoc, hfront, List.append_assoc], rfl⟩

/-- Joined spans of words reach from the first of them to the last. -/
theorem Extent.through {words between others : List Token} {span other : Span}
    (hspan : Extent words span) (hother : Extent others other)
    (hwords : Ordered (words ++ between ++ others)) :
    Extent (words ++ between ++ others) (span.through other) := by
  have hsides : Ordered (words ++ others) :=
    hwords.of_sublist ((List.sublist_append_left words between).append_right others)
  have hapart := hspan.stop_le_start hother hsides
  have hpositive := hother.start_lt_stop (hsides.of_suffix (List.suffix_append _ _))
  have hmax : max other.stop span.stop = other.stop := by omega
  obtain ⟨first, _, hfirst, _, rfl⟩ := hspan
  obtain ⟨_, last, _, hlast, rfl⟩ := hother
  refine ⟨first, last, ?_, ?_, ?_⟩
  · rw [List.append_assoc, List.head?_append, hfirst, Option.some_or]
  · rw [List.getLast?_append, hlast, Option.some_or]
  · rw [Span.through, hmax]

end Token

namespace Grammar

open Token (Ordered Extent)

/-- The span is that of the tokens of `input` in front of `rest`. -/
def Exact (input : List Token) (span : Span) (rest : List Token) : Prop :=
  ∃ own, input = own ++ rest ∧ Extent own span

theorem Exact.suffix {input rest : List Token} {span : Span} (hspan : Exact input span rest) :
    rest <:+ input := by
  obtain ⟨own, rfl, _⟩ := hspan
  exact List.suffix_append own rest

theorem exact_single (token : Token) (rest : List Token) :
    Exact (token :: rest) token.span rest :=
  ⟨[token], rfl, Token.extent_singleton token⟩

/-- Two spans are joined over what lies between them. -/
theorem Exact.through {input middle start rest : List Token} {first last : Span}
    (hfirst : Exact input first middle) (hstart : start <:+ middle) (hlast : Exact start last rest)
    (hordered : Ordered input) : Exact input (first.through last) rest := by
  obtain ⟨own, rfl, hown⟩ := hfirst
  obtain ⟨between, rfl⟩ := hstart
  obtain ⟨others, rfl, hothers⟩ := hlast
  refine ⟨own ++ between ++ others, by simp, hown.through hothers (hordered.of_sublist ?_)⟩
  rw [← List.append_assoc between, ← List.append_assoc own, ← List.append_assoc own]
  exact List.sublist_append_left _ rest

/-- A node that is read from `token` on, up to `rest`. -/
theorem exact_spanOf {token : Token} {input rest : List Token} (hrest : rest <:+ input)
    (hordered : Ordered (token :: input)) :
    Exact (token :: input) (spanOf token input rest) rest := by
  obtain ⟨read, rfl⟩ := hrest
  rw [spanOf_append]
  cases hlast : read.getLast? with
  | none =>
    obtain rfl := List.getLast?_eq_none_iff.mp hlast
    simpa [Span.through] using exact_single token rest
  | some last =>
    obtain ⟨between, rfl⟩ := List.getLast?_eq_some_iff.mp hlast
    have hstart : last :: rest <:+ between ++ [last] ++ rest := by simp
    exact (exact_single token _).through hstart (exact_single last rest) hordered

/-- The parts are read one behind the other from the tokens of `input` in front of `rest`, each
    of them as `p` says. There may be other tokens around them. -/
inductive InOrder {α : Type} (p : List Token → α → List Token → Prop) :
    List Token → List α → List Token → Prop where
  | nil {input rest : List Token} (hrest : rest <:+ input) : InOrder p input [] rest
  | cons {input start middle rest : List Token} {part : α} {parts : List α}
      (hstart : start <:+ input) (hpart : p start part middle)
      (hparts : InOrder p middle parts rest) : InOrder p input (part :: parts) rest

namespace InOrder

variable {α β : Type} {p : List Token → α → List Token → Prop} {input rest : List Token}
  {parts others : List α}

theorem of_suffix {wider : List Token} (hparts : InOrder p input parts rest)
    (hinput : input <:+ wider) : InOrder p wider parts rest := by
  cases hparts with
  | nil hrest => exact .nil (hrest.trans hinput)
  | cons hstart hpart hparts => exact .cons (hstart.trans hinput) hpart hparts

theorem append {middle start : List Token} (hparts : InOrder p input parts middle)
    (hstart : start <:+ middle) (hothers : InOrder p start others rest) :
    InOrder p input (parts ++ others) rest := by
  induction hparts with
  | nil hrest => exact hothers.of_suffix (hstart.trans hrest)
  | cons hnext hpart _ ih => exact .cons hnext hpart (ih hstart)

theorem to_suffix {shorter : List Token} (hparts : InOrder p input parts rest)
    (hshorter : shorter <:+ rest) : InOrder p input parts shorter := by
  simpa using hparts.append hshorter (.nil (List.suffix_refl shorter))

theorem singleton {part : α} (hpart : p input part rest) : InOrder p input [part] rest :=
  .cons (List.suffix_refl _) hpart (.nil (List.suffix_refl _))

theorem map {q : List Token → β → List Token → Prop} {f : α → β}
    (hparts : InOrder p input parts rest)
    (himp : ∀ input part rest, p input part rest → q input (f part) rest) :
    InOrder q input (parts.map f) rest := by
  induction hparts with
  | nil hrest => exact .nil hrest
  | cons hstart hpart _ ih => exact .cons hstart (himp _ _ _ hpart) ih

theorem suffix (hp : ∀ input part rest, p input part rest → rest <:+ input)
    (hparts : InOrder p input parts rest) : rest <:+ input := by
  induction hparts with
  | nil hrest => exact hrest
  | cons hstart hpart _ ih => exact (ih.trans (hp _ _ _ hpart)).trans hstart

/-- Each of the parts has its own place among the tokens. -/
theorem exists_of_mem (hp : ∀ input part rest, p input part rest → rest <:+ input)
    (hparts : InOrder p input parts rest) {part : α} (hpart : part ∈ parts) :
    ∃ start middle, start <:+ input ∧ rest <:+ middle ∧ p start part middle := by
  induction hparts with
  | nil => cases hpart
  | @cons input start middle rest first parts hstart hfirst hparts ih =>
    obtain rfl | hpart := List.mem_cons.mp hpart
    · exact ⟨start, middle, hstart, hparts.suffix hp, hfirst⟩
    · obtain ⟨other, next, hother, hnext, hplace⟩ := ih hpart
      exact ⟨other, next, (hother.trans (hp _ _ _ hfirst)).trans hstart, hnext, hplace⟩

/-- Exact spans of parts in order do not overlap. -/
theorem apart {spans : List Span} (hspans : InOrder Exact input spans rest)
    (hordered : Ordered input) : Span.Apart spans := by
  induction hspans with
  | nil => exact .nil
  | @cons input start middle rest span spans hstart hspan hspans ih =>
    have hmiddle := hspan.suffix.trans hstart
    refine List.pairwise_cons.mpr ⟨?_, ih (hordered.of_suffix hmiddle)⟩
    intro other hother
    obtain ⟨next, last, hnext, _, words, rfl, hwords⟩ :=
      hspans.exists_of_mem (fun _ _ _ => Exact.suffix) hother
    obtain ⟨own, rfl, hown⟩ := hspan
    obtain ⟨between, rfl⟩ := hnext
    refine hown.stop_le_start hwords ((hordered.of_suffix hstart).of_sublist ?_)
    exact (((List.sublist_append_left words last).trans
      (List.sublist_append_right between _)).append_left own)

/-- Exact spans of parts lie in that of the whole. -/
theorem within {spans : List Span} {whole : Span} (hspans : InOrder Exact input spans rest)
    (hwhole : Exact input whole rest) (hordered : Ordered input) :
    ∀ span ∈ spans, span.Within whole := by
  intro span hspan
  obtain ⟨start, middle, hstart, hmiddle, own, rfl, hown⟩ :=
    hspans.exists_of_mem (fun _ _ _ => Exact.suffix) hspan
  obtain ⟨words, rfl, hwords⟩ := hwhole
  obtain ⟨before, hbefore⟩ := hstart
  obtain ⟨after, rfl⟩ := hmiddle
  have hsplit : words = before ++ (own ++ after) := by
    rw [← List.append_assoc own, ← List.append_assoc before] at hbefore
    exact (List.append_cancel_right hbefore).symm
  refine hown.within hwords (hordered.of_sublist (List.sublist_append_left _ _)) ?_
  rw [hsplit]
  exact fun word hword => List.mem_append_right _ (List.mem_append_left _ hword)

end InOrder

end Grammar

end KawaiiLang
