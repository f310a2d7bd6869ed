import Mathlib
import KawaiiLang.Proofs.Token.Cuts

namespace KawaiiLang

namespace Lexis

/-- Whether the character behind `text` is escaped: `text` ends in a backslash that is not
    escaped itself. -/
def escapesNext (text : List Char) : Bool :=
  text.foldl (fun escaped c => c = '\\' && !escaped) false

/-- What may stand between the quotes of a string: a piece of one line in which every quote is
    escaped, and which does not escape the quote that closes the string. -/
structure StringContent (content : List Char) : Prop where
  lineFeed : '\n' ∉ content
  carriageReturn : '\r' ∉ content
  quote : ∀ before after, content = before ++ '"' :: after → escapesNext before = true
  closing : escapesNext content = false

/-- The lexical classes: `Spells text kind` if `text` is one of the ways in which a token of
    `kind` can be written. How large an integer may be is no matter of its class. -/
inductive Spells : List Char → Token.Kind → Prop where
  | symbol (symbol : Symbol) : Spells symbol.spelling.toList (.symbol symbol)
  | keyword (keyword : Keyword) : Spells keyword.spelling.toList (.keyword keyword)
  | identifier {c : Char} {cs : List Char} (hc : c.isAlpha = true ∨ c = '_')
      (hcs : ∀ x ∈ cs, x.isAlphanum = true ∨ x = '_')
      (hfree : ∀ keyword : Keyword, keyword.spelling.toList ≠ c :: cs) :
      Spells (c :: cs) .identifier
  | integer {digits : List Char} (hdigits : digits ≠ []) (hdigit : ∀ x ∈ digits, x.isDigit = true) :
      Spells digits .integer
  | float {whole fraction : List Char} (hwhole : whole ≠ [])
      (hwholeDigit : ∀ x ∈ whole, x.isDigit = true) (hfraction : fraction ≠ [])
      (hfractionDigit : ∀ x ∈ fraction, x.isDigit = true) :
      Spells (whole ++ '.' :: fraction) .float
  | string {content : List Char} (hcontent : StringContent content) :
      Spells ('"' :: content ++ ['"']) .string

/-- Among all that `text` begins with, `lexeme` is the longest that belongs to a class, and
    `kind` is its class. -/
structure Longest (text lexeme : List Char) (kind : Token.Kind) : Prop where
  spells : Spells lexeme kind
  front : lexeme <+: text
  longest : ∀ other otherKind, Spells other otherKind → other <+: text →
    other.length ≤ lexeme.length

section StringContent

variable {c : Char} {text : List Char}

theorem escapesNext_cons (hc : c ≠ '\\') : escapesNext (c :: text) = escapesNext text := by
  simp [escapesNext, hc]

/-- A backslash at the front takes the character behind it along, whichever that is. -/
theorem escapesNext_backslash (c : Char) (text : List Char) :
    escapesNext ('\\' :: c :: text) = escapesNext text := by
  simp [escapesNext]

theorem StringContent.endsLine_of_mem (hcontent : StringContent text) (hc : c ∈ text) :
    Quoted.endsLine c = false := by
  have hfeed : c ≠ '\n' := fun h => hcontent.lineFeed (h ▸ hc)
  have hreturn : c ≠ '\r' := fun h => hcontent.carriageReturn (h ▸ hc)
  simp [Quoted.endsLine, hfeed, hreturn]

theorem stringContent_nil : StringContent [] where
  lineFeed := List.not_mem_nil
  carriageReturn := List.not_mem_nil
  quote := by simp
  closing := rfl

theorem not_stringContent_quote : ¬ StringContent ('"' :: text) := by
  intro hcontent
  have hescaped := hcontent.quote [] text rfl
  cases hescaped

theorem not_stringContent_backslash : ¬ StringContent ['\\'] := by
  intro hcontent
  have hopen := hcontent.closing
  cases hopen

theorem stringContent_cons_iff (hc : c ≠ '\\') (hquote : c ≠ '"')
    (hline : Quoted.endsLine c = false) : StringContent (c :: text) ↔ StringContent text := by
  simp only [Quoted.endsLine, Bool.or_eq_false_iff, decide_eq_false_iff_not] at hline
  constructor
  · rintro ⟨hfeed, hreturn, hescaped, hclosing⟩
    refine ⟨fun h => hfeed (.tail c h), fun h => hreturn (.tail c h), ?_, ?_⟩
    · rintro before after rfl
      exact (escapesNext_cons hc).symm.trans (hescaped (c :: before) after rfl)
    · exact (escapesNext_cons hc).symm.trans hclosing
  · rintro ⟨hfeed, hreturn, hescaped, hclosing⟩
    refine ⟨?_, ?_, ?_, (escapesNext_cons hc).trans hclosing⟩
    · exact List.not_mem_cons_of_ne_of_not_mem (Ne.symm hline.1) hfeed
    · exact List.not_mem_cons_of_ne_of_not_mem (Ne.symm hline.2) hreturn
    · intro before after hsplit
      cases before with
      | nil => exact absurd (List.cons.inj hsplit).1 hquote
      | cons d before =>
        obtain ⟨rfl, htext⟩ := List.cons.inj hsplit
        exact (escapesNext_cons hc).trans (hescaped before after htext)

theorem stringContent_backslash_iff (hline : Quoted.endsLine c = false) :
    StringContent ('\\' :: c :: text) ↔ StringContent text := by
  simp only [Quoted.endsLine, Bool.or_eq_false_iff, decide_eq_false_iff_not] at hline
  constructor
  · rintro ⟨hfeed, hreturn, hescaped, hclosing⟩
    refine ⟨fun h => hfeed (.tail _ (.tail c h)), fun h => hreturn (.tail _ (.tail c h)), ?_, ?_⟩
    · rintro before after rfl
      exact (escapesNext_backslash c before).symm.trans (hescaped ('\\' :: c :: before) after rfl)
    · exact (escapesNext_backslash c text).symm.trans hclosing
  · rintro ⟨hfeed, hreturn, hescaped, hclosing⟩
    refine ⟨?_, ?_, ?_, (escapesNext_backslash c text).trans hclosing⟩
    · simpa [Ne.symm hline.1] using hfeed
    · simpa [Ne.symm hline.2] using hreturn
    · intro before after hsplit
      match before with
      | [] => cases hsplit
      | [d] =>
        obtain ⟨rfl, _⟩ := List.cons.inj hsplit
        rfl
      | d :: e :: before =>
        obtain ⟨rfl, htail⟩ := List.cons.inj hsplit
        obtain ⟨rfl, htext⟩ := List.cons.inj htail
        exact (escapesNext_backslash c before).trans (hescaped before after htext)

end StringContent

end Lexis

namespace Quoted

open Lexis (StringContent)

theorem endsLine_of_escape? {c d : Char} (hescape : escape? c = some d) : endsLine c = false := by
  unfold escape? at hescape
  split at hescape
  all_goals first | rfl | cases hescape

theorem ne_of_escape?_eq_none {c : Char} (hescape : escape? c = none) : c ≠ '\\' ∧ c ≠ '"' := by
  constructor
  all_goals
    rintro rfl
    cases hescape

/-- What is read up to a closing quote is the content of a string. -/
theorem exists_content_of_closed {cs : List Char} (hclosed : (read cs).closed = true) :
    ∃ content, StringContent content ∧ (read cs).text = content ++ ['"'] := by
  fun_induction read cs with
  | case1 => cases hclosed
  | case2 rest => exact ⟨[], Lexis.stringContent_nil, rfl⟩
  | case3 c rest d hescape ih =>
    obtain ⟨content, hcontent, htext⟩ := ih hclosed
    refine ⟨'\\' :: c :: content, ?_, by simp [extend, htext]⟩
    exact (Lexis.stringContent_backslash_iff (endsLine_of_escape? hescape)).mpr hcontent
  | case4 c rest hescape ih =>
    obtain ⟨content, hcontent, htext⟩ := ih hclosed
    refine ⟨'\\' :: content, ?_, by simp [extend, htext]⟩
    -- The character behind the backslash is read again, and now as itself.
    obtain ⟨hbackslash, hquote⟩ := ne_of_escape?_eq_none hescape
    have hall := text_append_rest (c :: rest)
    rw [htext] at hall
    cases content with
    | nil => exact absurd (List.cons.inj hall).1.symm hquote
    | cons first content =>
      obtain ⟨rfl, _⟩ := List.cons.inj hall
      have hline := hcontent.endsLine_of_mem List.mem_cons_self
      rw [Lexis.stringContent_backslash_iff hline]
      exact (Lexis.stringContent_cons_iff hbackslash hquote hline).mp hcontent
  | case5 c rest _ _ hline => cases hclosed
  | case6 c rest hquote hescape hline ih =>
    obtain ⟨content, hcontent, htext⟩ := ih hclosed
    refine ⟨c :: content, ?_, by simp [extend, htext]⟩
    have hbackslash : c ≠ '\\' := by
      rintro rfl
      cases rest with
      | nil => cases hclosed
      | cons d rest => exact hescape d rest rfl rfl
    have hline := Bool.not_eq_true _ ▸ hline
    exact (Lexis.stringContent_cons_iff hbackslash hquote hline).mpr hcontent

/-- A backslash and the character behind it belong to the string together. -/
theorem exists_cons_cons_of_escaped {c : Char} {content rest tail : List Char}
    (hcontent : StringContent content) (hcs : '\\' :: c :: tail = content ++ '"' :: rest) :
    ∃ first second others, content = first :: second :: others := by
  cases content with
  | nil => cases hcs
  | cons first content =>
    cases content with
    | nil =>
      obtain ⟨rfl, _⟩ := List.cons.inj hcs
      exact absurd hcontent Lexis.not_stringContent_backslash
    | cons second others => exact ⟨first, second, others, rfl⟩

/-- A string is read up to the quote that closes it, and no further. -/
theorem read_of_content {cs content rest : List Char} (hcontent : StringContent content)
    (hcs : cs = content ++ '"' :: rest) :
    (read cs).closed = true ∧ (read cs).text = content ++ ['"'] := by
  fun_induction read cs generalizing content with
  | case1 => simp at hcs
  | case2 =>
    cases content with
    | nil => exact ⟨rfl, rfl⟩
    | cons first content =>
      obtain ⟨rfl, _⟩ := List.cons.inj hcs
      exact absurd hcontent Lexis.not_stringContent_quote
  | case3 c tail d hescape ih =>
    obtain ⟨first, second, content, rfl⟩ := exists_cons_cons_of_escaped hcontent hcs
    simp only [List.cons_append, List.cons.injEq] at hcs
    obtain ⟨rfl, rfl, hrest⟩ := hcs
    rw [Lexis.stringContent_backslash_iff (endsLine_of_escape? hescape)] at hcontent
    obtain ⟨hclosed, htext⟩ := ih hcontent hrest
    exact ⟨hclosed, by simp [extend, htext]⟩
  | case4 c tail hescape ih =>
    obtain ⟨first, second, content, rfl⟩ := exists_cons_cons_of_escaped hcontent hcs
    simp only [List.cons_append, List.cons.injEq] at hcs
    obtain ⟨rfl, rfl, hrest⟩ := hcs
    obtain ⟨hbackslash, hquote⟩ := ne_of_escape?_eq_none hescape
    have hline := hcontent.endsLine_of_mem (.tail _ List.mem_cons_self)
    rw [Lexis.stringContent_backslash_iff hline,
      ← Lexis.stringContent_cons_iff hbackslash hquote hline] at hcontent
    obtain ⟨hclosed, htext⟩ := ih hcontent (congrArg (c :: ·) hrest)
    exact ⟨hclosed, by simp [extend, htext]⟩
  | case5 c tail hquote _ hline =>
    cases content with
    | nil => exact absurd (List.cons.inj hcs).1 hquote
    | cons first content =>
      obtain ⟨rfl, _⟩ := List.cons.inj hcs
      rw [hcontent.endsLine_of_mem List.mem_cons_self] at hline
      cases hline
  | case6 c tail hquote hescape hline ih =>
    cases content with
    | nil => exact absurd (List.cons.inj hcs).1 hquote
    | cons first content =>
      obtain ⟨rfl, hrest⟩ := List.cons.inj hcs
      have hbackslash : c ≠ '\\' := by
        rintro rfl
        cases tail with
        | nil => simp at hrest
        | cons d tail => exact hescape d tail rfl rfl
      rw [Lexis.stringContent_cons_iff hbackslash hquote (Bool.not_eq_true _ ▸ hline)] at hcontent
      obtain ⟨hclosed, htext⟩ := ih hcontent hrest
      exact ⟨hclosed, by simp [extend, htext]⟩

end Quoted
end KawaiiLang
