import Mathlib
import KawaiiLang.Stream.Input

namespace KawaiiLang

namespace InputLine

/-- `content` is `text` without the line feeds and carriage returns at its end. -/
structure Stripped (text content : String) : Prop where
  ending : ∃ ending : List Char, text.toList = content.toList ++ ending ∧
    ∀ c ∈ ending, c = '\n' ∨ c = '\r'
  last : ∀ c ∈ content.toList.getLast?, c ≠ '\n' ∧ c ≠ '\r'

theorem stripped_content (text : String) : Stripped text (content text) := by
  let ends : Char → Bool := fun c => c = '\n' || c = '\r'
  have hcontent : (content text).toList = (text.toList.reverse.dropWhile ends).reverse :=
    String.toList_ofList
  refine ⟨⟨(text.toList.reverse.takeWhile ends).reverse, ?_, ?_⟩, ?_⟩
  · rw [hcontent, ← List.reverse_append, List.takeWhile_append_dropWhile, List.reverse_reverse]
  · intro c hc
    have hends : ends c = true := List.mem_takeWhile_imp (List.mem_reverse.mp hc)
    simpa [ends] using hends
  · intro c hc
    rw [hcontent, List.getLast?_reverse] at hc
    have hends := List.head?_dropWhile_not ends text.toList.reverse
    rw [Option.mem_def.mp hc] at hends
    simpa [ends] using hends

/-- Only one text is stripped of these characters. -/
theorem Stripped.unique {text content' : String} (hcontent : Stripped text content')
    {content'' : String} (hcontent' : Stripped text content'') : content' = content'' := by
  have hlonger {first second : String} {rest : List Char} (hfirst : Stripped text first)
      (hsecond : Stripped text second) (hrest : second.toList = first.toList ++ rest) :
      rest = [] := by
    -- The last of the characters that only one of the two has is at the end of the text.
    obtain ⟨ending, htext, hending⟩ := hfirst.ending
    obtain ⟨ending', htext', -⟩ := hsecond.ending
    rw [htext', hrest, List.append_assoc, List.append_cancel_left_eq] at htext
    by_contra hne
    obtain ⟨c, hc⟩ := Option.isSome_iff_exists.mp (List.getLast?_isSome.mpr hne)
    have hlast := hsecond.last c (by simp [hrest, List.getLast?_append, hc])
    have hmem : c ∈ ending := htext ▸ List.mem_append_left _ (List.mem_of_getLast? hc)
    obtain rfl | rfl := hending c hmem
    · exact hlast.1 rfl
    · exact hlast.2 rfl
  obtain ⟨ending, htext, -⟩ := hcontent.ending
  obtain ⟨ending', htext', -⟩ := hcontent'.ending
  obtain ⟨rest, hrest, -⟩ | ⟨rest, hrest, -⟩ :=
    List.append_eq_append_iff.mp (htext.symm.trans htext')
  · rw [hlonger hcontent hcontent' hrest, List.append_nil] at hrest
    exact String.toList_injective hrest.symm
  · rw [hlonger hcontent' hcontent hrest, List.append_nil] at hrest
    exact String.toList_injective hrest

theorem stripped_iff {text stripped : String} : Stripped text stripped ↔ content text = stripped := by
  constructor
  · exact (stripped_content text).unique
  · rintro rfl
    exact stripped_content text

/-- The text of a line is the one whose bytes it has. -/
theorem text?_eq_some_iff {line : InputLine} {text : String} :
    line.text? = some text ↔ text.toUTF8.data.toList = line.bytes := by
  have hbytes : text.toUTF8.data.toList = line.bytes ↔ text.toUTF8 = ⟨line.bytes.toArray⟩ := by
    constructor
    · intro hsame
      rw [← hsame]
    · intro hsame
      rw [hsame]
  rw [hbytes, text?, String.fromUTF8?]
  split
  · rw [Option.some_inj]
    constructor
    · rintro rfl
      rfl
    · intro hsame
      exact String.toByteArray_inj.mp hsame.symm
  · next hinvalid =>
    constructor
    · intro hnone
      cases hnone
    · intro hsame
      rw [← hsame] at hinvalid
      exact absurd text.isValidUTF8 hinvalid

theorem text?_eq_none_iff {line : InputLine} :
    line.text? = none ↔ ∀ text : String, text.toUTF8.data.toList ≠ line.bytes := by
  rw [Option.eq_none_iff_forall_ne_some]
  exact forall_congr' fun text => not_congr text?_eq_some_iff

end InputLine

namespace Input

/-- The first line of an input, and what is left behind it. -/
inductive FirstLine : Input → InputLine → Input → Prop where
  | ended {content rest : List UInt8} (hcontent : lineFeed ∉ content) :
      FirstLine ⟨content ++ lineFeed :: rest⟩ ⟨content ++ [lineFeed]⟩ ⟨rest⟩
  | unended {content : List UInt8} (hcontent : lineFeed ∉ content) (hne : content ≠ []) :
      FirstLine ⟨content⟩ ⟨content⟩ ⟨[]⟩

/-- The bytes are made up of the lines: each ends with its only line feed, but for the last,
    which can do without one if it has any bytes. -/
inductive Lines : List UInt8 → List InputLine → Prop where
  | done : Lines [] []
  | ended {content rest : List UInt8} {lines : List InputLine} (hcontent : lineFeed ∉ content)
      (hrest : Lines rest lines) :
      Lines (content ++ lineFeed :: rest) (⟨content ++ [lineFeed]⟩ :: lines)
  | unended {content : List UInt8} (hcontent : lineFeed ∉ content) (hne : content ≠ []) :
      Lines content [⟨content⟩]

theorem exists_lines (bytes : List UInt8) : ∃ lines, Lines bytes lines := by
  induction bytes with
  | nil => exact ⟨[], .done⟩
  | cons byte bytes ih =>
    obtain ⟨lines, hlines⟩ := ih
    by_cases hbyte : lineFeed = byte
    · rw [← hbyte]
      exact ⟨_, .ended List.not_mem_nil hlines⟩
    · cases hlines with
      | done => exact ⟨_, .unended (by simpa using hbyte) (by simp)⟩
      | ended hcontent hrest =>
        rw [← List.cons_append]
        exact ⟨_, .ended (List.not_mem_cons_of_ne_of_not_mem hbyte hcontent) hrest⟩
      | unended hcontent =>
        exact ⟨_, .unended (List.not_mem_cons_of_ne_of_not_mem hbyte hcontent) (by simp)⟩

theorem splitLine_of_ended {content : List UInt8} (hcontent : lineFeed ∉ content)
    (rest : List UInt8) :
    splitLine (content ++ lineFeed :: rest) = (content ++ [lineFeed], rest) := by
  induction content with
  | nil => simp [splitLine]
  | cons byte content ih =>
    rw [List.mem_cons, not_or] at hcontent
    obtain ⟨hbyte, hcontent⟩ := hcontent
    rw [List.cons_append, splitLine, if_neg (Ne.symm hbyte), ih hcontent, List.cons_append]

theorem splitLine_of_unended {content : List UInt8} (hcontent : lineFeed ∉ content) :
    splitLine content = (content, []) := by
  induction content with
  | nil => rfl
  | cons byte content ih =>
    rw [List.mem_cons, not_or] at hcontent
    obtain ⟨hbyte, hcontent⟩ := hcontent
    rw [splitLine, if_neg (Ne.symm hbyte), ih hcontent]

theorem FirstLine.readLine?_eq {input rest : Input} {line : InputLine}
    (hline : input.FirstLine line rest) : input.readLine? = some (line, rest) := by
  cases hline with
  | ended hcontent => rw [readLine?, splitLine_of_ended hcontent, if_neg (by simp)]
  | unended hcontent hne =>
    rw [readLine?, splitLine_of_unended hcontent, if_neg (by simpa using hne)]

theorem Lines.eq_flatMap {bytes : List UInt8} {lines : List InputLine}
    (hlines : Lines bytes lines) : bytes = lines.flatMap InputLine.bytes := by
  induction hlines with
  | done => rfl
  | ended _ _ ih => simp [← ih]
  | unended => simp

namespace Lines

variable {bytes : List UInt8} {line : InputLine} {lines lines' : List InputLine}

theorem readLine?_nil (hlines : Lines bytes []) : readLine? ⟨bytes⟩ = none := by
  rw [readLine?, hlines.eq_flatMap]
  rfl

/-- The next line is taken off the input, and the others stay. -/
theorem readLine?_cons (hlines : Lines bytes (line :: lines)) :
    ∃ rest, readLine? ⟨bytes⟩ = some (line, rest) ∧ Lines rest.bytes lines := by
  cases hlines with
  | ended hcontent hrest => exact ⟨_, (FirstLine.ended hcontent).readLine?_eq, hrest⟩
  | unended hcontent hne => exact ⟨_, (FirstLine.unended hcontent hne).readLine?_eq, .done⟩

theorem unique (hlines : Lines bytes lines) (hlines' : Lines bytes lines') : lines = lines' := by
  induction lines generalizing bytes lines' with
  | nil =>
    cases lines' with
    | nil => rfl
    | cons line' rest' =>
      obtain ⟨_, hread', _⟩ := hlines'.readLine?_cons
      cases hlines.readLine?_nil.symm.trans hread'
  | cons line rest ih =>
    obtain ⟨input, hread, hrest⟩ := hlines.readLine?_cons
    cases lines' with
    | nil => cases hread.symm.trans hlines'.readLine?_nil
    | cons line' rest' =>
      obtain ⟨input', hread', hrest'⟩ := hlines'.readLine?_cons
      cases hread.symm.trans hread'
      rw [ih hrest hrest']

end Lines

theorem readLine?_eq_none_iff {input : Input} : input.readLine? = none ↔ input.bytes = [] := by
  simp [readLine?]

/-- Reading takes the first line off the input. -/
theorem readLine?_eq_some_iff {input rest : Input} {line : InputLine} :
    input.readLine? = some (line, rest) ↔ input.FirstLine line rest := by
  refine ⟨fun hread => ?_, FirstLine.readLine?_eq⟩
  obtain ⟨bytes⟩ := input
  obtain ⟨lines, hlines⟩ := exists_lines bytes
  cases hlines with
  | done => cases hread
  | @ended content rest' _ hcontent =>
    have hline := @FirstLine.ended content rest' hcontent
    cases hread.symm.trans hline.readLine?_eq
    exact hline
  | unended hcontent hne =>
    have hline := FirstLine.unended hcontent hne
    cases hread.symm.trans hline.readLine?_eq
    exact hline

end Input
end KawaiiLang
