import KawaiiLang.Proofs.Token.Classes

namespace KawaiiLang

open Lexeme (cut separators startsWord continuesWord)

namespace Lexis

/-- The number that a row of decimal digits stands for. -/
def decimal (digits : List Char) : Nat :=
  Nat.ofDigitChars 10 digits 0

/-- The characters that a token of the given kind can begin with. -/
def leads : Token.Kind → Char → Bool
  | .symbol _, c => !c.isDigit && !startsWord c && c ≠ '"' && c ∉ separators
  | .keyword _, c | .identifier, c => startsWord c
  | .integer, c | .float, c => c.isDigit
  | .string, c => c = '"'
  | .endOfInput, _ => false

theorem Spells.leads {c : Char} {cs : List Char} {kind : Token.Kind}
    (hspells : Spells (c :: cs) kind) : leads kind c = true := by
  generalize hword : c :: cs = word at hspells
  cases hspells with
  | symbol symbol => cases symbol <;> cases hword <;> decide
  | keyword keyword => cases keyword <;> cases hword <;> decide
  | identifier hc =>
    cases hword
    simpa [Lexis.leads, startsWord] using hc
  | integer _ hdigit =>
    subst hword
    exact hdigit c List.mem_cons_self
  | @float whole _ hwhole hdigit =>
    cases whole with
    | nil => exact absurd rfl hwhole
    | cons d whole =>
      cases hword
      exact hdigit c List.mem_cons_self
  | string =>
    cases hword
    rfl

theorem Spells.exists_cons {text : List Char} {kind : Token.Kind} (hspells : Spells text kind) :
    ∃ c cs, text = c :: cs := by
  cases hspells with
  | symbol symbol => cases symbol <;> exact ⟨_, _, rfl⟩
  | keyword keyword => cases keyword <;> exact ⟨_, _, rfl⟩
  | identifier | string => exact ⟨_, _, rfl⟩
  | integer hdigits => exact List.exists_cons_of_ne_nil hdigits
  | float => exact List.exists_cons_of_ne_nil (by simp)

/-- What belongs to a class begins with the first character of the text that it is at the
    front of. -/
theorem Spells.of_front {c : Char} {cs text : List Char} {kind : Token.Kind}
    (hspells : Spells text kind) (hfront : text <+: c :: cs) :
    ∃ rest, text = c :: rest ∧ rest <+: cs := by
  obtain ⟨d, rest, rfl⟩ := hspells.exists_cons
  obtain ⟨rfl, hrest⟩ := List.cons_prefix_cons.mp hfront
  exact ⟨rest, rfl, hrest⟩

/-- No token begins with a character that separates tokens. -/
theorem leads_separator {kind : Token.Kind} {c : Char} (hleads : leads kind c = true) :
    c ∉ separators := by
  intro hc
  have hall : separators.any (leads kind) = false := by cases kind <;> rfl
  exact List.any_eq_false.mp hall c hc hleads

theorem not_startsWord_of_isDigit {c : Char} (hc : c.isDigit = true) : startsWord c = false := by
  have hunderscore : c ≠ '_' := by
    rintro rfl
    cases hc
  simp only [startsWord, Char.isAlpha, Char.isUpper, Char.isLower, Char.isDigit] at *
  grind

section

variable {c : Char} {cs : List Char} {kind : Token.Kind}

theorem kind_of_digit (hleads : leads kind c = true) (hc : c.isDigit = true) :
    kind = .integer ∨ kind = .float := by
  cases kind with
  | integer => exact .inl rfl
  | float => exact .inr rfl
  | symbol => simp [leads, hc] at hleads
  | keyword | identifier =>
    have hword := not_startsWord_of_isDigit hc
    simp [leads, hword] at hleads
  | string =>
    obtain rfl : c = '"' := by simpa [leads] using hleads
    cases hc
  | endOfInput => cases hleads

theorem kind_of_word (hleads : leads kind c = true) (hc : startsWord c = true) :
    kind = .identifier ∨ ∃ keyword, kind = .keyword keyword := by
  cases kind with
  | identifier => exact .inl rfl
  | keyword keyword => exact .inr ⟨keyword, rfl⟩
  | symbol => simp [leads, hc] at hleads
  | integer | float =>
    have hword := not_startsWord_of_isDigit hleads
    rw [hc] at hword
    cases hword
  | string =>
    obtain rfl : c = '"' := by simpa [leads] using hleads
    cases hc
  | endOfInput => cases hleads

theorem kind_of_quote (hleads : leads kind '"' = true) : kind = .string := by
  cases kind with
  | string => rfl
  | symbol | keyword | identifier | integer | float | endOfInput => cases hleads

theorem kind_of_sign (hleads : leads kind c = true) (hquote : c ≠ '"') (hdigit : c.isDigit = false)
    (hword : startsWord c = false) : ∃ symbol, kind = .symbol symbol := by
  cases kind with
  | symbol symbol => exact ⟨symbol, rfl⟩
  | keyword | identifier => simp [leads, hword] at hleads
  | integer | float => simp [leads, hdigit] at hleads
  | string => simp [leads, hquote] at hleads
  | endOfInput => cases hleads

end

/-- A text belongs to one class at most. -/
theorem Spells.kind_eq {text : List Char} {kind kind' : Token.Kind} (hspells : Spells text kind)
    (hspells' : Spells text kind') : kind = kind' := by
  obtain ⟨c, cs, hcons⟩ := hspells.exists_cons
  have hleads : Lexis.leads kind c = true := (hcons ▸ hspells).leads
  have hleads' : Lexis.leads kind' c = true := (hcons ▸ hspells').leads
  cases hspells with
  | symbol symbol =>
    simp only [Lexis.leads, Bool.and_eq_true, Bool.not_eq_true', decide_eq_true_eq] at hleads
    obtain ⟨symbol', rfl⟩ := kind_of_sign hleads' hleads.1.2 hleads.1.1.1 hleads.1.1.2
    generalize hsame : symbol.spelling.toList = text at hspells'
    cases hspells'
    have hfound := congrArg Symbol.ofText? hsame
    rw [Symbol.ofText?_spelling, Symbol.ofText?_spelling] at hfound
    cases hfound
    rfl
  | keyword keyword =>
    generalize hsame : keyword.spelling.toList = text at hspells'
    obtain rfl | ⟨keyword', rfl⟩ := kind_of_word hleads' hleads
    · cases hspells' with
      | identifier _ _ hfree => exact absurd hsame (hfree keyword)
    · cases hspells'
      have hfound := congrArg Keyword.ofWord? hsame
      rw [Keyword.ofWord?_spelling, Keyword.ofWord?_spelling] at hfound
      cases hfound
      rfl
  | @identifier d ds _ _ hfree =>
    obtain rfl | ⟨keyword, rfl⟩ := kind_of_word hleads' hleads
    · rfl
    · generalize hsame : d :: ds = text at hspells'
      cases hspells'
      exact absurd hsame.symm (hfree keyword)
  | integer _ hdigit =>
    obtain rfl | rfl := kind_of_digit hleads' hleads
    · rfl
    · cases hspells' with
      | float =>
        have hpoint := hdigit '.' (by simp)
        cases hpoint
  | @float whole fraction =>
    obtain rfl | rfl := kind_of_digit hleads' hleads
    · generalize hsame : whole ++ '.' :: fraction = text at hspells'
      cases hspells' with
      | integer _ hdigit =>
        have hpoint := hdigit '.' (by simp [← hsame])
        cases hpoint
    · rfl
  | string =>
    obtain rfl : c = '"' := by simpa [Lexis.leads] using hleads
    exact (kind_of_quote hleads').symm

/-- There is one longest match at most, and it has one class. -/
theorem Longest.unique {text lexeme lexeme' : List Char} {kind kind' : Token.Kind}
    (hlongest : Longest text lexeme kind) (hlongest' : Longest text lexeme' kind') :
    lexeme = lexeme' ∧ kind = kind' := by
  have hle := hlongest.longest lexeme' kind' hlongest'.spells hlongest'.front
  have hge := hlongest'.longest lexeme kind hlongest.spells hlongest.front
  have hfront := List.prefix_of_prefix_length_le hlongest.front hlongest'.front hge
  obtain rfl := hfront.eq_of_length_le hle
  exact ⟨rfl, hlongest.spells.kind_eq hlongest'.spells⟩

/-- What consists of such characters only cannot reach further than all of them do. -/
theorem length_le_takeWhile {p : Char → Bool} {front text : List Char} (hfront : front <+: text)
    (hp : ∀ x ∈ front, p x = true) : front.length ≤ (text.takeWhile p).length := by
  obtain ⟨rest, rfl⟩ := hfront
  rw [List.takeWhile_append_of_pos hp, List.length_append]
  exact Nat.le_add_right _ _

/-- How the front of a text that a lexeme has been cut from fits the classes. -/
inductive Fits (text : List Char) (lexeme : Lexeme) : Prop where
  | token {kind : Token.Kind} {literal : Option Literal} (hfound : lexeme.found = .token kind literal)
      (hlongest : Longest text lexeme.text kind)
      (hsize : kind = .integer → decimal lexeme.text ≤ 2 ^ 63 - 1)
  | tooLarge {fault : LexFault} (hfound : lexeme.found = .fault fault)
      (hlongest : Longest text lexeme.text .integer) (hsize : 2 ^ 63 - 1 < decimal lexeme.text)
  | stuck {fault : LexFault} (hfound : lexeme.found = .fault fault)
      (hnone : ∀ other kind, Spells other kind → ¬ other <+: text)

theorem Spells.continues {c : Char} {cs : List Char} {kind : Token.Kind}
    (hspells : Spells (c :: cs) kind) (hc : startsWord c = true) :
    ∀ x ∈ cs, continuesWord x = true := by
  have hkind := kind_of_word hspells.leads hc
  generalize hword : c :: cs = word at hspells
  cases hspells with
  | identifier _ hcs =>
    cases hword
    simpa [continuesWord] using hcs
  | keyword keyword =>
    rw [← List.all_eq_true]
    cases keyword <;> cases hword <;> decide
  | symbol | integer | float | string => simp at hkind

/-- A word is reserved or not, and in either case it goes on as far as it can. -/
theorem fits_word {c : Char} (hc : startsWord c = true) (cs : List Char) :
    Fits (c :: cs) (Lexeme.stretch Lexeme.word continuesWord c cs) := by
  have hlongest {kind : Token.Kind} (hspells : Spells (c :: cs.takeWhile continuesWord) kind) :
      Longest (c :: cs) (c :: cs.takeWhile continuesWord) kind := by
    refine ⟨hspells, List.cons_prefix_cons.mpr ⟨rfl, List.takeWhile_prefix _⟩, ?_⟩
    intro other otherKind hother hfront
    obtain ⟨rest, rfl, hrest⟩ := hother.of_front hfront
    exact Nat.succ_le_succ (length_le_takeWhile hrest (hother.continues hc))
  cases hkeyword : Keyword.ofWord? (c :: cs.takeWhile continuesWord) with
  | some keyword =>
    have hspelling : keyword.spelling.toList = c :: cs.takeWhile continuesWord := by
      simpa using List.find?_some hkeyword
    have hfound : Lexeme.word (c :: cs.takeWhile continuesWord) = .token (.keyword keyword) none := by
      rw [Lexeme.word, hkeyword]
    refine .token hfound (hlongest ?_) nofun
    rw [← hspelling]
    exact .keyword keyword
  | none =>
    have hfound : Lexeme.word (c :: cs.takeWhile continuesWord) = .token .identifier none := by
      rw [Lexeme.word, hkeyword]
    refine .token hfound (hlongest ?_) nofun
    refine .identifier (by simpa [startsWord] using hc) ?_ ?_
    · intro x hx
      simpa [continuesWord] using List.all_eq_true.mp List.all_takeWhile x hx
    · intro keyword hspelling
      simpa [hspelling] using List.find?_eq_none.mp hkeyword keyword (Keyword.mem_all keyword)

section Number

variable {c : Char} {cs : List Char}

/-- The digits in front of the point of a float are all that the text begins with. -/
theorem takeWhile_of_point {whole fraction text : List Char}
    (hwhole : ∀ x ∈ whole, x.isDigit = true) (hfront : whole ++ '.' :: fraction <+: text) :
    text.takeWhile Char.isDigit = whole ∧ ('.' :: fraction) <+: text.dropWhile Char.isDigit := by
  obtain ⟨rest, rfl⟩ := hfront
  have hpoint : ('.' :: fraction ++ rest).takeWhile Char.isDigit = [] := rfl
  have hpoint' : ('.' :: fraction ++ rest).dropWhile Char.isDigit = '.' :: fraction ++ rest := rfl
  rw [List.append_assoc, List.takeWhile_append_of_pos hwhole, List.dropWhile_append_of_pos hwhole,
    hpoint, hpoint', List.append_nil]
  exact ⟨rfl, List.prefix_append _ _⟩

/-- What begins with a digit is no longer than all digits there are, unless it is a float that
    goes on behind them. -/
theorem Spells.of_digit {other : List Char} {kind : Token.Kind} (hspells : Spells other kind)
    (hc : c.isDigit = true) (hfront : other <+: c :: cs) :
    other.length ≤ (c :: cs.takeWhile Char.isDigit).length ∨
      ∃ fraction, other = c :: cs.takeWhile Char.isDigit ++ '.' :: fraction ∧ fraction ≠ [] ∧
        (∀ x ∈ fraction, x.isDigit = true) ∧ '.' :: fraction <+: cs.dropWhile Char.isDigit := by
  obtain ⟨rest, rfl, _⟩ := hspells.of_front hfront
  have hkind := kind_of_digit hspells.leads hc
  have htake : (c :: cs).takeWhile Char.isDigit = c :: cs.takeWhile Char.isDigit := by simp [hc]
  have hdrop : (c :: cs).dropWhile Char.isDigit = cs.dropWhile Char.isDigit := by simp [hc]
  generalize c :: rest = other at *
  cases hspells with
  | integer _ hdigit =>
    rw [← htake]
    exact .inl (length_le_takeWhile hfront hdigit)
  | float _ hwhole hfraction hdigit =>
    obtain ⟨hdigits, hpoint⟩ := takeWhile_of_point hwhole hfront
    rw [hdrop] at hpoint
    rw [← htake, hdigits]
    exact .inr ⟨_, rfl, hfraction, hdigit, hpoint⟩
  | symbol | keyword | identifier | string => simp at hkind

/-- The digits up to the first other character are an integer, and if no fraction follows
    them, nothing that matches is longer. -/
theorem fits_integer (hc : c.isDigit = true) (rest : List Char)
    (hpoint : ∀ fraction, fraction ≠ [] → (∀ x ∈ fraction, x.isDigit = true) →
      ¬ '.' :: fraction <+: cs.dropWhile Char.isDigit) :
    Fits (c :: cs) ⟨Lexeme.integer (c :: cs.takeWhile Char.isDigit),
      c :: cs.takeWhile Char.isDigit, rest⟩ := by
  have hdigits : ∀ x ∈ c :: cs.takeWhile Char.isDigit, x.isDigit = true :=
    List.forall_mem_cons.mpr ⟨hc, List.all_eq_true.mp List.all_takeWhile⟩
  have hlongest : Longest (c :: cs) (c :: cs.takeWhile Char.isDigit) .integer := by
    refine ⟨.integer (List.cons_ne_nil _ _) hdigits,
      List.cons_prefix_cons.mpr ⟨rfl, List.takeWhile_prefix _⟩, ?_⟩
    intro other kind hspells hfront
    obtain hlength | ⟨fraction, _, hfraction, hdigit, hafter⟩ := hspells.of_digit hc hfront
    · exact hlength
    · exact absurd hafter (hpoint fraction hfraction hdigit)
  by_cases hsize : decimal (c :: cs.takeWhile Char.isDigit) < integerBound
  · exact .token (if_pos hsize) hlongest fun _ => Nat.le_sub_one_of_lt hsize
  · exact .tooLarge (if_neg hsize) hlongest (Nat.lt_of_lt_of_le (by decide) (Nat.not_lt.mp hsize))

theorem fits_number (hc : c.isDigit = true) (cs : List Char) :
    Fits (c :: cs) (Lexeme.number c cs) := by
  unfold Lexeme.number
  dsimp only
  split
  · next d rest hdrop =>
    split
    · next hd =>
      have hcs : cs.takeWhile Char.isDigit ++ '.' :: d :: rest = cs := by
        rw [← hdrop, List.takeWhile_append_dropWhile]
      have hdigit (text : List Char) : ∀ x ∈ text.takeWhile Char.isDigit, x.isDigit = true :=
        List.all_eq_true.mp List.all_takeWhile
      refine .token rfl ⟨?_, ?_, ?_⟩ nofun
      · exact .float (List.cons_ne_nil _ _) (List.forall_mem_cons.mpr ⟨hc, hdigit cs⟩)
          (List.cons_ne_nil _ _) (List.forall_mem_cons.mpr ⟨hd, hdigit rest⟩)
      · conv => rhs; rw [← hcs]
        simp [List.takeWhile_prefix]
      · intro other kind hspells hfront
        obtain hlength | ⟨fraction, rfl, _, hfraction, hafter⟩ := hspells.of_digit hc hfront
        · simp only [List.length_cons, List.length_append] at hlength ⊢
          omega
        · rw [hdrop, List.cons_prefix_cons] at hafter
          have hle := length_le_takeWhile hafter.2 hfraction
          rw [List.takeWhile_cons_of_pos hd] at hle
          simp only [List.length_cons, List.length_append] at hle ⊢
          omega
    · next hd =>
      refine fits_integer hc _ ?_
      intro fraction hfraction hdigit hafter
      obtain ⟨first, others, rfl⟩ := List.exists_cons_of_ne_nil hfraction
      rw [hdrop, List.cons_prefix_cons, List.cons_prefix_cons] at hafter
      exact hd (hafter.2.1 ▸ hdigit first List.mem_cons_self)
  · next hdrop =>
    refine fits_integer hc _ ?_
    rintro fraction hfraction _ ⟨after, hafter⟩
    obtain ⟨first, others, rfl⟩ := List.exists_cons_of_ne_nil hfraction
    exact hdrop first (others ++ after) (by simp [← hafter])

end Number

/-- A string is closed by the first quote that is not escaped, so that no other piece of the
    text is one. -/
theorem fits_string (cs : List Char) : Fits ('"' :: cs) (Lexeme.string cs) := by
  have hmatch {other : List Char} {kind : Token.Kind} (hspells : Spells other kind)
      (hfront : other <+: '"' :: cs) :
      (Quoted.read cs).closed = true ∧ other = '"' :: (Quoted.read cs).text := by
    obtain ⟨rest, rfl, hrest⟩ := hspells.of_front hfront
    have hkind := kind_of_quote hspells.leads
    generalize hother : '"' :: rest = other at hspells
    cases hspells with
    | @string content hcontent =>
      obtain rfl : rest = content ++ ['"'] := List.cons.inj hother |>.2
      obtain ⟨after, hcs⟩ := hrest
      have hsplit : cs = content ++ '"' :: after := by simp [← hcs]
      obtain ⟨hclosed, htext⟩ := Quoted.read_of_content hcontent hsplit
      exact ⟨hclosed, by rw [htext]; rfl⟩
    | symbol | keyword | identifier | integer | float => cases hkind
  cases hclosed : (Quoted.read cs).closed with
  | true =>
    obtain ⟨content, hcontent, htext⟩ := Quoted.exists_content_of_closed hclosed
    have hfront : (Quoted.read cs).text <+: cs := ⟨_, Quoted.text_append_rest cs⟩
    have hfound : (Lexeme.string cs).found =
        .token .string (some (.str (String.ofList (Quoted.read cs).value))) := if_pos hclosed
    refine .token hfound ⟨?_, ?_, ?_⟩ nofun
    · have hspells := Spells.string hcontent
      rwa [List.cons_append, ← htext] at hspells
    · exact List.cons_prefix_cons.mpr ⟨rfl, hfront⟩
    · intro other kind hspells hother
      rw [(hmatch hspells hother).2]
      exact Nat.le_refl _
  | false =>
    have hfound : (Lexeme.string cs).found = .fault .unterminatedString :=
      if_neg (Bool.not_eq_true _ ▸ hclosed)
    refine .stuck hfound ?_
    intro other kind hspells hother
    have hfound := (hmatch hspells hother).1
    rw [hclosed] at hfound
    cases hfound

/-- A symbol at the front of a text is its first character, or its first two. -/
theorem Spells.of_sign {c : Char} {cs other : List Char} {kind : Token.Kind}
    (hspells : Spells other kind) (hquote : c ≠ '"') (hdigit : c.isDigit = false)
    (hword : startsWord c = false) (hfront : other <+: c :: cs) :
    ∃ symbol, Symbol.ofText? other = some symbol ∧
      (other = [c] ∨ ∃ d rest, cs = d :: rest ∧ other = [c, d]) := by
  obtain ⟨rest, rfl, hrest⟩ := hspells.of_front hfront
  obtain ⟨symbol, rfl⟩ := kind_of_sign hspells.leads hquote hdigit hword
  generalize hother : c :: rest = other at hspells
  cases hspells
  have hlength : symbol.spelling.toList.length ≤ 2 := by cases symbol <;> decide
  rw [← hother, List.length_cons] at hlength
  refine ⟨symbol, Symbol.ofText?_spelling symbol, ?_⟩
  rw [← hother]
  match rest with
  | [] => exact .inl rfl
  | [d] =>
    obtain ⟨after, rfl⟩ := hrest
    exact .inr ⟨d, after, rfl, rfl⟩
  | d :: e :: rest => simp at hlength

theorem spells_of_ofText? {text : List Char} {symbol : Symbol}
    (hsymbol : Symbol.ofText? text = some symbol) : Spells text (.symbol symbol) := by
  have hspelling : symbol.spelling.toList = text := by simpa using List.find?_some hsymbol
  exact hspelling ▸ .symbol symbol

section Symbol

variable {c : Char} {cs : List Char} (hquote : c ≠ '"') (hdigit : c.isDigit = false)
  (hword : startsWord c = false)

include hquote hdigit hword

/-- One character is the most that matches if two do not. -/
theorem fits_single (hpair : ∀ d rest, cs = d :: rest → Symbol.ofText? [c, d] = none) :
    Fits (c :: cs) (Lexeme.symbol c cs) := by
  have hother {other : List Char} {kind : Token.Kind} (hspells : Spells other kind)
      (hfront : other <+: c :: cs) : other = [c] ∧ (Symbol.ofText? [c]).isSome = true := by
    obtain ⟨symbol, hsymbol, rfl | ⟨d, rest, hcs, rfl⟩⟩ :=
      hspells.of_sign hquote hdigit hword hfront
    · exact ⟨rfl, by rw [hsymbol]; rfl⟩
    · rw [hpair d rest hcs] at hsymbol
      cases hsymbol
  cases hfound : Symbol.ofText? [c] with
  | some symbol =>
    have hcut : Lexeme.symbol c cs = ⟨.token (.symbol symbol) none, [c], cs⟩ := by
      cases cs with
      | nil => simp only [Lexeme.symbol, hfound]
      | cons d rest => simp only [Lexeme.symbol, hpair d rest rfl, hfound]
    rw [hcut]
    have hfront : [c] <+: c :: cs := List.cons_prefix_cons.mpr ⟨rfl, List.nil_prefix⟩
    refine .token rfl ⟨spells_of_ofText? hfound, hfront, ?_⟩ (fun hkind => by cases hkind)
    intro other kind hspells hfront
    exact Nat.le_of_eq (congrArg List.length (hother hspells hfront).1)
  | none =>
    have hcut : Lexeme.symbol c cs = ⟨.fault (.unexpectedCharacter c), [c], cs⟩ := by
      cases cs with
      | nil => simp only [Lexeme.symbol, hfound]
      | cons d rest => simp only [Lexeme.symbol, hpair d rest rfl, hfound]
    rw [hcut]
    refine .stuck rfl ?_
    intro other kind hspells hfront
    have hsome := (hother hspells hfront).2
    rw [hfound] at hsome
    cases hsome

/-- Of two symbols that match, the one with two characters is taken. -/
theorem fits_symbol (cs : List Char) : Fits (c :: cs) (Lexeme.symbol c cs) := by
  cases cs with
  | nil =>
    refine fits_single hquote hdigit hword ?_
    intro d rest hcs
    cases hcs
  | cons d rest =>
    cases hpair : Symbol.ofText? [c, d] with
    | some symbol =>
      have hcut : Lexeme.symbol c (d :: rest) = ⟨.token (.symbol symbol) none, [c, d], rest⟩ := by
        simp only [Lexeme.symbol, hpair]
      rw [hcut]
      refine .token rfl ⟨spells_of_ofText? hpair, ⟨rest, rfl⟩, ?_⟩ (fun hkind => by cases hkind)
      intro other kind hspells hfront
      obtain ⟨_, _, rfl | ⟨_, _, _, rfl⟩⟩ := hspells.of_sign hquote hdigit hword hfront
      · exact Nat.le_succ 1
      · exact Nat.le_refl 2
    | none =>
      refine fits_single hquote hdigit hword ?_
      intro _ _ hcs
      cases hcs
      exact hpair

end Symbol

/-- Wherever a token or a fault is found, it fits the classes. -/
theorem fits_cut {c : Char} (hc : c ∉ separators) (cs : List Char) : Fits (c :: cs) (cut c cs) := by
  rw [Lexeme.cut_of_not_mem_separators hc]
  split
  · next hquote =>
    subst hquote
    exact fits_string cs
  · next hquote =>
    split
    · next hdigit => exact fits_number hdigit cs
    · next hdigit =>
      split
      · next hword => exact fits_word hword cs
      · next hword => exact fits_symbol hquote (by simpa using hdigit) (by simpa using hword) cs

end Lexis
end KawaiiLang
