import KawaiiLang.Proofs.Token.Classes

namespace KawaiiLang

namespace Quoted

/-- The reading with more text behind what is left. -/
def followedBy (inner : Quoted) (more : List Char) : Quoted :=
  { inner with rest := inner.rest ++ more }

theorem read_of_plain {c : Char} (hquote : c ≠ '"') (hbackslash : c ≠ '\\') (rest : List Char) :
    read (c :: rest) =
      if endsLine c then ⟨[], [], c :: rest, false⟩ else extend [c] [c] (read rest) := by
  rw [read]
  · exact hquote
  · exact fun _ _ hc _ => hbackslash hc

theorem rest_suffix (cs : List Char) : (read cs).rest <:+ cs :=
  ⟨_, text_append_rest cs⟩

theorem read_of_text_eq_nil {cs : List Char} (htext : (read cs).text = []) :
    read cs = ⟨[], [], cs, false⟩ := by
  revert htext
  fun_cases read cs with
  | case1 => intro _; rfl
  | case2 => exact nofun
  | case3 => exact nofun
  | case4 => exact nofun
  | case5 => intro _; rfl
  | case6 => exact nofun

/-- Where all of a text is left, nothing has been read of it. -/
theorem read_of_suffix_rest {cs : List Char} (hrest : cs <:+ (read cs).rest) :
    read cs = ⟨[], [], cs, false⟩ := by
  refine read_of_text_eq_nil ?_
  have hlength := congrArg List.length (text_append_rest cs)
  rw [List.length_append] at hlength
  have hle := hrest.length_le
  exact List.length_eq_zero_iff.mp (by omega)

theorem read_append_of_suffix {cs more : List Char} (hrest : more <:+ (read (cs ++ more)).rest) :
    read (cs ++ more) = (read cs).followedBy more := by
  fun_induction read cs with
  | case1 => exact read_of_suffix_rest hrest
  | case2 => rfl
  | case3 c rest d hescape ih =>
    simp only [List.cons_append, read, hescape] at hrest ⊢
    rw [ih hrest]
    rfl
  | case4 c rest hescape ih =>
    simp only [List.cons_append, read, hescape] at hrest ⊢
    rw [← List.cons_append] at hrest ⊢
    rw [ih hrest]
    rfl
  | case5 c rest hquote hescape hend =>
    have hbackslash : c ≠ '\\' := by
      rintro rfl
      cases hend
    rw [List.cons_append, read_of_plain hquote hbackslash, if_pos hend]
    rfl
  | case6 c rest hquote hescape hend ih =>
    by_cases hbackslash : c = '\\'
    · subst hbackslash
      cases rest with
      | nil =>
        -- The backslash is the last character, and escapes nothing behind it: else that would
        -- have been read, too.
        cases more with
        | nil => rfl
        | cons d more =>
          cases hescape : escape? d with
          | some e =>
            simp only [List.cons_append, List.nil_append, read, hescape] at hrest
            have hle := hrest.length_le
            have hlt := (rest_suffix more).length_le
            simp only [extend, List.length_cons] at hle
            omega
          | none =>
            simp only [List.cons_append, List.nil_append, read, hescape] at hrest ⊢
            rw [read_of_suffix_rest hrest]
            rfl
      | cons d rest => exact absurd rfl (hescape d rest rfl)
    · rw [List.cons_append, read_of_plain hquote hbackslash, if_neg hend] at hrest ⊢
      rw [ih hrest]
      rfl

/-- Nothing is read behind the closing quote. -/
theorem read_append_of_closed {cs : List Char} (hclosed : (read cs).closed = true)
    (more : List Char) : read (cs ++ more) = (read cs).followedBy more := by
  obtain ⟨content, hcontent, htext⟩ := exists_content_of_closed hclosed
  have hall := text_append_rest cs
  rw [htext] at hall
  have hlonger : cs ++ more = content ++ '"' :: ((read cs).rest ++ more) := by
    conv => lhs; rw [← hall]
    simp
  obtain ⟨-, htext'⟩ := read_of_content hcontent hlonger
  have hall' := text_append_rest (cs ++ more)
  rw [htext', hlonger, List.append_assoc, List.append_cancel_left_eq] at hall'
  refine read_append_of_suffix ⟨(read cs).rest, ?_⟩
  rw [hlonger]
  exact (List.cons.inj hall').2.symm

/-- A string does not run over the end of its line. -/
theorem not_mem_text {c : Char} (hc : endsLine c = true) (cs : List Char) : c ∉ (read cs).text := by
  have hplain {d : Char} (hd : endsLine d = false) : c ≠ d := by
    rintro rfl
    rw [hc] at hd
    cases hd
  fun_induction read cs with
  | case1 => exact List.not_mem_nil
  | case2 => simpa using hplain rfl
  | case3 d rest e hescape ih =>
    simpa [extend] using ⟨hplain rfl, hplain (endsLine_of_escape? hescape), ih⟩
  | case4 d rest hescape ih => simpa [extend] using ⟨hplain rfl, ih⟩
  | case5 => exact List.not_mem_nil
  | case6 d rest hquote hescape hend ih =>
    simpa [extend] using ⟨hplain (Bool.not_eq_true _ ▸ hend), ih⟩

end Quoted

namespace Lexeme

/-- The lexeme with more text behind what is left. -/
def followedBy (lexeme : Lexeme) (more : List Char) : Lexeme :=
  { lexeme with rest := lexeme.rest ++ more }

section

variable {c : Char} {cs more : List Char}

/-- A run of characters ends in front of `more` in the same way as at the end of the text. -/
theorem run_append_of_suffix {p : Char → Bool} (hrest : more <:+ (cs ++ more).dropWhile p) :
    (cs ++ more).takeWhile p = cs.takeWhile p ∧
      (cs ++ more).dropWhile p = cs.dropWhile p ++ more := by
  induction cs with
  | nil =>
    have hdrop := hrest.eq_of_length_le (List.dropWhile_suffix p).length_le
    have hall := List.takeWhile_append_dropWhile (p := p) (l := more)
    rw [List.nil_append] at hdrop ⊢
    rw [← hdrop, List.append_left_eq_self] at hall
    exact ⟨hall, hdrop.symm⟩
  | cons d cs ih =>
    rw [List.cons_append, List.takeWhile_cons, List.dropWhile_cons, List.takeWhile_cons,
      List.dropWhile_cons]
    split
    · next hd =>
      rw [List.cons_append, List.dropWhile_cons_of_pos hd] at hrest
      obtain ⟨htake, hdrop⟩ := ih hrest
      exact ⟨congrArg (d :: ·) htake, hdrop⟩
    · exact ⟨rfl, rfl⟩

theorem stretch_append_of_suffix {found : List Char → Found} {p : Char → Bool}
    (hrest : more <:+ (stretch found p c (cs ++ more)).rest) :
    stretch found p c (cs ++ more) = (stretch found p c cs).followedBy more := by
  obtain ⟨htake, hdrop⟩ := run_append_of_suffix hrest
  simp only [stretch, htake, hdrop, followedBy]

theorem string_append_of_suffix (hrest : more <:+ (string (cs ++ more)).rest) :
    string (cs ++ more) = (string cs).followedBy more := by
  rw [string, Quoted.read_append_of_suffix hrest]
  rfl

theorem number_append_of_suffix (hrest : more <:+ (number c (cs ++ more)).rest) :
    number c (cs ++ more) = (number c cs).followedBy more := by
  obtain ⟨d, rest, hpoint, hd, hlong⟩ | ⟨hpoint, hlong⟩ := number_cases c (cs ++ more)
  · -- The fraction ends in front of `more`, and so begins there.
    rw [hlong] at hrest
    obtain ⟨front, rfl⟩ := hrest.trans (List.dropWhile_suffix _)
    have hbehind : more <:+ (cs ++ more).dropWhile Char.isDigit := by
      rw [hpoint]
      exact ⟨'.' :: d :: front, rfl⟩
    obtain ⟨htake, hdrop⟩ := run_append_of_suffix hbehind
    obtain ⟨htake', hdrop'⟩ := run_append_of_suffix hrest
    have hshort : cs.dropWhile Char.isDigit = '.' :: d :: front :=
      List.append_cancel_right (hdrop.symm.trans hpoint)
    obtain ⟨e, others, hother, _, hnumber⟩ | ⟨hnone, _⟩ := number_cases c cs
    · rw [hshort] at hother
      cases hother
      rw [hlong, hnumber, htake, htake', hdrop']
      rfl
    · rw [hnone d front hshort] at hd
      cases hd
  · rw [hlong] at hrest
    obtain ⟨htake, hdrop⟩ := run_append_of_suffix hrest
    obtain ⟨d, rest, hother, hd, _⟩ | ⟨_, hnumber⟩ := number_cases c cs
    · rw [hpoint d (rest ++ more) (by rw [hdrop, hother]; rfl)] at hd
      cases hd
    · rw [hlong, hnumber, htake, hdrop]
      rfl

/-- Where no symbol of two characters can be read, one character is read. -/
theorem symbol_of_single (hpair : ∀ d rest, cs = d :: rest → Symbol.ofText? [c, d] = none) :
    symbol c cs = (symbol c []).followedBy cs := by
  cases cs with
  | nil =>
    simp only [symbol]
    split <;> rfl
  | cons d rest =>
    simp only [symbol, hpair d rest rfl]
    split <;> rfl

theorem symbol_append_of_suffix (hrest : more <:+ (symbol c (cs ++ more)).rest) :
    symbol c (cs ++ more) = (symbol c cs).followedBy more := by
  cases cs with
  | cons d rest =>
    simp only [symbol, List.cons_append]
    split
    · rfl
    · split <;> rfl
  | nil =>
    refine symbol_of_single ?_
    rintro d rest rfl
    refine Option.eq_none_iff_forall_ne_some.mpr fun sign hsign => ?_
    simp only [symbol, List.nil_append, hsign] at hrest
    have hle := hrest.length_le
    rw [List.length_cons] at hle
    omega

/-- What a lexeme is does not depend on the text behind it: if one is cut off in front of `more`,
    it is cut off in the same way where nothing comes behind it. -/
theorem cut_append_of_suffix (hrest : more <:+ (cut c (cs ++ more)).rest) :
    cut c (cs ++ more) = (cut c cs).followedBy more := by
  revert hrest
  unfold cut
  split
  · exact fun _ => rfl
  split
  · exact stretch_append_of_suffix
  split
  · exact string_append_of_suffix
  split
  · exact number_append_of_suffix
  split
  · exact stretch_append_of_suffix
  · exact symbol_append_of_suffix

/-- What is cut off in front of a character that it does not have ends there at the latest. -/
theorem suffix_of_not_mem {front rest text : List Char} {stop : Char}
    (hall : front ++ rest = text ++ stop :: more) (hstop : stop ∉ front) :
    stop :: more <:+ rest := by
  obtain ⟨others, -, rfl⟩ | ⟨others, rfl, hothers⟩ := List.append_eq_append_iff.mp hall
  · exact List.suffix_append _ _
  · cases others with
    | nil => exact hothers ▸ List.suffix_rfl
    | cons x others =>
      obtain ⟨rfl, -⟩ := List.cons.inj hothers
      simp at hstop

/-- No token begins with a separator. -/
theorem not_mem_separators_of_token {kind : Token.Kind} {literal : Option Literal}
    (hfound : (cut c cs).found = .token kind literal) : c ∉ separators := by
  intro hc
  obtain hblank | rfl : isBlank c = true ∨ c = '#' := by
    simpa [separators, isBlank, or_assoc] using hc
  · rw [cut, if_pos hblank] at hfound
    cases hfound
  · cases hfound

/-- Apart from strings, what begins with no separator has none in it. -/
theorem plain_cut (hc : c ∉ separators) (hquote : c ≠ '"') (cs : List Char) :
    ∀ x ∈ (cut c cs).text, x ∉ separators := by
  rw [cut_of_not_mem_separators hc, if_neg hquote]
  split
  · next hdigit => exact plain_number hdigit cs
  split
  · next hword => exact plain_word hword cs
  · exact plain_symbol hc cs

/-- Behind its first character a lexeme has no line feed. -/
theorem exists_text_cut (c : Char) (cs : List Char) :
    ∃ others, (cut c cs).text = c :: others ∧ '\n' ∉ others := by
  by_cases hc : c ∈ separators
  · obtain hblank | rfl : isBlank c = true ∨ c = '#' := by
      simpa [separators, isBlank, or_assoc] using hc
    · exact ⟨[], by rw [cut, if_pos hblank], List.not_mem_nil⟩
    · refine ⟨cs.takeWhile (· ≠ '\n'), rfl, ?_⟩
      intro hfeed
      simpa using List.all_eq_true.mp List.all_takeWhile '\n' hfeed
  · by_cases hquote : c = '"'
    · subst hquote
      exact ⟨_, rfl, Quoted.not_mem_text rfl cs⟩
    · have hplain := plain_cut hc hquote cs
      have hall := cut_text_append_rest c cs
      cases htext : (cut c cs).text with
      | nil => exact absurd htext (cut_text_ne_nil c cs)
      | cons d others =>
        rw [htext] at hall hplain
        obtain ⟨rfl, -⟩ := List.cons.inj hall
        exact ⟨others, rfl, fun hfeed => hplain '\n' (.tail d hfeed) (by decide)⟩

/-- The first lexeme of a text is that of every piece which goes on up to where it ends, or
    further. -/
theorem exists_cut_of_rest {front : List Char} (hrest : (cut c cs).rest = front ++ more) :
    ∃ others, (cut c cs).text ++ front = c :: others ∧
      cut c others = ⟨(cut c cs).found, (cut c cs).text, front⟩ := by
  obtain ⟨others, htext, -⟩ := exists_text_cut c cs
  have hall := cut_text_append_rest c cs
  rw [htext, hrest, List.cons_append, ← List.append_assoc] at hall
  obtain ⟨-, rfl⟩ := List.cons.inj hall
  have hcut := cut_append_of_suffix (hrest ▸ List.suffix_append front more)
  rw [hcut] at hrest htext ⊢
  refine ⟨others ++ front, congrArg (· ++ front) htext, ?_⟩
  cases hlexeme : cut c (others ++ front) with
  | mk found text rest =>
    rw [hlexeme] at hrest
    rw [List.append_cancel_right (show rest ++ more = front ++ more from hrest)]
    rfl

/-- The first lexeme of a text is cut off in the same way whether there is a line feed behind
    the text or nothing at all. -/
theorem cut_append_lineFeed (c : Char) (cs more : List Char) :
    cut c (cs ++ '\n' :: more) = (cut c cs).followedBy ('\n' :: more) := by
  obtain ⟨others, htext, hfeed⟩ := exists_text_cut c (cs ++ '\n' :: more)
  have hall := cut_text_append_rest c (cs ++ '\n' :: more)
  rw [htext] at hall
  exact cut_append_of_suffix (suffix_of_not_mem (List.cons.inj hall).2 hfeed)

/-- A token that is a whole text is also the first one where a blank and more text come behind. -/
theorem cut_append_blank {kind : Token.Kind} {literal : Option Literal}
    (hcut : cut c cs = ⟨.token kind literal, c :: cs, []⟩) (more : List Char) :
    cut c (cs ++ ' ' :: more) = ⟨.token kind literal, c :: cs, ' ' :: more⟩ := by
  have hc := not_mem_separators_of_token (congrArg Lexeme.found hcut)
  have hsuffix : ' ' :: more <:+ (cut c (cs ++ ' ' :: more)).rest := by
    by_cases hquote : c = '"'
    · subst hquote
      have hclosed : (Quoted.read cs).closed = true := by
        by_contra hopen
        have hfound := congrArg Lexeme.found hcut
        rw [show cut '"' cs = string cs from rfl, string, if_neg hopen] at hfound
        cases hfound
      rw [show cut '"' (cs ++ ' ' :: more) = string (cs ++ ' ' :: more) from rfl, string,
        Quoted.read_append_of_closed hclosed]
      exact List.suffix_append _ _
    · have hplain := plain_cut hc hquote (cs ++ ' ' :: more)
      have hall : _ ++ (cut c (cs ++ ' ' :: more)).rest = (c :: cs) ++ ' ' :: more :=
        cut_text_append_rest c _
      exact suffix_of_not_mem hall fun hmem => hplain ' ' hmem (by decide)
  rw [cut_append_of_suffix hsuffix, hcut]
  rfl

end

end Lexeme

end KawaiiLang
