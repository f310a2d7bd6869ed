import KawaiiLang.Proofs.Token.LongestMatch
import KawaiiLang.Proofs.Token.Resumption
import KawaiiLang.Proofs.Token.Spelling

namespace KawaiiLang

open Lexeme (Cuts cut)

namespace Quoted

/-- How a character is written inside of a string literal. -/
def escaped : Char → List Char
  | '\\' => ['\\', '\\']
  | '"' => ['\\', '"']
  | '\n' => ['\\', 'n']
  | '\t' => ['\\', 't']
  | c => [c]

/-- Apart from a carriage return, every character is read back as itself, whatever comes
    behind it. -/
theorem read_escaped {c : Char} (hc : c ≠ '\r') (rest : List Char) :
    read (escaped c ++ rest) = extend [c] (escaped c) (read rest) := by
  unfold escaped
  split
  · rfl
  · rfl
  · rfl
  · rfl
  · next hbackslash hquote hfeed _ =>
    have hline : endsLine c = false := by simpa [endsLine] using ⟨hfeed, hc⟩
    exact (read_of_plain hquote hbackslash rest).trans (if_neg (Bool.eq_false_iff.mp hline))

theorem read_flatMap_escaped {value : List Char} (hvalue : '\r' ∉ value) (rest : List Char) :
    read (value.flatMap escaped ++ '"' :: rest) =
      ⟨value, value.flatMap escaped ++ ['"'], rest, true⟩ := by
  induction value with
  | nil => rfl
  | cons c value ih =>
    obtain ⟨hc, hvalue⟩ := List.ne_and_not_mem_of_not_mem_cons hvalue
    rw [List.flatMap_cons, List.append_assoc, read_escaped (Ne.symm hc), ih hvalue]
    simp [extend]

/-- There is no escape for a carriage return, and one that is not escaped ends the line. -/
theorem not_mem_value (cs : List Char) : '\r' ∉ (read cs).value := by
  fun_induction read cs with
  | case1 => exact List.not_mem_nil
  | case2 => exact List.not_mem_nil
  | case3 c rest d hescape ih =>
    have hd : '\r' ≠ d := by
      rintro rfl
      unfold escape? at hescape
      split at hescape <;> cases hescape
    simpa [extend] using ⟨hd, ih⟩
  | case4 c rest hescape ih => simpa [extend] using ih
  | case5 => exact List.not_mem_nil
  | case6 c rest hquote hescape hend ih =>
    have hc : '\r' ≠ c := by
      rintro rfl
      exact hend rfl
    simpa [extend] using ⟨hc, ih⟩

end Quoted

/-- A token that is a string stands for what has been read between its quotes. -/
theorem Lexeme.literal_of_string {c : Char} {cs : List Char} {literal : Option Literal}
    (hfound : (cut c cs).found = .token .string literal) :
    literal = some (.str (String.ofList (Quoted.read cs).value)) := by
  have hquote : c = '"' := by
    cases Lexis.fits_cut (not_mem_separators_of_token hfound) cs with
    | token hother hlongest =>
      rw [hfound] at hother
      cases hother
      obtain ⟨others, htext, -⟩ := hlongest.spells.of_front hlongest.front
      have hspells := hlongest.spells
      rw [htext] at hspells
      exact of_decide_eq_true hspells.leads
    | tooLarge hother | stuck hother =>
      rw [hfound] at hother
      cases hother
  subst hquote
  rw [show cut '"' cs = string cs from rfl, string] at hfound
  dsimp only at hfound
  split at hfound <;> cases hfound
  rfl

namespace Token

/-- The string literal in which `value` is written. -/
def quoted (value : String) : String :=
  String.ofList ('"' :: value.toList.flatMap Quoted.escaped ++ ['"'])

/-- A string literal with the value, at the start of a text and with nothing behind it. -/
def quotedTokens (value : String) : List Token :=
  [{ kind := .string, lexeme := quoted value, literal := some (.str value),
     span := ⟨0, (quoted value).length⟩, position := .start },
   .endAt (Mark.start.after (quoted value).toList)]

theorem toList_quoted (value : String) :
    (quoted value).toList = '"' :: (value.toList.flatMap Quoted.escaped ++ ['"']) := by
  simp [quoted]

/-- A string without carriage returns is read back from its literal. -/
theorem ofSource_quoted {value : String} (hvalue : '\r' ∉ value.toList) :
    ofSource (quoted value) = .ok (quotedTokens value) := by
  have hcut : cut '"' (value.toList.flatMap Quoted.escaped ++ ['"']) =
      ⟨.token .string (some (.str value)), (quoted value).toList, []⟩ := by
    rw [show cut '"' _ = Lexeme.string _ from rfl, Lexeme.string,
      Quoted.read_flatMap_escaped hvalue]
    simp [toList_quoted]
  have hcuts := Cuts.of_cut hcut (.nil (Mark.start.after (quoted value).toList))
  rw [← toList_quoted] at hcuts
  rw [ofSource_of_cuts hcuts]
  simp [Lexeme.tokenAt, quotedTokens, Mark.start, ← String.length_toList]

theorem Alone.exists_value {token : Token} (halone : token.Alone) (hkind : token.kind = .string) :
    ∃ value, token.literal = some (.str value) ∧ '\r' ∉ value.toList := by
  obtain ⟨c, cs, -, hcut⟩ := halone
  rw [hkind] at hcut
  refine ⟨_, Lexeme.literal_of_string (congrArg Lexeme.found hcut), ?_⟩
  rw [String.toList_ofList]
  exact Quoted.not_mem_value cs

end Token

namespace Lexer

variable {source : String} {scans : Nat}

theorem alone_completed (text source : String) (offset : Nat) :
    ∀ word ∈ (completed text).map (·.within source offset), word.Alone := by
  obtain ⟨_, -, hcuts⟩ := exists_cuts_completed text
  refine List.forall_mem_map.mpr fun word hword => ?_
  have halone := hcuts.alone hword
  exact halone

theorem alone_pending (source : String) (scans : Nat) :
    ∀ word ∈ (afterScans source scans).pending.toList, word.Alone := by
  induction scans with
  | zero => exact List.forall_mem_nil _
  | succ scans ih =>
    cases hscan : (afterScans source scans).scan.1 with
    | ok tokens =>
      rw [show afterScans source (scans + 1) = _ from afterScans_of_success hscan 0]
      exact List.forall_mem_nil _
    | error error =>
      rw [(error_afterScans hscan).2]
      exact List.forall_mem_append.mpr ⟨ih, alone_completed _ _ _⟩

/-- Whatever errors came before: apart from the end mark, the lexeme of every token that is handed
    out reads as that token. -/
theorem alone_of_mem {tokens : List Token} (hscan : (afterScans source scans).scan.1 = .ok tokens)
    {token : Token} (htoken : token ∈ tokens) (hkind : token.kind ≠ .endOfInput) : token.Alone := by
  rw [ok_afterScans hscan] at htoken
  obtain hword | hstop := List.mem_append.mp htoken
  · obtain hword | hword := List.mem_append.mp hword
    · exact alone_pending source scans token hword
    · exact alone_completed _ _ _ token hword
  · rw [List.mem_singleton.mp hstop] at hkind
    exact absurd rfl hkind

/-- String literals stand for exactly the strings without carriage returns: each of these is read
    back from its literal, and what is read of any string literal, errors in front of it or not,
    is one of these. -/
theorem strings_of_literals :
    (∀ value : String, '\r' ∉ value.toList →
      Token.ofSource (Token.quoted value) = .ok (Token.quotedTokens value)) ∧
    ∀ source scans tokens, (afterScans source scans).scan.1 = .ok tokens →
      ∀ token ∈ tokens, token.kind = .string →
        ∃ value, token.literal = some (.str value) ∧ '\r' ∉ value.toList ∧
          Token.ofSource (Token.quoted value) = .ok (Token.quotedTokens value) := by
  refine ⟨fun value => Token.ofSource_quoted, ?_⟩
  intro source scans tokens hscan token htoken hkind
  have halone := alone_of_mem hscan htoken (by rw [hkind]; exact nofun)
  obtain ⟨value, hliteral, hvalue⟩ := halone.exists_value hkind
  exact ⟨value, hliteral, hvalue, Token.ofSource_quoted hvalue⟩

/-- A string with a backslash that escapes nothing, and behind an error another one. -/
def mangled : String :=
  "\"a\\q\"@\"\\\\n\""

/-- Backslashes are doubled where the string is written again. -/
theorem strings_of_literals_mangled :
    Token.ofSource (Token.quoted "\\n\t\"") = .ok (Token.quotedTokens "\\n\t\"") ∧
    ∃ tokens, (afterScans mangled 1).scan.1 = .ok tokens ∧
      tokens.map (·.literal) = [some (.str "a\\q"), some (.str "\\n"), none] ∧
      Token.quoted "a\\q" = "\"a\\\\q\"" ∧
      ∀ token ∈ tokens, token.kind = .string →
        ∃ value, token.literal = some (.str value) ∧ '\r' ∉ value.toList ∧
          Token.ofSource (Token.quoted value) = .ok (Token.quotedTokens value) := by
  obtain ⟨hread, hliterals⟩ := strings_of_literals
  refine ⟨hread _ (by decide +kernel), ?_⟩
  have hmangled : (afterScans mangled 1).scan.1.toOption.map (·.map (·.literal)) =
      some [some (.str "a\\q"), some (.str "\\n"), none] := by decide +kernel
  cases hscan : (afterScans mangled 1).scan.1 with
  | error error =>
    rw [hscan] at hmangled
    cases hmangled
  | ok tokens =>
    rw [hscan] at hmangled
    exact ⟨tokens, rfl, Option.some.inj hmangled, by decide +kernel, hliterals _ _ tokens hscan⟩

end Lexer
end KawaiiLang
