import PipeExpr.Proofs.Lexer.Context
import PipeExpr.Value.Json

/-!
JSON strings under the lexer. It has letters of its own behind a backslash, and reads all others as
themselves; so it reads a JSON string as one string, and as the same one exactly if no control character
is in it that it has no letter for.
-/
namespace PipeExpr

namespace Text

/-- No control character, or one that is read back from its JSON form. -/
def Legible (c : Char) : Prop := c.toNat < 0x20 → c = '\t' ∨ c = '\n' ∨ c = '\r'

instance : DecidablePred Legible := fun _ => inferInstanceAs (Decidable (_ → _))

theorem legible_of_le {c : Char} (h : 0x20 ≤ c.toNat) : Legible c :=
  fun hlt => absurd hlt (Nat.not_lt_of_le h)

theorem isNamePart_hexDigits {n : Nat} (h : n < 32) : ∀ d ∈ hexDigits n, isNamePart d = true := by
  have hall : (List.range 32).all (fun n => (hexDigits n).all isNamePart) = true := by decide
  have hn := List.all_eq_true.mp hall n (List.mem_range.mpr h)
  exact List.all_eq_true.mp hn

theorem ne_quote_of_isNamePart {c : Char} (h : isNamePart c = true) :
    c ≠ '"' ∧ c ≠ '\\' ∧ Legible c := by
  rw [Grammar.isNamePart_iff, Grammar.isNameStart_iff] at h
  refine ⟨?_, ?_, legible_of_le (by omega)⟩
  · rintro rfl
    simp at h
  · rintro rfl
    simp at h

end Text

namespace Lexer
open Text

def reread (c : Char) : List Char := if Legible c then [c] else (jsonChar c).tail

/-- A character is written as it is, behind a backslash as a letter that the lexer reads as that
character, or behind a backslash as characters that it reads as themselves. -/
inductive Form (c : Char) : List Char → List Char → Prop where
  | plain : Legible c → c ≠ '"' → c ≠ '\\' → Form c [c] [c]
  | letter {l : Char} : Legible c → unescape l = c → Form c ['\\', l] [c]
  | code {l : Char} {s : List Char} : unescape l = l → (∀ d ∈ l :: s, isNamePart d = true) →
      Form c ('\\' :: l :: s) (l :: s)

theorem jsonLetter?_eq_some {c l : Char} (h : jsonLetter? c = some l) :
    Legible c ∧ unescape l = c ∨ ¬Legible c ∧ unescape l = l ∧ isNamePart l = true := by
  unfold jsonLetter? at h
  split at h
  all_goals first | (obtain rfl := Option.some.inj h; decide) | cases h

theorem jsonLetter?_eq_none {c : Char} (h : jsonLetter? c = none) :
    c ≠ '"' ∧ c ≠ '\\' ∧ (Legible c → 0x20 ≤ c.toNat) := by
  have hletter : ∀ d, (jsonLetter? d).isSome = true → c ≠ d := by
    rintro d hd rfl
    rw [h] at hd
    cases hd
  refine ⟨hletter _ rfl, hletter _ rfl, fun hc => Nat.le_of_not_lt fun hlt => ?_⟩
  obtain heq | heq | heq := hc hlt
  · exact hletter _ rfl heq
  · exact hletter _ rfl heq
  · exact hletter _ rfl heq

theorem form_jsonChar (c : Char) : Form c (jsonChar c) (reread c) := by
  unfold reread jsonChar
  cases hletter : jsonLetter? c with
  | some l =>
    obtain ⟨hc, hl⟩ | ⟨hc, hl, hname⟩ := jsonLetter?_eq_some hletter
    · rw [if_pos hc]
      exact .letter hc hl
    · rw [if_neg hc]
      exact .code hl (by simpa using hname)
  | none =>
    obtain ⟨hquote, hescape, hlegible⟩ := jsonLetter?_eq_none hletter
    dsimp only
    by_cases hc : 0x20 ≤ c.toNat
    · rw [if_pos (legible_of_le hc), if_neg (by omega), if_neg (by omega)]
      exact .plain (legible_of_le hc) hquote hescape
    · have hdigits := isNamePart_hexDigits (n := c.toNat) (by omega)
      rw [if_neg fun h => hc (hlegible h)]
      split
      · exact .code rfl (by simpa using ⟨rfl, rfl, hdigits⟩)
      · rw [if_pos (by omega)]
        exact .code rfl (by simpa using ⟨rfl, rfl, hdigits⟩)

theorem scanBody_plain {xs s slice content rest : List Char}
    (hxs : ∀ c ∈ xs, c ≠ '"' ∧ c ≠ '\\') (h : scanBody '"' s = .closed slice content rest) :
    scanBody '"' (xs ++ s) = .closed (xs ++ slice) (xs ++ content) rest := by
  induction xs with
  | nil => exact h
  | cons c xs ih =>
    obtain ⟨⟨hquote, hescape⟩, hxs⟩ := List.forall_mem_cons.mp hxs
    rw [List.cons_append, scanBody.eq_def]
    simp only [if_neg hquote, if_neg hescape, ih hxs]
    rfl

theorem scanBody_escape {l : Char} {s slice content rest : List Char}
    (h : scanBody '"' s = .closed slice content rest) :
    scanBody '"' ('\\' :: l :: s) = .closed ('\\' :: l :: slice) (unescape l :: content) rest := by
  rw [scanBody.eq_def]
  simp [h, Body.push]

theorem scanBody_form {c : Char} {text content' s slice content rest : List Char}
    (hc : Form c text content') (h : scanBody '"' s = .closed slice content rest) :
    scanBody '"' (text ++ s) = .closed (text ++ slice) (content' ++ content) rest := by
  cases hc with
  | plain _ hquote hescape => exact scanBody_plain (by simpa using ⟨hquote, hescape⟩) h
  | @letter l _ hl =>
    have hescape := scanBody_escape (l := l) h
    rw [hl] at hescape
    exact hescape
  | @code l t hl hname =>
    obtain ⟨-, ht⟩ := List.forall_mem_cons.mp hname
    have hplain := scanBody_plain (fun d hd => (ne_quote_of_isNamePart (ht d hd)).imp_right And.left) h
    have hescape := scanBody_escape (l := l) hplain
    rw [hl] at hescape
    exact hescape

/-- The lexer finds the end of a JSON string where it is. -/
theorem scanBody_jsonEscaped (s rest : List Char) :
    scanBody '"' (jsonEscaped s ++ '"' :: rest) =
      .closed (jsonEscaped s ++ ['"']) (s.flatMap reread) rest := by
  induction s with
  | nil =>
    rw [jsonEscaped, List.nil_append, List.nil_append, scanBody.eq_def]
    simp
  | cons c s ih =>
    rw [jsonEscaped_cons, List.append_assoc, List.append_assoc, List.flatMap_cons]
    exact scanBody_form (form_jsonChar c) ih

theorem Form.legible {c : Char} {text content : List Char} (h : Form c text content) :
    ∀ d ∈ content, Legible d := by
  cases h with
  | plain hc => simpa using hc
  | letter hc => simpa using hc
  | code _ hname => exact fun d hd => (ne_quote_of_isNamePart (hname d hd)).2.2

/-- Nothing that is read from a JSON string is illegible, so a text with something illegible in it is
not read back. -/
theorem flatMap_reread_eq_self {s : List Char} : s.flatMap reread = s ↔ ∀ c ∈ s, Legible c := by
  constructor
  · intro h c hc
    rw [← h] at hc
    obtain ⟨d, -, hd⟩ := List.mem_flatMap.mp hc
    exact (form_jsonChar d).legible c hd
  · intro h
    have hself : s.map reread = s.map fun c => [c] :=
      List.map_congr_left fun c hc => if_pos (h c hc)
    rw [List.flatMap_def, hself, ← List.flatMap_def, List.flatMap_singleton']

theorem scans_stringChars (symbols : List String) (s : String) :
    Scans symbols (Json.stringChars s) [.string (String.ofList (s.toList.flatMap reread))] [] := by
  have hbody := scanBody_jsonEscaped s.toList []
  have hscan : scan symbols ('"' :: (jsonEscaped s.toList ++ ['"'])) =
      ⟨'"' :: (jsonEscaped s.toList ++ ['"']),
        .ok (.string (String.ofList (s.toList.flatMap reread))), []⟩ := by
    rw [scan, if_neg (by simp [Char.isDigit]), if_neg (by decide), if_pos (by decide), scanString,
      hbody]
  exact scans_cons rfl hscan (by simp) (.done rfl)

theorem lexesTo_string_iff {symbols : List String} {s t : String} :
    LexesTo symbols (Value.string s).text [.string t] ↔
      String.ofList (s.toList.flatMap reread) = t := by
  have htext : (Value.string s).text = String.ofList (Json.stringChars s) := by
    rw [Value.text, Json.text, Value.toJson, Json.chars]
  have hread : LexesTo symbols (Value.string s).text
      [.string (String.ofList (s.toList.flatMap reread))] := by
    rw [htext]
    exact lexesTo_of_scans (scans_stringChars symbols s) (Nat.succ_pos _)
  constructor
  · intro h
    simpa using hread.symm.trans h
  · intro h
    rwa [h] at hread

/-- A backspace is a `b` behind a backslash, and is read back as the letter. -/
example : LexesTo [] (Value.string "\x08").text [.string "b"] := lexesTo_string_iff.mpr rfl

/-- Whatever the symbols are, the JSON string of a text is read as that text and nothing else exactly if
the text has no control character but tabs, line feeds and carriage returns. -/
theorem lexesTo_string_self_iff (symbols : List String) (s : String) :
    LexesTo symbols (Value.string s).text [.string s] ↔
      ∀ c ∈ s.toList, c.toNat < 0x20 → c = '\t' ∨ c = '\n' ∨ c = '\r' := by
  rw [lexesTo_string_iff, ← String.toList_inj, String.toList_ofList]
  exact flatMap_reread_eq_self

end Lexer
end PipeExpr
