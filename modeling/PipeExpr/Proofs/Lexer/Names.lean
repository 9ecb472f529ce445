import Mathlib.Tactic.TFAE
import PipeExpr.Proofs.Lexer.Bytes
import PipeExpr.Proofs.Lexer.Sources

/-!
The notions of a name. Names are registered by their bytes, written behind a point by their characters,
and read by a lexer that passes over a text; `isName_tfae` says that these are the same names, with
keywords among them.
-/
namespace PipeExpr
open Lexer
variable {symbols : List String} {text : String}

/-- What a name is read as: itself, or a value if it is a keyword. -/
def Token.IsNameOf (text : String) (t : Token) : Prop := t = .identifier text ∨ ∃ k, t = .keyword k

/-- The lexer finds the text to be one name, from its first byte to its last, and then its end. -/
def LexesToName (symbols : List String) (text : String) : Prop :=
  ∃ t, t.IsNameOf text ∧ lexemes symbols text =
    [⟨0, text.utf8ByteSize, .ok t⟩, ⟨text.utf8ByteSize, text.utf8ByteSize, .ok .eof⟩]

def Bytes.LexesToName (symbols : List String) (text : String) : Prop :=
  ∃ t, t.IsNameOf text ∧ readings symbols text =
    [⟨0, text.utf8ByteSize, .ok t⟩, ⟨text.utf8ByteSize, text.utf8ByteSize, .ok .eof⟩]

namespace Cursor

theorem readings_atEnd (symbols : List String) (limit offset stop : Nat) :
    readings symbols (limit + 1) ⟨[], offset, 0, stop⟩ = [⟨offset, offset, .ok .eof⟩] := rfl

theorem next_atStart_of_isName (symbols : List String) (h : Text.isName text.toList = true) :
    (atStart text).next symbols = (⟨0, text.utf8ByteSize, .ok (Token.ofName text)⟩,
      ⟨[], text.utf8ByteSize, 0, text.utf8ByteSize⟩) := by
  have hdrop := dropWhile_isBlank_of_isName h
  have htake : text.toList.takeWhile isBlank = [] := by
    have hsplit := List.takeWhile_append_dropWhile (p := isBlank) (l := text.toList)
    rw [hdrop] at hsplit
    exact List.append_left_eq_self.mp hsplit
  have hscan := scan_of_isName symbols h
  simp only [next, readToken, atStart, if_true, htake, hdrop, hscan, byteLength, Nat.zero_add,
    Bytes.byteLength_toList]

end Cursor

theorem lexemes_of_isName (symbols : List String) (h : Text.isName text.toList = true) :
    lexemes symbols text = [⟨0, text.utf8ByteSize, .ok (Token.ofName text)⟩,
      ⟨text.utf8ByteSize, text.utf8ByteSize, .ok .eof⟩] := by
  -- a name has a byte, so the limit leaves room for the reading of the end
  obtain ⟨n, hn⟩ : ∃ n, text.utf8ByteSize = n + 1 := by
    obtain ⟨c, s, hcs, -⟩ := Text.isName_eq_cons h
    have hpos := byteLength_pos (s := text.toList) (by simp [hcs])
    rw [Bytes.byteLength_toList] at hpos
    exact ⟨text.utf8ByteSize - 1, by omega⟩
  have hnext := Cursor.next_atStart_of_isName symbols h
  rw [lexemes, Bytes.byteLength_toList, Cursor.readings, hnext]
  dsimp only
  split
  · next he => exact absurd (Except.ok.inj he) (ofName_ne_eof text)
  · rw [hn, Cursor.readings_atEnd]

theorem LexesToName.isName (hsymbols : "" ∉ symbols) (h : LexesToName symbols text) :
    Text.isName text.toList = true := by
  obtain ⟨t, ht, hlexemes⟩ := h
  obtain ⟨s, hscan, hsource⟩ := exists_source_of_mem hsymbols (hlexemes ▸ List.mem_cons_self) rfl
  -- nothing stands in front of the token or behind it, blanks included
  have hsplit : text.toList = [] ++ text.toList ++ [] := by simp
  have hwhole : Lexeme.source text ⟨0, text.utf8ByteSize, .ok t⟩ = text.toList :=
    source_between hsplit rfl (by rw [Bytes.byteLength_toList, byteLength, Nat.zero_add])
  rw [← hwhole, hsource]
  exact (taken_of_scan hscan).isName (ht.imp_left fun he => ⟨text, he⟩)

theorem Bytes.lexesToName_iff (hsymbols : "" ∉ symbols) :
    Bytes.LexesToName symbols text ↔ PipeExpr.LexesToName symbols text := by
  refine exists_congr fun t => and_congr_right fun _ => ?_
  exact readings_eq_iff hsymbols
    [(0, text.utf8ByteSize, t), (text.utf8ByteSize, text.utf8ByteSize, .eof)]

/-- The notions of a name agree on every text, whatever the symbols are but for an empty one: that of
registration, byte by byte; that of rendering, character by character; and one token from the start of
the text to its end, the identifier of that text or a keyword, for the lexer on characters as for that
on bytes. -/
theorem isName_tfae (hsymbols : "" ∉ symbols) (text : String) :
    [Grammar.isWord text = true, Text.isName text.toList = true, LexesToName symbols text,
      Bytes.LexesToName symbols text].TFAE := by
  tfae_have 1 ↔ 2 := by rw [Grammar.isWord_eq_isName]
  tfae_have 2 → 3 := fun h => ⟨_, Token.ofName_cases text, lexemes_of_isName symbols h⟩
  tfae_have 3 → 2 := LexesToName.isName hsymbols
  tfae_have 3 ↔ 4 := (Bytes.lexesToName_iff hsymbols).symm
  tfae_finish

/-- A name is read before any symbol that it starts with, and no symbol makes a name of a letter beyond
ASCII. -/
theorem isName_tfae_symbols : "" ∉ ["in", "é"] ∧ Bytes.LexesToName ["in", "é"] "inner" ∧
    ¬LexesToName ["in", "é"] "né" := by
  have hsymbols : "" ∉ ["in", "é"] := by decide
  refine ⟨hsymbols, ((isName_tfae hsymbols "inner").out 1 3).mp (by decide), fun h => ?_⟩
  have hname := ((isName_tfae hsymbols "né").out 1 2).mpr h
  exact absurd hname (by decide)

end PipeExpr
