import Mathlib.Data.String.Basic
import PipeExpr.Proofs.Lexer.Places

/-!
The slices of a text that its tokens are read from. A token says where it stands, and what stands there
is what was taken for it: the digits of a number, a name.
-/
namespace PipeExpr

/-- The slice of the text that the reading takes for its token. -/
def Lexeme.source (text : String) (lexeme : Lexeme) : List Char :=
  (String.Pos.Raw.extract text ⟨lexeme.start⟩ ⟨lexeme.stop⟩).toList

section
open Lexer
variable {symbols : List String} {text : String}

theorem utf8Len_eq_byteLength (s : List Char) : String.utf8Len s = byteLength s := by
  induction s with
  | nil => rfl
  | cons c s ih => rw [String.utf8Len_cons, ih, byteLength, Nat.add_comm]

theorem source_between {before slice left : List Char} (htext : text.toList = before ++ slice ++ left)
    {lexeme : Lexeme} (hstart : lexeme.start = byteLength before)
    (hstop : lexeme.stop = byteLength before + byteLength slice) : lexeme.source text = slice := by
  have hextract := String.extract_of_valid before slice left
  rw [utf8Len_eq_byteLength, utf8Len_eq_byteLength, ← htext, String.ofList_toList] at hextract
  rw [Lexeme.source, hstart, hstop, hextract, String.toList_ofList]

theorem source_readToken {symbols : List String} {c : Cursor} {before : List Char}
    (htext : text.toList = before ++ c.rest) (hoffset : c.offset = byteLength before) {t : Token}
    (h : (scan symbols (c.rest.dropWhile isBlank)).content = .ok t) :
    (c.readToken symbols).1.source text = (scan symbols (c.rest.dropWhile isBlank)).slice := by
  have hsplit : text.toList = (before ++ c.rest.takeWhile isBlank) ++
      (scan symbols (c.rest.dropWhile isBlank)).slice ++
        (scan symbols (c.rest.dropWhile isBlank)).rest := by
    rw [List.append_assoc, scan_slice_append, List.append_assoc, List.takeWhile_append_dropWhile,
      htext]
  refine source_between hsplit ?_ ?_ <;>
    simp only [Cursor.readToken, h, byteLength_append, hoffset]

theorem exists_source_of_mem (hsymbols : "" ∉ symbols) {lexeme : Lexeme}
    (hmem : lexeme ∈ lexemes symbols text) {t : Token} (h : lexeme.content = .ok t) :
    ∃ s : List Char, (scan symbols (s.dropWhile isBlank)).content = .ok t ∧
      lexeme.source text = (scan symbols (s.dropWhile isBlank)).slice := by
  obtain ⟨c, hc, rfl⟩ := exists_next_of_mem_lexemes hsymbols hmem
  cases hc with
  | inside before x htext hlt hoffset hstray =>
    rw [Cursor.next, if_neg (by omega), Cursor.passStray_eq hsymbols] at h
    cases h
  | between before htext hoffset hstray =>
    rw [Cursor.next, if_pos hstray] at h ⊢
    have hscan := Cursor.scan_of_readToken h
    exact ⟨c.rest, hscan, source_readToken htext hoffset hscan⟩

theorem LexesTo.exists_numeral (hsymbols : "" ∉ symbols) {ts : List Token}
    (h : LexesTo symbols text ts) {x : Float} (hx : .number x ∈ ts) :
    ∃ lexeme ∈ lexemes symbols text, lexeme.content = .ok (.number x) ∧
      Numeral (lexeme.source text) x := by
  obtain ⟨lexeme, hmem, hcontent⟩ := h.exists_lexeme hx
  obtain ⟨s, hscan, hsource⟩ := exists_source_of_mem hsymbols hmem hcontent
  exact ⟨lexeme, hmem, hcontent, hsource ▸ (taken_of_scan hscan).numeral⟩

theorem LexesTo.isName_of_identifier (hsymbols : "" ∉ symbols) {ts : List Token}
    (h : LexesTo symbols text ts) {name : String} (hname : .identifier name ∈ ts) :
    Text.isName name.toList = true := by
  obtain ⟨lexeme, hmem, hcontent⟩ := h.exists_lexeme hname
  obtain ⟨u, -, hscan⟩ := exists_scan_of_mem_lexemes hsymbols hmem hcontent
  have htaken := taken_of_scan hscan
  rw [← htaken.eq_identifier.1]
  exact htaken.isName (.inl ⟨name, rfl⟩)

end
end PipeExpr
