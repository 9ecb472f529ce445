import PipeExpr.Proofs.Lexer.Places
import PipeExpr.Proofs.Registry.Represented

/-!
The longest symbol wins. Symbols are tried from the longest to the shortest, whatever was registered
and in which order, so the first one that is found is the longest, and a mark is read only where no
symbol stands. No symbol begins like a negation but `!=`, and none is the pipe.
-/
namespace PipeExpr
open Lexer

theorem scans_bangs {g : Grammar} (hg : g.Sound) {s : List Char} (h : s.head? ≠ some '=') (n : Nat) :
    Scans g.symbols (List.replicate n '!' ++ s) (List.replicate n (.mark .bang)) s := by
  induction n with
  | zero => exact .done rfl
  | succ n ih =>
    have hnext : (List.replicate n '!' ++ s).head? ≠ some '=' := by
      cases n with
      | zero => exact h
      | succ n => simp [List.replicate_succ]
    exact scans_cons rfl (scan_bang hg hnext) (by simp) ih

namespace Registry

def Symbolic (r : Registry) (token : String) : Prop :=
  r.hasOperator token = true ∧ Text.isName token.toList = false

/-- Neither a number nor a name nor a string starts the text. -/
def startsOther : List Char → Bool
  | [] => true
  | c :: s => !(c.isDigit || (c == '.' && startsWithDigit s)) && !Text.isNameStart c &&
      !(c == '"' || c == '\'')

/-- What is found in front of the text `left`: the longest of the symbolic operators there, and only
where there is none a token of one character, or a refused character. -/
inductive Munches (r : Registry) (left : List Char) (lexeme : Lexeme) : Prop where
  | symbol (token : String) : r.Symbolic token → token.toList <+: left →
      (∀ other, r.Symbolic other → other.toList <+: left → other.length ≤ token.length) →
      lexeme.content = .ok (.operator token) →
      lexeme.stop = lexeme.start + byteLength token.toList → Munches r left lexeme
  | single {c : Char} {rest : List Char} {t : Token} : left = c :: rest →
      (∀ other, r.Symbolic other → ¬other.toList <+: left) → single? c = some t →
      lexeme.content = .ok t → lexeme.stop = lexeme.start + c.utf8Size → Munches r left lexeme
  | refused {c : Char} {rest : List Char} : left = c :: rest →
      (∀ other, r.Symbolic other → ¬other.toList <+: left) → single? c = none →
      lexeme.content = .error (.malformed (.unexpectedCharacter c) (some lexeme.start)) →
      Munches r left lexeme
  | finish : left = [] → lexeme.content = .ok .eof → Munches r left lexeme

structure ReadsLongest (r : Registry) (text : String) (lexeme : Lexeme) : Prop where
  munches : ∀ left, lexeme.At text left → startsOther left = true → r.Munches left lexeme
  bang : ∀ rest, lexeme.At text ('!' :: rest) → rest.head? ≠ some '=' →
    lexeme.content = .ok (.mark .bang) ∧ lexeme.stop = lexeme.start + 1
  pipe : ∀ rest, lexeme.At text ('|' :: rest) → (∀ c, rest.head? = some c → c ∉ operatorChars) →
    lexeme.content = .ok (.mark .pipe) ∧ lexeme.stop = lexeme.start + 1
  placed : (∃ left, lexeme.At text left) ∨
    lexeme.content = .error (.malformed (.unexpectedCharacter '?') (some lexeme.start))

section
variable {r : Registry} {text : String} {lexeme : Lexeme}

theorem Built.munches (h : r.Built) (hmem : lexeme ∈ lexemes r.grammar.symbols text)
    {left : List Char} (hat : lexeme.At text left) (hother : startsOther left = true) :
    r.Munches left lexeme := by
  have hsymbols := empty_notMem_symbols h.sound
  cases left with
  | nil => exact .finish rfl (reading_of_token hsymbols hmem hat rfl).1
  | cons c rest =>
    simp only [startsOther, Bool.and_eq_true, Bool.not_eq_true'] at hother
    obtain ⟨⟨hnumber, hname⟩, hquote⟩ := hother
    have hscan : scan r.grammar.symbols (c :: rest) = scanSymbol r.grammar.symbols c rest := by
      rw [scan, if_neg (by simp [hnumber]), if_neg (by simp [hname]), if_neg (by simp [hquote])]
    rw [scanSymbol] at hscan
    cases hfound : symbolAt? r.grammar.symbols (c :: rest) with
    | some token =>
      rw [hfound] at hscan
      obtain ⟨htoken, hfront⟩ := symbolAt?_eq_some hfound
      obtain ⟨hcontent, hstop⟩ := reading_of_token hsymbols hmem hat hscan
      refine .symbol token ((h.mem_symbols token).mp htoken) hfront ?_ hcontent hstop
      intro other hsymbolic
      exact symbolAt?_longest h.sound hfound ((h.mem_symbols other).mpr hsymbolic)
    | none =>
      rw [hfound] at hscan
      have hnone : ∀ other, r.Symbolic other → ¬other.toList <+: c :: rest := fun other hsymbolic =>
        symbolAt?_eq_none hfound ((h.mem_symbols other).mpr hsymbolic)
      cases hsingle : single? c with
      | some t =>
        rw [hsingle] at hscan
        obtain ⟨hcontent, hstop⟩ := reading_of_token hsymbols hmem hat hscan
        exact .single rfl hnone hsingle hcontent hstop
      | none =>
        rw [hsingle] at hscan
        exact .refused rfl hnone hsingle
          (reading_of_refusal hsymbols hmem hat (congrArg Scan.content hscan))

theorem Built.readsLongest (h : r.Built) (hmem : lexeme ∈ lexemes r.grammar.symbols text) :
    r.ReadsLongest text lexeme where
  munches _ := h.munches hmem
  bang rest hat hrest :=
    reading_of_token (empty_notMem_symbols h.sound) hmem hat (scan_bang h.sound hrest)
  pipe rest hat hrest := by
    have hscan := scan_operatorMark h.sound (m := .pipe) (.inr rfl) hrest
    exact reading_of_token (empty_notMem_symbols h.sound) hmem hat hscan
  placed := placed_of_mem_lexemes (empty_notMem_symbols h.sound) hmem

end

/-- Whatever was registered in whatever order, each reading takes the longest registered symbol at its
place and a mark only where there is none, and negations are read one by one. -/
theorem longest_match (b : Base) (calls : List Registration) :
    (∀ text, ∀ lexeme ∈ lexemes (b.after calls).grammar.symbols text,
      (b.after calls).ReadsLongest text lexeme) ∧
    ∀ n s, s.head? ≠ some '=' → Scans (b.after calls).grammar.symbols
      (List.replicate n '!' ++ s) (List.replicate n (.mark .bang)) s := by
  have hbuilt := built_after b calls
  exact ⟨fun text lexeme => hbuilt.readsLongest, fun n s hs => scans_bangs hbuilt.sound hs n⟩

/-- A negation in front of the standard symbol `!=` is read by itself. -/
theorem longest_match_negation :
    ∃ lexeme ∈ lexemes standard.grammar.symbols "!!=a", lexeme.start = 0 ∧
      lexeme.content = .ok (.mark .bang) ∧ lexeme.stop = 1 := by
  obtain ⟨later, hlater⟩ := Cursor.exists_readings_eq_cons standard.grammar.symbols
    (byteLength "!!=a".toList) (Cursor.atStart "!!=a")
  have hmem : ((Cursor.atStart "!!=a").next standard.grammar.symbols).1 ∈
      lexemes standard.grammar.symbols "!!=a" := by
    rw [lexemes, hlater]
    exact List.mem_cons_self
  have hstart : ((Cursor.atStart "!!=a").next standard.grammar.symbols).1.start = 0 := by
    have hstray : (Cursor.atStart "!!=a").stray = 0 := rfl
    rw [Cursor.next, if_pos hstray, Cursor.readToken_start]
    rfl
  have hreads := (longest_match .standard []).1 "!!=a" _ hmem
  obtain ⟨hcontent, hstop⟩ := hreads.bang ['!', '=', 'a'] ⟨[], rfl, hstart.symm⟩ (by simp)
  refine ⟨_, hmem, hstart, hcontent, ?_⟩
  rw [hstop, hstart]

end Registry
end PipeExpr
