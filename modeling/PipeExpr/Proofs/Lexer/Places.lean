import PipeExpr.Proofs.Lexer.Context
import PipeExpr.Proofs.Lexer.Numerals

/-!
Tokens and their places. A scan takes the front of the text and leaves the rest as it is, and what it
takes is written as the token is (`Taken`). So every token stands in the text, and a cursor is either
between two characters of it or inside one that was refused (`Cursor.Stands`).
-/
namespace PipeExpr

theorem byteLength_append (s u : List Char) : byteLength (s ++ u) = byteLength s + byteLength u := by
  induction s with
  | nil => simp [byteLength]
  | cons c s ih =>
    rw [List.cons_append, byteLength, byteLength, ih]
    omega

/-- A place between two characters divides a text in one way. -/
theorem append_inj_of_byteLength {s s' u u' : List Char} (h : s ++ u = s' ++ u')
    (hlength : byteLength s = byteLength s') : s = s' ∧ u = u' := by
  induction s generalizing s' with
  | nil =>
    cases s' with
    | nil => exact ⟨rfl, h⟩
    | cons c s' =>
      have hpos := c.utf8Size_pos
      simp only [byteLength] at hlength
      omega
  | cons c s ih =>
    cases s' with
    | nil =>
      have hpos := c.utf8Size_pos
      simp only [byteLength] at hlength
      omega
    | cons d s' =>
      obtain ⟨rfl, htail⟩ := List.cons.inj h
      obtain ⟨rfl, rfl⟩ := ih htail (Nat.add_left_cancel hlength)
      exact ⟨rfl, rfl⟩

namespace Lexer
variable {symbols : List String}

theorem scanNumber_slice_append (s : List Char) : (scanNumber s).slice ++ (scanNumber s).rest = s := by
  have hwhole : digitsOf s ++ afterDigits s = s := List.takeWhile_append_dropWhile
  unfold scanNumber
  split
  · next rest h =>
    rw [h] at hwhole
    split
    · have hfraction : digitsOf rest ++ afterDigits rest = rest := List.takeWhile_append_dropWhile
      simp only [List.append_assoc, List.cons_append, hfraction, hwhole]
    · exact hwhole
  · exact hwhole

def Body.written : Body → List Char
  | .closed slice _ rest => slice ++ rest
  | .unclosed slice _ => slice

theorem Body.written_push (front : List Char) (c : Char) (b : Body) :
    (b.push front c).written = front ++ b.written := by
  cases b <;> simp [push, written]

theorem scanBody_written (quote : Char) (s : List Char) : (scanBody quote s).written = s := by
  fun_induction scanBody quote s with
  | case1 => rfl
  | case2 s => rfl
  | case3 => rfl
  | case4 x s _ ih => simp [Body.written_push, ih]
  | case5 c s _ _ ih => rw [Body.written_push, ih, List.singleton_append]

theorem scanString_slice_append (quote : Char) (s : List Char) :
    (scanString quote s).slice ++ (scanString quote s).rest = quote :: s := by
  have hwritten := scanBody_written quote s
  unfold scanString
  split
  · next slice content rest h =>
    rw [h] at hwritten
    rw [List.cons_append, hwritten.symm]
    rfl
  · next slice fault h =>
    rw [h] at hwritten
    rw [List.append_nil, hwritten.symm]
    rfl

theorem scanSymbol_slice_append (c : Char) (s : List Char) :
    (scanSymbol symbols c s).slice ++ (scanSymbol symbols c s).rest = c :: s := by
  unfold scanSymbol
  split
  · next symbol h =>
    exact List.prefix_iff_eq_append.mp (symbolAt?_eq_some h).2
  · split <;> rfl

/-- A scan takes the front of the text and leaves the rest as it is. -/
theorem scan_slice_append (symbols : List String) (s : List Char) :
    (scan symbols s).slice ++ (scan symbols s).rest = s := by
  cases s with
  | nil => rfl
  | cons c s =>
    obtain ⟨-, hscan⟩ | ⟨-, hscan⟩ | ⟨-, hscan⟩ | hscan := scan_cases symbols c s <;> rw [hscan]
    · exact scanNumber_slice_append (c :: s)
    · exact List.takeWhile_append_dropWhile
    · exact scanString_slice_append c s
    · exact scanSymbol_slice_append c s

theorem scanSymbol_unexpectedCharacter {c x : Char} {s : List Char}
    (h : (scanSymbol symbols c s).content = .error (.unexpectedCharacter x)) :
    (scanSymbol symbols c s).slice = [x] := by
  unfold scanSymbol at h ⊢
  split at h
  · cases h
  · split at h
    · cases h
    · obtain rfl := SyntaxFault.unexpectedCharacter.inj (Except.error.inj h)
      rfl

theorem push_eq_unclosed {front slice : List Char} {c : Char} {b : Body} {fault : SyntaxFault}
    (h : b.push front c = .unclosed slice fault) : ∃ slice', b = .unclosed slice' fault := by
  cases b with
  | closed slice' content rest => cases h
  | unclosed slice' fault' =>
    obtain ⟨-, rfl⟩ := Body.unclosed.inj h
    exact ⟨slice', rfl⟩

theorem scanBody_fault {quote : Char} {s slice : List Char} {fault : SyntaxFault}
    (h : scanBody quote s = .unclosed slice fault) : fault = .openString ∨ fault = .openEscape := by
  fun_induction scanBody quote s generalizing slice with
  | case1 => exact .inl (Body.unclosed.inj h).2.symm
  | case2 => cases h
  | case3 => exact .inr (Body.unclosed.inj h).2.symm
  | case4 x s _ ih =>
    obtain ⟨slice', hbody⟩ := push_eq_unclosed h
    exact ih hbody
  | case5 c s _ _ ih =>
    obtain ⟨slice', hbody⟩ := push_eq_unclosed h
    exact ih hbody

/-- What is taken for a token. -/
inductive Taken (symbols : List String) : List Char → Token → Prop where
  | number {slice : List Char} {x : Float} : Numeral slice x → Taken symbols slice (.number x)
  | identifier {name : String} : Text.isName name.toList = true → Keyword.ofText? name = none →
      Taken symbols name.toList (.identifier name)
  | keyword (k : Keyword) : Taken symbols k.text.toList (.keyword k)
  | string (slice : List Char) (content : String) : Taken symbols slice (.string content)
  | operator {symbol : String} : symbol ∈ symbols ∨ symbol = "-" →
      Taken symbols symbol.toList (.operator symbol)
  | mark (m : Mark) : Taken symbols [m.char] (.mark m)
  | eof : Taken symbols [] .eof

theorem taken_ofName {name : List Char} (h : Text.isName name = true) :
    Taken symbols name (Token.ofName (String.ofList name)) := by
  obtain ⟨name, rfl⟩ : ∃ text : String, name = text.toList :=
    ⟨String.ofList name, String.toList_ofList.symm⟩
  rw [String.ofList_toList, Token.ofName]
  split
  · next k hkeyword =>
    obtain rfl := Keyword.text_of_ofText? hkeyword
    exact .keyword k
  · next hkeyword => exact .identifier h hkeyword

theorem taken_of_scanSymbol {c : Char} {s : List Char} {t : Token}
    (h : (scanSymbol symbols c s).content = .ok t) :
    Taken symbols (scanSymbol symbols c s).slice t := by
  unfold scanSymbol at h ⊢
  split at h
  · next symbol hfound =>
    obtain rfl := Except.ok.inj h
    exact .operator (.inl (symbolAt?_eq_some hfound).1)
  · split at h
    · next token hsingle =>
      obtain rfl := Except.ok.inj h
      unfold single? at hsingle
      split at hsingle
      · next hc =>
        obtain rfl := Option.some.inj hsingle
        rw [hc]
        exact .operator (.inr rfl)
      · obtain ⟨m, hm, rfl⟩ := Option.map_eq_some_iff.mp hsingle
        rw [Mark.char_of_ofChar? hm]
        exact .mark m
    · cases h

theorem taken_of_scan {s : List Char} {t : Token} (h : (scan symbols s).content = .ok t) :
    Taken symbols (scan symbols s).slice t := by
  cases s with
  | nil =>
    obtain rfl := Except.ok.inj h
    exact .eof
  | cons c s =>
    obtain ⟨hstart, hscan⟩ | ⟨hstart, hscan⟩ | ⟨-, hscan⟩ | hscan := scan_cases symbols c s <;>
      rw [hscan] at h ⊢
    · obtain ⟨x, hx, hnumeral⟩ := scanNumber_numeral hstart
      obtain rfl := Except.ok.inj (hx.symm.trans h)
      exact .number hnumeral
    · obtain rfl := Except.ok.inj h
      refine taken_ofName ?_
      rw [scanName, List.takeWhile_cons_of_pos (Text.isNamePart_of_isNameStart hstart), Text.isName,
        hstart, List.all_takeWhile]
      rfl
    · obtain ⟨content, hc⟩ | ⟨_, fault, -, hc⟩ := scanString_content c s
      · obtain rfl := Except.ok.inj (hc.symm.trans h)
        exact .string _ content
      · cases hc.symm.trans h
    · exact taken_of_scanSymbol h

theorem Taken.numeral {slice : List Char} {x : Float} (h : Taken symbols slice (.number x)) :
    Numeral slice x := by
  cases h with
  | number hnumeral => exact hnumeral

theorem Taken.eq_identifier {slice : List Char} {name : String}
    (h : Taken symbols slice (.identifier name)) :
    slice = name.toList ∧ Keyword.ofText? name = none := by
  cases h with
  | identifier _ hkeyword => exact ⟨rfl, hkeyword⟩

theorem Taken.eq_operator {slice : List Char} {symbol : String}
    (h : Taken symbols slice (.operator symbol)) :
    slice = symbol.toList ∧ (symbol ∈ symbols ∨ symbol = "-") := by
  cases h with
  | operator hsymbol => exact ⟨rfl, hsymbol⟩

theorem isName_text (k : Keyword) : Text.isName k.text.toList = true := by
  cases k <;> decide

theorem Taken.isName {slice : List Char} {t : Token} (h : Taken symbols slice t)
    (ht : (∃ name, t = .identifier name) ∨ ∃ k, t = .keyword k) : Text.isName slice = true := by
  cases h with
  | identifier hname _ => exact hname
  | keyword k => exact isName_text k
  | _ => simp at ht

theorem scan_unexpectedCharacter {s : List Char} {x : Char}
    (h : (scan symbols s).content = .error (.unexpectedCharacter x)) :
    (scan symbols s).slice = [x] := by
  cases s with
  | nil => cases h
  | cons c s =>
    obtain ⟨-, hscan⟩ | ⟨-, hscan⟩ | ⟨-, hscan⟩ | hscan := scan_cases symbols c s
    · obtain ⟨number, hnumber⟩ := scanNumber_content (c :: s)
      rw [hscan, hnumber] at h
      cases h
    · rw [hscan] at h
      cases h
    · rw [hscan] at h
      obtain ⟨content, hc⟩ | ⟨slice, fault, hbody, hc⟩ := scanString_content c s
      · rw [hc] at h
        cases h
      · rw [hc] at h
        obtain rfl := Except.error.inj h
        obtain he | he := scanBody_fault hbody <;> cases he
    · rw [hscan] at h ⊢
      exact scanSymbol_unexpectedCharacter h

theorem scan_operatorName {s : List Char} {o : OperatorName}
    (h : (scan symbols s).content = .ok o.token) : (scan symbols s).slice = o.text.toList := by
  cases o with
  | symbol symbol => exact (taken_of_scan h).eq_operator.1
  | word name => exact (taken_of_scan h).eq_identifier.1

theorem scan_congr {symbols' : List String} {s : List Char}
    (h : symbolAt? symbols' s = symbolAt? symbols s) : scan symbols' s = scan symbols s := by
  cases s with
  | nil => rfl
  | cons c s => simp only [scan, scanSymbol, h]

end Lexer

namespace Cursor
open Lexer
variable {symbols : List String} {text : String} {c : Cursor}

/-- Where a cursor stands in a text. -/
inductive Stands (text : String) (c : Cursor) : Prop where
  | between (before : List Char) : text.toList = before ++ c.rest → c.offset = byteLength before →
      c.stray = 0 → Stands text c
  | inside (before : List Char) (x : Char) : text.toList = before ++ x :: c.rest →
      byteLength before < c.offset → c.offset + c.stray = byteLength before + x.utf8Size →
      0 < c.stray → Stands text c

theorem stands_atStart (text : String) : (atStart text).Stands text := .between [] rfl rfl rfl

theorem Stands.rest_suffix (h : c.Stands text) : c.rest <:+ text.toList := by
  cases h with
  | between before htext _ _ => exact ⟨before, htext.symm⟩
  | inside before x htext _ _ _ => exact ⟨before ++ [x], by simp [htext]⟩

theorem stands_behind {before : List Char} {x : Char} (htext : text.toList = before ++ x :: c.rest)
    {n : Nat} (hn : 0 < n) (hoffset : c.offset = byteLength before + n)
    (hstray : n + c.stray = x.utf8Size) : c.Stands text := by
  by_cases h : c.stray = 0
  · refine .between (before ++ [x]) (by simp [htext]) ?_ h
    rw [byteLength_append, byteLength, byteLength]
    omega
  · exact .inside before x htext (by omega) (by omega) (by omega)

theorem passStray_eq (hsymbols : "" ∉ symbols) (c : Cursor) : c.passStray symbols =
    (⟨c.offset, c.stop, .error (.malformed (.unexpectedCharacter '?') (some c.offset))⟩,
      { c with offset := c.offset + 1, stray := c.stray - 1 }) :=
  if_neg (by simpa using hsymbols)

/-- The next reading starts at the cursor or behind the blanks there, and leaves the cursor in the
text. -/
theorem Stands.next (hsymbols : "" ∉ symbols) (h : c.Stands text) :
    (c.next symbols).2.Stands text := by
  cases h with
  | between before htext hoffset hstray =>
    rw [Cursor.next, if_pos hstray]
    have hsplit : text.toList = (before ++ c.rest.takeWhile isBlank) ++
        ((scan symbols (c.rest.dropWhile isBlank)).slice ++
          (scan symbols (c.rest.dropWhile isBlank)).rest) := by
      rw [scan_slice_append, List.append_assoc, List.takeWhile_append_dropWhile, htext]
    have hbehind : c.offset + byteLength (c.rest.takeWhile isBlank) =
        byteLength (before ++ c.rest.takeWhile isBlank) := by
      rw [byteLength_append, hoffset]
    have hpast : ∀ stop, Stands text ⟨(scan symbols (c.rest.dropWhile isBlank)).rest,
        c.offset + byteLength (c.rest.takeWhile isBlank) +
          byteLength (scan symbols (c.rest.dropWhile isBlank)).slice, 0, stop⟩ := by
      intro stop
      refine .between _ (hsplit.trans (List.append_assoc _ _ _).symm) ?_ rfl
      rw [byteLength_append, hbehind]
    unfold readToken
    dsimp only
    split
    · exact hpast _
    · next x hscan =>
      rw [scan_unexpectedCharacter hscan, List.singleton_append] at hsplit
      have hpos := x.utf8Size_pos
      exact stands_behind hsplit Nat.one_pos (by dsimp only; omega) (by dsimp only; omega)
    · exact hpast _
  | inside before x htext hlt hoffset hstray =>
    rw [Cursor.next, if_neg (by omega), passStray_eq hsymbols]
    exact stands_behind htext (n := c.offset + 1 - byteLength before) (by omega)
      (by dsimp only; omega) (by dsimp only; omega)

theorem readToken_start (symbols : List String) (c : Cursor) :
    (c.readToken symbols).1.start = c.offset + byteLength (c.rest.takeWhile isBlank) := by
  unfold readToken
  dsimp only
  split <;> rfl

theorem exists_next_of_mem_readings (hsymbols : "" ∉ symbols) {limit : Nat} (h : c.Stands text)
    {lexeme : Lexeme} (hmem : lexeme ∈ c.readings symbols limit) :
    ∃ c' : Cursor, c'.Stands text ∧ lexeme = (c'.next symbols).1 := by
  induction limit generalizing c with
  | zero => cases hmem
  | succ limit ih =>
    have hnext := h.next hsymbols
    rw [readings] at hmem
    dsimp only at hmem
    split at hmem
    · exact ⟨c, h, List.mem_singleton.mp hmem⟩
    · cases List.mem_cons.mp hmem with
      | inl he => exact ⟨c, h, he⟩
      | inr hlater => exact ih hnext hlater

section Congr
variable {symbols' : List String} (hsymbols : "" ∉ symbols) (hsymbols' : "" ∉ symbols')
  (h : ∀ s, s <:+ text.toList → symbolAt? symbols' s = symbolAt? symbols s)
include hsymbols hsymbols' h

theorem next_congr (hc : c.Stands text) : c.next symbols' = c.next symbols := by
  have hscan : scan symbols' (c.rest.dropWhile isBlank) = scan symbols (c.rest.dropWhile isBlank) :=
    scan_congr (h _ ((List.dropWhile_suffix _).trans hc.rest_suffix))
  simp only [next, readToken, hscan, passStray_eq hsymbols, passStray_eq hsymbols']

theorem readings_congr (limit : Nat) (hc : c.Stands text) :
    c.readings symbols' limit = c.readings symbols limit := by
  induction limit generalizing c with
  | zero => rfl
  | succ limit ih =>
    rw [readings, readings, next_congr hsymbols hsymbols' h hc]
    simp only [ih (hc.next hsymbols)]

end Congr
end Cursor

section
open Lexer
variable {symbols : List String} {text : String}

theorem exists_next_of_mem_lexemes (hsymbols : "" ∉ symbols) {lexeme : Lexeme}
    (h : lexeme ∈ lexemes symbols text) :
    ∃ c : Cursor, c.Stands text ∧ lexeme = (c.next symbols).1 :=
  Cursor.exists_next_of_mem_readings hsymbols (Cursor.stands_atStart text) h

theorem exists_scan_of_mem_lexemes (hsymbols : "" ∉ symbols) {lexeme : Lexeme}
    (h : lexeme ∈ lexemes symbols text) {t : Token} (ht : lexeme.content = .ok t) :
    ∃ u, u <:+ text.toList ∧ (scan symbols u).content = .ok t := by
  obtain ⟨c, hc, rfl⟩ := exists_next_of_mem_lexemes hsymbols h
  unfold Cursor.next at ht
  split at ht
  · exact ⟨_, (List.dropWhile_suffix _).trans hc.rest_suffix, Cursor.scan_of_readToken ht⟩
  · rw [Cursor.passStray_eq hsymbols] at ht
    cases ht

/-- The text `left` is ahead of the reading. -/
def Lexeme.At (text : String) (lexeme : Lexeme) (left : List Char) : Prop :=
  ∃ before, text.toList = before ++ left ∧ byteLength before = lexeme.start

/-- A reading is placed between two characters, or finds no token inside a refused one. -/
theorem placed_of_mem_lexemes (hsymbols : "" ∉ symbols) {lexeme : Lexeme}
    (h : lexeme ∈ lexemes symbols text) : (∃ left, lexeme.At text left) ∨
      lexeme.content = .error (.malformed (.unexpectedCharacter '?') (some lexeme.start)) := by
  obtain ⟨c, hc, rfl⟩ := exists_next_of_mem_lexemes hsymbols h
  cases hc with
  | between before htext hoffset hstray =>
    left
    rw [Cursor.next, if_pos hstray]
    refine ⟨c.rest.dropWhile isBlank, before ++ c.rest.takeWhile isBlank, ?_, ?_⟩
    · rw [List.append_assoc, List.takeWhile_append_dropWhile, htext]
    · rw [byteLength_append, Cursor.readToken_start, hoffset]
  | inside before x htext hlt hoffset hstray =>
    right
    rw [Cursor.next, if_neg (by omega), Cursor.passStray_eq hsymbols]

theorem exists_readToken_of_at (hsymbols : "" ∉ symbols) {lexeme : Lexeme}
    (h : lexeme ∈ lexemes symbols text) {left : List Char} (hat : lexeme.At text left) :
    ∃ c : Cursor, c.rest.dropWhile isBlank = left ∧ lexeme = (c.readToken symbols).1 := by
  obtain ⟨c, hc, rfl⟩ := exists_next_of_mem_lexemes hsymbols h
  obtain ⟨before', hsplit, hstart⟩ := hat
  cases hc with
  | between before htext hoffset hstray =>
    rw [Cursor.next, if_pos hstray] at hstart ⊢
    refine ⟨c, ?_, rfl⟩
    rw [Cursor.readToken_start, hoffset, ← byteLength_append] at hstart
    have hsame : (before ++ c.rest.takeWhile isBlank) ++ c.rest.dropWhile isBlank =
        before' ++ left := by
      rw [List.append_assoc, List.takeWhile_append_dropWhile, ← htext, hsplit]
    exact (append_inj_of_byteLength hsame hstart.symm).2
  | inside before x htext hlt hoffset hstray =>
    rw [Cursor.next, if_neg (by omega), Cursor.passStray_eq hsymbols] at hstart
    dsimp only at hstart
    -- no character ends strictly inside another one
    exfalso
    rw [htext] at hsplit
    cases List.append_eq_append_iff.mp hsplit with
    | inl hbehind =>
      obtain ⟨more, rfl, hmore⟩ := hbehind
      rw [byteLength_append] at hstart
      cases more with
      | nil =>
        rw [byteLength] at hstart
        omega
      | cons y more =>
        obtain ⟨rfl, -⟩ := List.cons.inj hmore
        rw [byteLength] at hstart
        omega
    | inr hahead =>
      obtain ⟨more, rfl, -⟩ := hahead
      rw [byteLength_append] at hlt
      omega

theorem reading_of_token (hsymbols : "" ∉ symbols) {lexeme : Lexeme}
    (h : lexeme ∈ lexemes symbols text) {left slice rest : List Char} {t : Token}
    (hat : lexeme.At text left) (hscan : scan symbols left = ⟨slice, .ok t, rest⟩) :
    lexeme.content = .ok t ∧ lexeme.stop = lexeme.start + byteLength slice := by
  obtain ⟨c, rfl, rfl⟩ := exists_readToken_of_at hsymbols h hat
  simp only [Cursor.readToken, hscan, and_self]

theorem reading_of_refusal (hsymbols : "" ∉ symbols) {lexeme : Lexeme}
    (h : lexeme ∈ lexemes symbols text) {left : List Char} {x : Char} (hat : lexeme.At text left)
    (hscan : (scan symbols left).content = .error (.unexpectedCharacter x)) :
    lexeme.content = .error (.malformed (.unexpectedCharacter x) (some lexeme.start)) := by
  obtain ⟨c, rfl, rfl⟩ := exists_readToken_of_at hsymbols h hat
  simp only [Cursor.readToken, hscan]

theorem operator_infix_of_mem_lexemes (hsymbols : "" ∉ symbols) {lexeme : Lexeme}
    (h : lexeme ∈ lexemes symbols text) {o : OperatorName} (ho : lexeme.content = .ok o.token) :
    o.text.toList <:+: text.toList := by
  obtain ⟨u, hu, hscan⟩ := exists_scan_of_mem_lexemes hsymbols h ho
  have hfront : o.text.toList <+: u := ⟨_, scan_operatorName hscan ▸ scan_slice_append symbols u⟩
  exact hfront.isInfix.trans hu.isInfix

/-- Symbols that are found at the same places of a text give it the same tokens. -/
theorem lexemes_congr {symbols' : List String} (hsymbols : "" ∉ symbols) (hsymbols' : "" ∉ symbols')
    (h : ∀ s, s <:+ text.toList → symbolAt? symbols' s = symbolAt? symbols s) :
    lexemes symbols' text = lexemes symbols text :=
  Cursor.readings_congr hsymbols hsymbols' h _ (Cursor.stands_atStart text)

end

section LexesTo
open Lexer
variable {symbols : List String} {text : String} {ts : List Token}

theorem LexesTo.exists_lexeme (h : LexesTo symbols text ts) {t : Token} (ht : t ∈ ts) :
    ∃ lexeme ∈ lexemes symbols text, lexeme.content = .ok t := by
  have hmem : .ok t ∈ (lexemes symbols text).map Lexeme.content := by
    rw [h]
    exact List.mem_append_left _ (List.mem_map_of_mem ht)
  exact List.mem_map.mp hmem

theorem LexesTo.identifier_not_keyword (hsymbols : "" ∉ symbols) (h : LexesTo symbols text ts)
    {name : String} (hname : .identifier name ∈ ts) : Keyword.ofText? name = none := by
  obtain ⟨lexeme, hmem, hcontent⟩ := h.exists_lexeme hname
  obtain ⟨u, -, hscan⟩ := exists_scan_of_mem_lexemes hsymbols hmem hcontent
  exact (taken_of_scan hscan).eq_identifier.2

theorem LexesTo.operator_not_keyword {g : Grammar} (hg : g.Sound) (h : LexesTo g.symbols text ts)
    {o : OperatorName} (ho : o.token ∈ ts) : Keyword.ofText? o.text = none := by
  cases o with
  | word name => exact h.identifier_not_keyword (empty_notMem_symbols hg) ho
  | symbol symbol =>
    obtain ⟨lexeme, hmem, hcontent⟩ := h.exists_lexeme ho
    obtain ⟨u, -, hscan⟩ := exists_scan_of_mem_lexemes (empty_notMem_symbols hg) hmem hcontent
    cases (taken_of_scan hscan).eq_operator.2 with
    | inr hminus =>
      subst hminus
      decide
    | inl hsymbol =>
      obtain ⟨-, hword⟩ := (hg.mem_symbols symbol).mp hsymbol
      rw [Grammar.isWord_eq_isName] at hword
      refine Option.eq_none_iff_forall_ne_some.mpr fun k hk => ?_
      rw [OperatorName.text] at hk
      rw [Keyword.text_of_ofText? hk, isName_text] at hword
      cases hword

theorem LexesTo.operator_infix (hsymbols : "" ∉ symbols) (h : LexesTo symbols text ts)
    {o : OperatorName} (ho : o.token ∈ ts) : o.text.toList <:+: text.toList := by
  obtain ⟨lexeme, hmem, hcontent⟩ := h.exists_lexeme ho
  exact operator_infix_of_mem_lexemes hsymbols hmem hcontent

end LexesTo
end PipeExpr
