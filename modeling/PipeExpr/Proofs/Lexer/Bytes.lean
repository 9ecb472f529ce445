import Mathlib.Data.List.Basic
import PipeExpr.Proofs.Lexer.Encoding
import PipeExpr.Proofs.Lexer.Numerals
import PipeExpr.Proofs.Lexer.Places

/-!
Bytes and characters are read alike. No byte beyond ASCII is taken for a character, and what is taken
are whole characters. The one exception is a refused character, of which only the first byte is taken;
the others start no character, and are refused by themselves.
-/
namespace PipeExpr.Bytes
variable {symbols : List String}

theorem startsWithDigit_utf8 (s : List Char) :
    startsWithDigit (utf8 s) = Lexer.startsWithDigit s := by
  cases s with
  | nil => rfl
  | cons c s =>
    obtain ⟨b, he, hb⟩ | ⟨hc, b, bs, he, hwide⟩ := encode_cases c
    · simp [he, startsWithDigit, Lexer.startsWithDigit, hb]
    · simp [he, startsWithDigit, Lexer.startsWithDigit, narrow_isDigit.eq_false hc,
        narrow_isDigit.byte (hwide b List.mem_cons_self)]

def encoded (found : Lexer.Scan) : Scan :=
  match found.content with
  | .ok token => ⟨utf8 found.slice, .ok token, utf8 found.rest⟩
  | .error (.unexpectedCharacter x) =>
    ⟨(String.utf8EncodeChar x).take 1, .error (.ofText (.unexpectedCharacter x)),
      (String.utf8EncodeChar x).drop 1 ++ utf8 found.rest⟩
  | .error fault => ⟨utf8 found.slice, .error (.ofText fault), utf8 found.rest⟩

section Numbers

theorem numberTail_pointed (s : List Char) :
    numberTail true (utf8 s) = utf8 (Lexer.digitsOf s) := by
  induction s with
  | nil => rfl
  | cons c s ih =>
    obtain ⟨b, he, hb⟩ | ⟨hc, b, bs, he, hwide⟩ := encode_cases c
    · rw [utf8_cons, he, List.singleton_append, numberTail, hb, ih]
      by_cases hdigit : c.isDigit = true
      · simp [hdigit, he, Lexer.digitsOf]
      · simp [hdigit, Lexer.digitsOf]
    · simp [he, numberTail, Lexer.digitsOf, narrow_isDigit.eq_false hc,
        narrow_isDigit.byte (hwide b List.mem_cons_self)]

theorem scanNumber_slice_digit {c : Char} (h : c.isDigit = true) (s : List Char) :
    (Lexer.scanNumber (c :: s)).slice = c :: (Lexer.scanNumber s).slice := by
  simp only [Lexer.scanNumber, Lexer.digitsOf, Lexer.afterDigits, List.takeWhile_cons_of_pos h,
    List.dropWhile_cons_of_pos h]
  split
  · split <;> rfl
  · rfl

theorem scanNumber_slice_other {c : Char} (h : c.isDigit = false) (s : List Char) :
    (Lexer.scanNumber (c :: s)).slice =
      if c == '.' && Lexer.startsWithDigit s then c :: Lexer.digitsOf s else [] := by
  simp only [Lexer.scanNumber, Lexer.digitsOf, Lexer.afterDigits,
    List.takeWhile_cons_of_neg (Bool.eq_false_iff.mp h),
    List.dropWhile_cons_of_neg (Bool.eq_false_iff.mp h)]
  by_cases hc : c = '.'
  · subst hc
    by_cases hs : Lexer.startsWithDigit s = true
    · simp [hs]
    · simp [hs]
  · simp [hc]

theorem numberTail_utf8 (s : List Char) :
    numberTail false (utf8 s) = utf8 (Lexer.scanNumber s).slice := by
  induction s with
  | nil => rfl
  | cons c s ih =>
    obtain ⟨b, he, hb⟩ | ⟨hc, b, bs, he, hwide⟩ := encode_cases c
    · rw [utf8_cons, he, List.singleton_append, numberTail, hb, ih, numberTail_pointed,
        startsWithDigit_utf8]
      by_cases hdigit : c.isDigit = true
      · rw [if_pos hdigit, scanNumber_slice_digit hdigit, utf8_cons, he, List.singleton_append]
      · rw [if_neg hdigit, scanNumber_slice_other (Bool.eq_false_iff.mpr hdigit), Bool.not_false,
          Bool.and_true]
        by_cases hpoint : (c == '.' && Lexer.startsWithDigit s) = true
        · rw [if_pos hpoint, if_pos hpoint, utf8_cons, he, List.singleton_append]
        · rw [if_neg hpoint, if_neg hpoint, utf8_nil]
    · have hbyte := hwide b List.mem_cons_self
      have hpoint : Narrow (· == '.') := narrow_beq (by decide)
      rw [scanNumber_slice_other (narrow_isDigit.eq_false hc), hpoint.eq_false hc, utf8_cons, he]
      simp only [List.cons_append, numberTail, narrow_isDigit.byte hbyte, hpoint.byte hbyte]
      rfl

theorem drop_utf8 {slice rest s : List Char} (h : slice ++ rest = s) :
    (utf8 s).drop (utf8 slice).length = utf8 rest := by
  rw [← h, utf8_append, List.drop_left]

theorem scanNumber_utf8 {c : Char} {s : List Char} {b : UInt8} (hb : asChar b = c)
    (he : String.utf8EncodeChar c = [b])
    (h : (c.isDigit || (c == '.' && Lexer.startsWithDigit s)) = true) :
    scanNumber b (utf8 s) = encoded (Lexer.scanNumber (c :: s)) := by
  obtain ⟨x, hcontent, hnumeral⟩ := Lexer.scanNumber_numeral h
  have hsplit := Lexer.scanNumber_slice_append (c :: s)
  have htail : b :: numberTail (c == '.') (utf8 s) = utf8 (Lexer.scanNumber (c :: s)).slice := by
    cases hdigit : c.isDigit with
    | true =>
      have hpoint : (c == '.') = false := by
        rw [beq_eq_false_iff_ne]
        rintro rfl
        cases hdigit
      rw [hpoint, numberTail_utf8, scanNumber_slice_digit hdigit, utf8_cons, he]
      rfl
    | false =>
      rw [hdigit, Bool.false_or] at h
      rw [(Bool.and_eq_true_iff.mp h).1, numberTail_pointed, scanNumber_slice_other hdigit, if_pos h,
        utf8_cons, he]
      rfl
  have hrest : (utf8 s).drop (numberTail (c == '.') (utf8 s)).length =
      utf8 (Lexer.scanNumber (c :: s)).rest := by
    rw [← drop_utf8 hsplit, ← htail, utf8_cons, he]
    rfl
  have htoken : numberToken (utf8 (Lexer.scanNumber (c :: s)).slice) = .ok (.number x) := by
    simp only [numberToken, decode?_utf8, String.toList_ofList, hnumeral.ofText?]
  simp only [scanNumber, hb, hrest, htail, htoken, encoded, hcontent]

end Numbers

theorem scanName_utf8 (s : List Char) : scanName (utf8 s) = encoded (Lexer.scanName s) := by
  rw [scanName, (takeWhile_utf8 narrow_isNamePart s).1, drop_utf8 List.takeWhile_append_dropWhile,
    nameToken, decode?_utf8]
  rfl

section Strings

def encodedBody : Lexer.Body → Body
  | .closed slice content rest => .closed (utf8 slice) (utf8 content) (utf8 rest)
  | .unclosed slice fault => .unclosed (utf8 slice) fault

theorem encodedBody_push (written : List Char) (c : Char) (body : Lexer.Body) :
    encodedBody (body.push written c) =
      (encodedBody body).push (utf8 written) (String.utf8EncodeChar c) := by
  cases body <;> simp [encodedBody, Lexer.Body.push, Body.push]

theorem Body.push_push (written content written' content' : List UInt8) (body : Body) :
    (body.push written' content').push written content =
      body.push (written ++ written') (content ++ content') := by
  cases body <;> simp [Body.push]

theorem scanBody_wide {quote : UInt8} (hquote : quote.toNat < 0x80) {bs : List UInt8}
    (h : ∀ b ∈ bs, 0x80 ≤ b.toNat) (s : List UInt8) :
    scanBody quote (bs ++ s) = (scanBody quote s).push bs bs := by
  induction bs with
  | nil => cases hs : scanBody quote s <;> simp [Body.push, hs]
  | cons b bs ih =>
    have hb : 0x80 ≤ b.toNat := h b List.mem_cons_self
    have hne : b ≠ quote := fun he => absurd hquote (by rw [← he]; omega)
    have hplain : asChar b ≠ '\\' := by
      rw [← beq_eq_false_iff_ne]
      exact (narrow_beq (by decide)).eq_false hb
    rw [List.cons_append, scanBody.eq_def]
    simp only [if_neg hne, if_neg hplain, ih fun x hx => h x (List.mem_cons_of_mem b hx),
      Body.push_push, List.singleton_append]

theorem encode_unescape {x : Char} {b : UInt8} (he : String.utf8EncodeChar x = [b])
    (hb : asChar b = x) : [unescape b] = String.utf8EncodeChar (Lexer.unescape x) := by
  rw [unescape, hb]
  by_cases hn : x = 'n'
  · subst hn; rfl
  by_cases ht : x = 't'
  · subst ht; rfl
  by_cases hr : x = 'r'
  · subst hr; rfl
  have hsame : Lexer.unescape x = x := by simp [Lexer.unescape]
  rw [hsame, he]
  simp

theorem unescape_wide {b : UInt8} (h : 0x80 ≤ b.toNat) : unescape b = b := by
  have hne : ∀ d : Char, asChar b = d → 0x80 ≤ d.toNat := fun d he => he ▸ h
  unfold unescape
  split
  · next he => exact absurd (hne _ he) (by decide)
  · next he => exact absurd (hne _ he) (by decide)
  · next he => exact absurd (hne _ he) (by decide)
  · rfl

theorem unescape_wideChar {c : Char} (h : 0x80 ≤ c.toNat) : Lexer.unescape c = c := by
  unfold Lexer.unescape
  split
  · exact absurd h (by decide)
  · exact absurd h (by decide)
  · exact absurd h (by decide)
  · rfl

theorem scanBody_utf8 {quote : UInt8} (hquote : quote.toNat < 0x80) (s : List Char) :
    scanBody quote (utf8 s) = encodedBody (Lexer.scanBody (asChar quote) s) := by
  have hescape : String.utf8EncodeChar '\\' = [0x5C] := rfl
  fun_induction Lexer.scanBody (asChar quote) s with
  | case1 => rfl
  | case2 s =>
    rw [utf8_cons, encode_asChar hquote, scanBody.eq_def]
    simp [encodedBody, encode_asChar hquote]
  | case3 hne =>
    have hbyte : (0x5C : UInt8) ≠ quote := fun he => hne (he ▸ rfl)
    rw [utf8_cons, hescape, utf8_nil, List.append_nil, scanBody.eq_def]
    simp only [if_neg hbyte]
    rfl
  | case4 x s hne ih =>
    have hbyte : (0x5C : UInt8) ≠ quote := fun he => hne (he ▸ rfl)
    have hbackslash : asChar 0x5C = '\\' := rfl
    rw [encodedBody_push, ← ih, utf8_cons, utf8_cons, utf8_cons, utf8_cons, hescape]
    obtain ⟨b, he, hb⟩ | ⟨hx, b, bs, he, hwide⟩ := encode_cases x
    · rw [he, scanBody.eq_def]
      simp only [List.singleton_append, if_neg hbyte, hbackslash, if_true, utf8_nil,
        encode_unescape he hb, List.append_nil]
    · rw [he, unescape_wideChar hx, scanBody.eq_def]
      simp only [List.cons_append, if_neg hbyte, hbackslash, if_true, he,
        scanBody_wide hquote fun y hy => hwide y (List.mem_cons_of_mem b hy), Body.push_push,
        unescape_wide (hwide b List.mem_cons_self), utf8_nil, List.append_nil, List.nil_append]
  | case5 c s hne hplain ih =>
    rw [encodedBody_push, ← ih, utf8_cons, utf8_cons, utf8_nil, List.append_nil]
    obtain ⟨b, he, hb⟩ | ⟨hc, b, bs, he, hwide⟩ := encode_cases c
    · have hbyte : b ≠ quote := fun h => hne (by rw [← hb, h])
      rw [he, List.singleton_append, scanBody.eq_def]
      simp only [if_neg hbyte, hb, if_neg hplain]
    · rw [he, scanBody_wide hquote hwide]

theorem scanString_utf8 {quote : UInt8} (hquote : quote.toNat < 0x80) (s : List Char) :
    scanString quote (utf8 s) = encoded (Lexer.scanString (asChar quote) s) := by
  rw [scanString, Lexer.scanString, scanBody_utf8 hquote]
  cases hbody : Lexer.scanBody (asChar quote) s with
  | closed slice content rest =>
    simp [encodedBody, encoded, stringToken, decode?_utf8, encode_asChar hquote]
  | unclosed slice fault =>
    have hfault := Lexer.scanBody_fault hbody
    rcases hfault with rfl | rfl <;> simp [encodedBody, encoded, encode_asChar hquote]

end Strings

section Symbols

theorem symbolAt?_utf8 (s : List Char) :
    symbolAt? symbols (utf8 s) = Lexer.symbolAt? symbols s := by
  have hsame : ∀ symbol : String, symbol.toUTF8.data.toList.isPrefixOf (utf8 s) =
      symbol.toList.isPrefixOf s := by
    intro symbol
    rw [Bool.eq_iff_iff, List.isPrefixOf_iff_prefix, List.isPrefixOf_iff_prefix, toUTF8_eq_utf8,
      utf8_prefix_iff]
  simp only [symbolAt?, Lexer.symbolAt?, hsame]

theorem shown_utf8 (c : Char) (s : List Char) : shown (utf8 (c :: s)) = c := by
  rw [shown, decode?_utf8]
  simp

theorem single?_byte {c : Char} {b : UInt8} {bs : List UInt8}
    (he : String.utf8EncodeChar c = b :: bs) : Lexer.single? (asChar b) = Lexer.single? c ∧
      (Lexer.single? c ≠ none → bs = []) := by
  obtain ⟨b', he', hb⟩ | ⟨hc, b', bs', he', hwide⟩ := encode_cases c
  · obtain ⟨rfl, rfl⟩ := List.cons.inj (he.symm.trans he')
    exact ⟨by rw [hb], fun _ => rfl⟩
  · obtain ⟨rfl, rfl⟩ := List.cons.inj (he.symm.trans he')
    have hchar : Lexer.single? c = none := by simpa using narrow_single?.eq_false hc
    have hbyte : Lexer.single? (asChar b) = none := by
      simpa using narrow_single?.byte (hwide b List.mem_cons_self)
    exact ⟨hbyte.trans hchar.symm, fun h => absurd hchar h⟩

theorem scanSymbol_utf8 {c : Char} {s : List Char} {b : UInt8} {bs : List UInt8}
    (he : String.utf8EncodeChar c = b :: bs) :
    scanSymbol symbols b (bs ++ utf8 s) = encoded (Lexer.scanSymbol symbols c s) := by
  have hcons : b :: (bs ++ utf8 s) = utf8 (c :: s) := by rw [utf8_cons, he, List.cons_append]
  obtain ⟨hsame, hsingle⟩ := single?_byte he
  rw [scanSymbol, hcons, symbolAt?_utf8, shown_utf8, Lexer.scanSymbol]
  cases hfound : Lexer.symbolAt? symbols (c :: s) with
  | some symbol =>
    have hfront := List.prefix_iff_eq_append.mp (Lexer.symbolAt?_eq_some hfound).2
    simp only [toUTF8_eq_utf8, drop_utf8 hfront]
    rfl
  | none =>
    rw [hsame]
    cases htoken : Lexer.single? c with
    | some token =>
      obtain rfl := hsingle (by simp [htoken])
      simp [encoded, he]
    | none => simp [encoded, he]

end Symbols

/-- A byte beyond ASCII starts a symbol or nothing. -/
theorem scan_wide {b : UInt8} (h : 0x80 ≤ b.toNat) (bs : List UInt8) :
    scan symbols (b :: bs) = scanSymbol symbols b bs := by
  have hne : ∀ d : Char, d.toNat < 0x80 → (asChar b == d) = false := fun d hd => (narrow_beq hd).byte h
  rw [scan, narrow_isDigit.byte h, narrow_isNameStart.byte h, hne '.' (by decide),
    hne '"' (by decide), hne '\'' (by decide)]
  rfl

theorem scan_wideChar {c : Char} (h : 0x80 ≤ c.toNat) (s : List Char) :
    Lexer.scan symbols (c :: s) = Lexer.scanSymbol symbols c s := by
  have hne : ∀ d : Char, d.toNat < 0x80 → (c == d) = false := fun d hd => (narrow_beq hd).eq_false h
  rw [Lexer.scan, narrow_isDigit.eq_false h, narrow_isNameStart.eq_false h, hne '.' (by decide),
    hne '"' (by decide), hne '\'' (by decide)]
  rfl

/-- A scan of the bytes of a text takes the bytes of what a scan of the text takes, and makes the same
of them. -/
theorem scan_utf8 (s : List Char) :
    scan symbols (utf8 s) = encoded (Lexer.scan symbols s) := by
  cases s with
  | nil => rfl
  | cons c s =>
    obtain ⟨b, he, hb⟩ | ⟨hc, b, bs, he, hwide⟩ := encode_cases c
    · have hcons : utf8 (c :: s) = b :: utf8 s := by rw [utf8_cons, he]; rfl
      rw [hcons, scan, hb, startsWithDigit_utf8, Lexer.scan]
      by_cases hnumber : (c.isDigit || (c == '.' && Lexer.startsWithDigit s)) = true
      · rw [if_pos hnumber, if_pos hnumber, scanNumber_utf8 hb he hnumber]
      · rw [if_neg hnumber, if_neg hnumber]
        by_cases hname : Text.isNameStart c = true
        · rw [if_pos hname, if_pos hname, ← hcons, scanName_utf8]
        · rw [if_neg hname, if_neg hname]
          by_cases hquote : (c == '"' || c == '\'') = true
          · rw [if_pos hquote, if_pos hquote, scanString_utf8, hb]
            rw [← toNat_asChar, hb]
            rcases Bool.or_eq_true_iff.mp hquote with h | h <;>
              · rw [beq_iff_eq.mp h]
                decide
          · rw [if_neg hquote, if_neg hquote]
            rw [← List.nil_append (utf8 s)]
            exact scanSymbol_utf8 he
    · have hcons : utf8 (c :: s) = b :: (bs ++ utf8 s) := by rw [utf8_cons, he]; rfl
      rw [hcons, scan_wide (hwide b List.mem_cons_self), scan_wideChar hc, scanSymbol_utf8 he]

section Inside
variable {b : UInt8}

theorem symbolAt?_inner (hsymbols : "" ∉ symbols) (hb : Inner b) (bs : List UInt8) :
    symbolAt? symbols (b :: bs) = none := by
  refine List.find?_eq_none.mpr fun symbol hmem hfront => ?_
  rw [List.isPrefixOf_iff_prefix, toUTF8_eq_utf8] at hfront
  cases hsymbol : symbol.toList with
  | nil => exact hsymbols (String.toList_eq_nil_iff.mp hsymbol ▸ hmem)
  | cons c s =>
    obtain ⟨b', bs', he, hfirst, -⟩ := exists_encode_eq_cons c
    rw [hsymbol, utf8_cons, he, List.cons_append, List.cons_prefix_cons] at hfront
    exact hb (hfront.1 ▸ hfirst)

theorem shown_inner (hb : Inner b) (bs : List UInt8) : shown (b :: bs) = '?' := by
  have hinvalid : ¬(b :: bs).toByteArray.IsValidUTF8 := by
    intro hvalid
    have hfirst := hvalid.isUTF8FirstByte_getElem_zero (by simp)
    simp only [List.getElem_toByteArray, List.getElem_cons_zero] at hfirst
    exact hb hfirst
  rw [shown, decode?, String.fromUTF8?, dif_neg hinvalid]
  rfl

/-- Inside a character a byte is refused by itself. -/
theorem scan_inner (hsymbols : "" ∉ symbols) (hb : Inner b) (bs : List UInt8) :
    scan symbols (b :: bs) = ⟨[b], .error (.ofText (.unexpectedCharacter '?')), bs⟩ := by
  have hsingle : Lexer.single? (asChar b) = none := by
    simpa using narrow_single?.byte hb.wide
  rw [scan_wide hb.wide]
  simp only [scanSymbol, symbolAt?_inner hsymbols hb, hsingle, shown_inner hb]

end Inside

/-- The cursor on the bytes stands where that on the characters does: in front of what is still to be
passed over of a refused character, and of the text behind it. -/
structure Follows (d : PipeExpr.Cursor) (c : Cursor) : Prop where
  rest : ∃ front, c.rest = front ++ utf8 d.rest ∧ front.length = d.stray ∧ ∀ b ∈ front, Inner b
  offset : c.offset = d.offset
  stop : c.stop = d.stop

theorem follows_atStart (text : String) :
    Follows (PipeExpr.Cursor.atStart text) (Cursor.atStart text) :=
  ⟨⟨[], toUTF8_eq_utf8 text, rfl, nofun⟩, rfl, rfl⟩

theorem Follows.readToken {d : PipeExpr.Cursor} {c : Cursor} (h : Follows d c)
    (hrest : c.rest = utf8 d.rest) : (c.next symbols).1.lexeme? = some (d.readToken symbols).1 ∧
      Follows (d.readToken symbols).2 (c.next symbols).2 := by
  have htake : (utf8 d.rest).takeWhile Cursor.isBlank = utf8 (d.rest.takeWhile Lexer.isBlank) :=
    (takeWhile_utf8 narrow_isBlank d.rest).1
  have hdrop : (utf8 d.rest).dropWhile Cursor.isBlank = utf8 (d.rest.dropWhile Lexer.isBlank) :=
    (takeWhile_utf8 narrow_isBlank d.rest).2
  have hplain : ∀ (rest : List Char) (offset stop : Nat),
      Follows ⟨rest, offset, 0, stop⟩ ⟨utf8 rest, offset, stop⟩ :=
    fun rest offset stop => ⟨⟨[], rfl, rfl, nofun⟩, rfl, rfl⟩
  have hcursor : c = ⟨utf8 d.rest, d.offset, d.stop⟩ := by
    rw [← hrest, ← h.offset, ← h.stop]
  rw [hcursor, Cursor.next, PipeExpr.Cursor.readToken]
  simp only [htake, hdrop, scan_utf8, length_utf8]
  obtain ⟨slice, content, rest⟩ := Lexer.scan symbols (d.rest.dropWhile Lexer.isBlank)
  cases content with
  | ok token =>
    simp only [encoded, length_utf8]
    exact ⟨rfl, hplain _ _ _⟩
  | error fault =>
    cases fault with
    | unexpectedCharacter x =>
      obtain ⟨b, bs, he, -, hinner⟩ := exists_encode_eq_cons x
      have hsize := String.length_utf8EncodeChar x
      rw [he, List.length_cons] at hsize
      have hstray : bs.length = x.utf8Size - 1 := by omega
      simp only [encoded, he]
      exact ⟨rfl, ⟨bs, rfl, hstray, hinner⟩, rfl, rfl⟩
    | _ =>
      simp only [encoded, length_utf8]
      exact ⟨rfl, hplain _ _ _⟩

theorem Follows.next (hsymbols : "" ∉ symbols) {d : PipeExpr.Cursor} {c : Cursor}
    (h : Follows d c) : (c.next symbols).1.lexeme? = some (d.next symbols).1 ∧
      Follows (d.next symbols).2 (c.next symbols).2 := by
  obtain ⟨front, hrest, hlength, hinner⟩ := h.rest
  cases front with
  | nil =>
    have hstray : d.stray = 0 := hlength.symm
    rw [PipeExpr.Cursor.next, if_pos hstray]
    exact h.readToken hrest
  | cons b front =>
    have hb : Inner b := hinner b List.mem_cons_self
    have hblank : Cursor.isBlank b = false := narrow_isBlank.byte hb.wide
    rw [List.length_cons] at hlength
    rw [List.cons_append] at hrest
    rw [PipeExpr.Cursor.next, if_neg (by omega), PipeExpr.Cursor.passStray_eq hsymbols, Cursor.next,
      hrest, List.takeWhile_cons_of_neg (by simp [hblank]),
      List.dropWhile_cons_of_neg (by simp [hblank]), scan_inner hsymbols hb, h.offset, h.stop]
    refine ⟨rfl, ⟨front, rfl, ?_, fun x hx => hinner x (List.mem_cons_of_mem b hx)⟩, rfl, rfl⟩
    dsimp only
    omega

theorem lexeme?_content {reading : Reading} {lexeme : Lexeme}
    (h : reading.lexeme? = some lexeme) (token : Token) :
    reading.content = .ok token ↔ lexeme.content = .ok token := by
  unfold Reading.lexeme? at h
  split at h
  · next hcontent =>
    obtain rfl := Option.some.inj h
    rw [hcontent]
    simp
  · next hcontent =>
    obtain rfl := Option.some.inj h
    rw [hcontent]
    simp
  · cases h

theorem Follows.readings (hsymbols : "" ∉ symbols) {d : PipeExpr.Cursor} {c : Cursor}
    (h : Follows d c) (limit : Nat) : (c.readings symbols limit).map Reading.lexeme? =
      (d.readings symbols limit).map some := by
  induction limit generalizing d c with
  | zero => rfl
  | succ limit ih =>
    obtain ⟨hreading, hbehind⟩ := h.next hsymbols
    have heof := lexeme?_content hreading .eof
    rw [Cursor.readings, PipeExpr.Cursor.readings]
    by_cases hend : (d.next symbols).1.content = .ok .eof
    · simp [hend, heof.mpr hend, hreading]
    · have hgoes : (c.next symbols).1.content ≠ .ok .eof := fun he => hend (heof.mp he)
      dsimp only
      split
      · next he => exact absurd he hgoes
      · split
        · next he => exact absurd he hend
        · rw [List.map_cons, List.map_cons, hreading, ih hbehind]

/-- The readings of the bytes are those of the text. None of them fails to be one. -/
theorem lexeme?_readings (hsymbols : "" ∉ symbols) (text : String) :
    (readings symbols text).map Reading.lexeme? = (lexemes symbols text).map some := by
  rw [readings, lexemes, byteLength_toList]
  exact (follows_atStart text).readings hsymbols _

theorem lexeme?_eq_some_ok {reading : Reading} {start stop : Nat} {token : Token} :
    reading.lexeme? = some ⟨start, stop, .ok token⟩ ↔ reading = ⟨start, stop, .ok token⟩ := by
  obtain ⟨start', stop', content⟩ := reading
  cases content with
  | ok token' => simp [Reading.lexeme?]
  | error e =>
    obtain ⟨fault, offset⟩ := e
    cases fault <;> simp [Reading.lexeme?]

theorem map_lexeme?_eq_iff {found : List Reading} {ts : List (Nat × Nat × Token)} :
    found.map Reading.lexeme? = ts.map (fun t => some ⟨t.1, t.2.1, .ok t.2.2⟩) ↔
      found = ts.map fun t => ⟨t.1, t.2.1, .ok t.2.2⟩ := by
  induction ts generalizing found with
  | nil => simp
  | cons t ts ih =>
    cases found with
    | nil => simp
    | cons reading found =>
      rw [List.map_cons, List.map_cons, List.map_cons, List.cons.injEq, List.cons.injEq,
        lexeme?_eq_some_ok, ih]

theorem readings_eq_iff (hsymbols : "" ∉ symbols) {text : String}
    (ts : List (Nat × Nat × Token)) :
    readings symbols text = ts.map (fun t => ⟨t.1, t.2.1, .ok t.2.2⟩) ↔
      lexemes symbols text = ts.map fun t => ⟨t.1, t.2.1, .ok t.2.2⟩ := by
  have hsome : Function.Injective (List.map (some : Lexeme → Option Lexeme)) :=
    List.map_injective_iff.mpr fun _ _ => Option.some.inj
  rw [← map_lexeme?_eq_iff, lexeme?_readings hsymbols, ← hsome.eq_iff, List.map_map]
  rfl

theorem isSome_lexeme?_of_mem (hsymbols : "" ∉ symbols) {text : String} {reading : Reading}
    (h : reading ∈ readings symbols text) : reading.lexeme?.isSome := by
  have hmem := List.mem_map_of_mem (f := Reading.lexeme?) h
  rw [lexeme?_readings hsymbols] at hmem
  obtain ⟨lexeme, -, he⟩ := List.mem_map.mp hmem
  rw [← he]
  rfl

end PipeExpr.Bytes
