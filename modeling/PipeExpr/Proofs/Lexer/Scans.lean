import Mathlib.Control.Monad.Basic
import PipeExpr.Token.Lexer

/-!
Texts and their tokens without places. `Scans` reads tokens from the front of a text and leaves the
rest; `lexesTo_iff_scans` says that it is what the lexer finds in a whole text.
-/
namespace PipeExpr

/-- What is behind the tokens of a text without a fault. -/
abbrev atEnd : List (Except Error Token) := [.ok .eof]

/-- The end of a text, or the first fault in it. -/
def Ends (tail : List (Except Error Token)) : Prop :=
  tail = atEnd ∨ ∃ e rest, tail = .error e :: rest ∧ e.isMalformed = true

/-- The lexer finds the tokens `ts` in the text, and nothing else. -/
def LexesTo (symbols : List String) (text : String) (ts : List Token) : Prop :=
  (lexemes symbols text).map Lexeme.content = ts.map Except.ok ++ atEnd

instance (symbols : List String) (text : String) (ts : List Token) :
    Decidable (LexesTo symbols text ts) := inferInstanceAs (Decidable (_ = _))

theorem Cursor.eof_notMem_readings {symbols : List String} {limit : Nat} {c : Cursor}
    {us : List (Except Error Token)} {v : Except Error Token}
    (h : (c.readings symbols limit).map Lexeme.content = us ++ [v]) : .ok .eof ∉ us := by
  induction limit generalizing c us with
  | zero => simp [readings] at h
  | succ limit ih =>
    rw [readings] at h
    obtain ⟨lexeme, c'⟩ := c.next symbols
    cases us with
    | nil => simp
    | cons u us =>
      dsimp only at h
      split at h
      · simp at h
      · next hne =>
        simp only [List.map_cons, List.cons_append, List.cons.injEq] at h
        obtain ⟨rfl, hrest⟩ := h
        simp only [List.mem_cons, not_or]
        exact ⟨fun he => hne he.symm, ih hrest⟩

theorem LexesTo.eof_notMem {symbols : List String} {text : String} {ts : List Token}
    (h : LexesTo symbols text ts) : Token.eof ∉ ts := by
  unfold LexesTo lexemes at h
  intro he
  exact Cursor.eof_notMem_readings h (List.mem_map_of_mem he)

namespace Lexer
variable {symbols : List String}

/-- Blanks and a token, one time after the other. Blanks that are left do not count. -/
inductive Scans (symbols : List String) : List Char → List Token → List Char → Prop where
  | done {s rest : List Char} : s.dropWhile isBlank = rest.dropWhile isBlank →
      Scans symbols s [] rest
  | token {s rest : List Char} {t : Token} {ts : List Token} :
      (scan symbols (s.dropWhile isBlank)).content = .ok t → t ≠ .eof →
      Scans symbols (scan symbols (s.dropWhile isBlank)).rest ts rest →
      Scans symbols s (t :: ts) rest

theorem Scans.congr {s s' rest : List Char} {ts : List Token} (h : Scans symbols s ts rest)
    (hs : s'.dropWhile isBlank = s.dropWhile isBlank) : Scans symbols s' ts rest := by
  cases h with
  | done he => exact .done (hs.trans he)
  | token hscan hne hrest =>
    rw [← hs] at hscan hrest
    exact .token hscan hne hrest

theorem Scans.append {s mid rest : List Char} {ts us : List Token} (h : Scans symbols s ts mid)
    (h' : Scans symbols mid us rest) : Scans symbols s (ts ++ us) rest := by
  induction h with
  | done he => exact h'.congr he
  | token hscan hne _ ih => exact .token hscan hne (ih h')

theorem scanNumber_content (s : List Char) : ∃ x, (scanNumber s).content = .ok (.number x) := by
  unfold scanNumber
  split
  · split
    · exact ⟨_, rfl⟩
    · exact ⟨_, rfl⟩
  · exact ⟨_, rfl⟩

theorem ofName_ne_eof (name : String) : Token.ofName name ≠ .eof := by
  obtain hname | ⟨k, hname⟩ := Token.ofName_cases name
  · simp [hname]
  · simp [hname]

theorem single?_cases {c : Char} {t : Token} (h : single? c = some t) :
    t = .operator "-" ∨ ∃ m, t = .mark m := by
  unfold single? at h
  split at h
  · exact .inl (Option.some.inj h).symm
  · obtain ⟨m, -, rfl⟩ := Option.map_eq_some_iff.mp h
    exact .inr ⟨m, rfl⟩

theorem scanSymbol_content {c : Char} {s : List Char} {t : Token}
    (h : (scanSymbol symbols c s).content = .ok t) :
    (∃ symbol, t = .operator symbol) ∨ ∃ m, t = .mark m := by
  unfold scanSymbol at h
  split at h
  · exact .inl ⟨_, (Except.ok.inj h).symm⟩
  · split at h
    · next u hu =>
      obtain rfl : u = t := Except.ok.inj h
      exact (single?_cases hu).imp_left fun he => ⟨_, he⟩
    · cases h

theorem scan_cases (symbols : List String) (c : Char) (s : List Char) :
    ((c.isDigit || (c == '.' && startsWithDigit s)) = true ∧
        scan symbols (c :: s) = scanNumber (c :: s)) ∨
      (Text.isNameStart c = true ∧ scan symbols (c :: s) = scanName (c :: s)) ∨
      ((c == '"' || c == '\'') = true ∧ scan symbols (c :: s) = scanString c s) ∨
      scan symbols (c :: s) = scanSymbol symbols c s := by
  rw [scan]
  split
  · next h => exact .inl ⟨h, rfl⟩
  · split
    · next h => exact .inr (.inl ⟨h, rfl⟩)
    · split
      · next h => exact .inr (.inr (.inl ⟨h, rfl⟩))
      · exact .inr (.inr (.inr rfl))

theorem scanString_content (quote : Char) (s : List Char) :
    (∃ content, (scanString quote s).content = .ok (.string content)) ∨
      ∃ slice fault, scanBody quote s = .unclosed slice fault ∧
        (scanString quote s).content = .error fault := by
  unfold scanString
  split
  · exact .inl ⟨_, rfl⟩
  · next slice fault h => exact .inr ⟨slice, fault, h, rfl⟩

theorem scan_content_eof {s : List Char} (h : (scan symbols s).content = .ok .eof) : s = [] := by
  cases s with
  | nil => rfl
  | cons c s =>
    obtain ⟨-, hscan⟩ | ⟨-, hscan⟩ | ⟨-, hscan⟩ | hscan := scan_cases symbols c s
    · obtain ⟨x, hx⟩ := scanNumber_content (c :: s)
      rw [hscan, hx] at h
      cases h
    · rw [hscan] at h
      exact absurd (Except.ok.inj h) (ofName_ne_eof _)
    · rw [hscan] at h
      obtain ⟨content, hc⟩ | ⟨slice, fault, -, hc⟩ := scanString_content c s
      · cases hc.symm.trans h
      · cases hc.symm.trans h
    · rw [hscan] at h
      simpa using scanSymbol_content h

theorem length_afterDigits_le (s : List Char) : (afterDigits s).length ≤ s.length :=
  (List.dropWhile_suffix _).length_le

theorem scanNumber_rest_le (s : List Char) :
    (scanNumber s).rest.length ≤ (afterDigits s).length := by
  unfold scanNumber
  split
  · next rest h =>
    split
    · have hle := length_afterDigits_le rest
      rw [h, List.length_cons]
      dsimp only
      omega
    · exact Nat.le_of_eq (congrArg List.length h.symm)
  · exact Nat.le_refl _

theorem scanNumber_rest_lt {c : Char} {s : List Char}
    (h : (c.isDigit || (c == '.' && startsWithDigit s)) = true) :
    (scanNumber (c :: s)).rest.length < (c :: s).length := by
  have hs := length_afterDigits_le s
  rw [List.length_cons]
  by_cases hc : c.isDigit = true
  · have hle := scanNumber_rest_le (c :: s)
    rw [afterDigits, List.dropWhile_cons_of_pos hc] at hle
    rw [afterDigits] at hs
    omega
  · simp only [hc, Bool.false_or, Bool.and_eq_true, beq_iff_eq] at h
    obtain ⟨rfl, hdigit⟩ := h
    have hafter : afterDigits ('.' :: s) = '.' :: s := rfl
    unfold scanNumber
    rw [hafter]
    simp only [hdigit, if_true]
    omega

theorem push_eq_closed {written slice content rest : List Char} {c : Char} {b : Body}
    (h : b.push written c = .closed slice content rest) :
    ∃ slice' content', b = .closed slice' content' rest ∧ slice = written ++ slice' ∧
      content = c :: content' := by
  cases b with
  | closed slice' content' rest' =>
    simp only [Body.push, Body.closed.injEq] at h
    obtain ⟨rfl, rfl, rfl⟩ := h
    exact ⟨slice', content', rfl, rfl, rfl⟩
  | unclosed slice' fault => simp [Body.push] at h

theorem scanBody_append {quote : Char} {s slice content rest : List Char}
    (h : scanBody quote s = .closed slice content rest) (more : List Char) :
    scanBody quote (s ++ more) = .closed slice content (rest ++ more) := by
  fun_induction scanBody quote s generalizing slice content rest with
  | case1 => simp at h
  | case2 s =>
    simp only [Body.closed.injEq] at h
    obtain ⟨rfl, rfl, rfl⟩ := h
    rw [List.cons_append, scanBody.eq_def]
    simp
  | case3 => simp at h
  | case4 x s hquote ih =>
    obtain ⟨slice', content', hbody, rfl, rfl⟩ := push_eq_closed h
    rw [List.cons_append, List.cons_append, scanBody.eq_def]
    simp only [if_neg hquote, if_true, ih hbody]
    rfl
  | case5 c s hquote hescape ih =>
    obtain ⟨slice', content', hbody, rfl, rfl⟩ := push_eq_closed h
    rw [List.cons_append, scanBody.eq_def]
    simp only [if_neg hquote, if_neg hescape, ih hbody]
    rfl

theorem scanBody_rest_le {quote : Char} {s slice content rest : List Char}
    (h : scanBody quote s = .closed slice content rest) : rest.length ≤ s.length := by
  fun_induction scanBody quote s generalizing slice content rest with
  | case1 => simp at h
  | case2 s =>
    simp only [Body.closed.injEq] at h
    obtain ⟨-, -, rfl⟩ := h
    simp
  | case3 => simp at h
  | case4 x s hquote ih =>
    obtain ⟨slice', content', hbody, -, -⟩ := push_eq_closed h
    have hle := ih hbody
    simp only [List.length_cons]
    omega
  | case5 c s hquote hescape ih =>
    obtain ⟨slice', content', hbody, -, -⟩ := push_eq_closed h
    have hle := ih hbody
    simp only [List.length_cons]
    omega

theorem scanSymbol_rest_lt (hsymbols : "" ∉ symbols) (c : Char) (s : List Char) :
    (scanSymbol symbols c s).rest.length < (c :: s).length := by
  unfold scanSymbol
  split
  · next symbol h =>
    have hmem := List.mem_of_find?_eq_some h
    have hne : symbol ≠ "" := fun he => hsymbols (he ▸ hmem)
    have hpos : symbol.toList.length ≠ 0 := by simpa using hne
    simp only [List.length_drop, List.length_cons]
    omega
  · split <;> simp

theorem scan_rest_lt (hsymbols : "" ∉ symbols) {c : Char} {s : List Char} :
    (scan symbols (c :: s)).rest.length < (c :: s).length := by
  obtain ⟨h, hscan⟩ | ⟨h, hscan⟩ | ⟨-, hscan⟩ | hscan := scan_cases symbols c s
  · rw [hscan]
    exact scanNumber_rest_lt h
  · have hle := (List.dropWhile_suffix (l := s) Text.isNamePart).length_le
    rw [hscan, scanName, List.dropWhile_cons_of_pos (Text.isNamePart_of_isNameStart h)]
    exact Nat.lt_succ_of_le hle
  · rw [hscan, scanString]
    split
    · next slice content rest h =>
      exact Nat.lt_succ_of_le (scanBody_rest_le h)
    · simp
  · rw [hscan]
    exact scanSymbol_rest_lt hsymbols c s

theorem Scans.length_le (hsymbols : "" ∉ symbols) {s rest : List Char} {ts : List Token}
    (h : Scans symbols s ts rest) : ts.length ≤ s.length := by
  induction h with
  | done => simp
  | @token s rest t ts hscan hne _ ih =>
    have hdrop := (List.dropWhile_suffix (l := s) isBlank).length_le
    cases hs : s.dropWhile isBlank with
    | nil =>
      rw [hs] at hscan
      exact absurd (Except.ok.inj hscan).symm hne
    | cons c u =>
      have hlt := scan_rest_lt hsymbols (c := c) (s := u)
      rw [hs] at ih hdrop
      rw [List.length_cons]
      omega

end Lexer

namespace Cursor
open Lexer
variable {symbols : List String}

theorem readToken_of_ok {c : Cursor} {t : Token}
    (h : (scan symbols (c.rest.dropWhile isBlank)).content = .ok t) :
    ∃ start stop, c.readToken symbols =
      (⟨start, stop, .ok t⟩, ⟨(scan symbols (c.rest.dropWhile isBlank)).rest, stop, 0, stop⟩) := by
  unfold readToken
  dsimp only
  rw [h]
  exact ⟨_, _, rfl⟩

theorem scan_of_readToken {c : Cursor} {t : Token}
    (h : (c.readToken symbols).1.content = .ok t) :
    (scan symbols (c.rest.dropWhile isBlank)).content = .ok t := by
  unfold readToken at h
  dsimp only at h
  cases hscan : (scan symbols (c.rest.dropWhile isBlank)).content with
  | ok u =>
    rw [hscan] at h
    exact congrArg Except.ok (Except.ok.inj h)
  | error fault =>
    rw [hscan] at h
    cases fault <;> cases h

theorem exists_readings_eq_cons (symbols : List String) (limit : Nat) (c : Cursor) :
    ∃ later, c.readings symbols (limit + 1) = (c.next symbols).1 :: later := by
  rw [readings]
  dsimp only
  split
  · exact ⟨_, rfl⟩
  · exact ⟨_, rfl⟩

theorem readings_of_scan (limit : Nat) {c : Cursor} {t : Token} (hc : c.stray = 0)
    (h : (scan symbols (c.rest.dropWhile isBlank)).content = .ok t) :
    ∃ start stop, c.readings symbols (limit + 1) = ⟨start, stop, .ok t⟩ ::
      if t = .eof then []
      else readings symbols limit
        ⟨(scan symbols (c.rest.dropWhile isBlank)).rest, stop, 0, stop⟩ := by
  obtain ⟨start, stop, hread⟩ := readToken_of_ok h
  rw [readings, next, if_pos hc, hread]
  dsimp only
  by_cases ht : t = .eof
  · subst ht
    exact ⟨start, stop, rfl⟩
  · refine ⟨start, stop, ?_⟩
    rw [if_neg ht]
    split
    · next he => exact absurd (Except.ok.inj he) ht
    · rfl

theorem scans_of_readings {limit : Nat} {c : Cursor} {ts : List Token} (hc : c.stray = 0)
    (hts : Token.eof ∉ ts)
    (h : (c.readings symbols limit).map Lexeme.content = ts.map Except.ok ++ atEnd) :
    Scans symbols c.rest ts [] := by
  induction limit generalizing c ts with
  | zero => simp [readings] at h
  | succ limit ih =>
    obtain ⟨later, hlater⟩ := exists_readings_eq_cons symbols limit c
    have hcontent : ∃ t, (c.readToken symbols).1.content = .ok t := by
      rw [hlater, next, if_pos hc] at h
      cases ts with
      | nil => exact ⟨.eof, (List.cons.inj h).1⟩
      | cons u us => exact ⟨u, (List.cons.inj h).1⟩
    obtain ⟨t, ht⟩ := hcontent
    have hscan := scan_of_readToken ht
    obtain ⟨start, stop, hreadings⟩ := readings_of_scan limit hc hscan
    rw [hreadings] at h
    cases ts with
    | nil =>
      obtain rfl : t = .eof := Except.ok.inj (List.cons.inj h).1
      exact .done (by rw [scan_content_eof hscan]; rfl)
    | cons u us =>
      obtain rfl : t = u := Except.ok.inj (List.cons.inj h).1
      have hne : t ≠ .eof := fun he => hts (he ▸ List.mem_cons_self)
      rw [if_neg hne] at h
      have hrest := ih rfl (fun hm => hts (List.mem_cons_of_mem t hm)) (List.cons.inj h).2
      exact .token hscan hne hrest

theorem readings_of_scans {limit : Nat} {c : Cursor} {s : List Char} {ts : List Token}
    (h : Scans symbols s ts []) (hc : c.stray = 0) (hs : c.rest = s) (hlimit : ts.length < limit) :
    (c.readings symbols limit).map Lexeme.content = ts.map Except.ok ++ atEnd := by
  obtain ⟨limit, rfl⟩ : ∃ k, limit = k + 1 := ⟨limit - 1, by omega⟩
  generalize hrest : ([] : List Char) = rest at h
  induction h generalizing c limit with
  | @done s rest he =>
    subst hs hrest
    have hscan : (scan symbols (c.rest.dropWhile isBlank)).content = .ok .eof := by rw [he]; rfl
    obtain ⟨start, stop, hreadings⟩ := readings_of_scan limit hc hscan
    rw [hreadings]
    rfl
  | @token s rest t ts hscan hne _ ih =>
    subst hs
    obtain ⟨start, stop, hreadings⟩ := readings_of_scan limit hc hscan
    rw [hreadings, if_neg hne]
    obtain ⟨k, rfl⟩ : ∃ k, limit = k + 1 := ⟨limit - 1, by simp at hlimit; omega⟩
    have hlater := ih (c := ⟨_, stop, 0, stop⟩) rfl rfl k (by simp at hlimit; omega) hrest
    rw [List.map_cons, hlater]
    rfl

theorem error_of_readToken {c : Cursor} {fault : SyntaxFault}
    (h : (scan symbols (c.rest.dropWhile isBlank)).content = .error fault) :
    ∃ e, (c.readToken symbols).1.content = .error e ∧ e.isMalformed = true := by
  unfold readToken
  dsimp only
  rw [h]
  cases fault <;> exact ⟨_, rfl, rfl⟩

/-- Tokens are read up to the end of the text or to the first fault. -/
theorem exists_readings_split (hsymbols : "" ∉ symbols) {limit : Nat} {c : Cursor}
    (hc : c.stray = 0) (hlimit : c.rest.length < limit) :
    ∃ (ts : List Token) (tail : List (Except Error Token)),
      (c.readings symbols limit).map Lexeme.content = ts.map Except.ok ++ tail ∧
      Token.eof ∉ ts ∧ Ends tail := by
  induction limit generalizing c with
  | zero => omega
  | succ limit ih =>
    cases hscan : (scan symbols (c.rest.dropWhile isBlank)).content with
    | error fault =>
      obtain ⟨e, he, hmalformed⟩ := error_of_readToken hscan
      obtain ⟨later, hlater⟩ := exists_readings_eq_cons symbols limit c
      refine ⟨[], _, rfl, by simp, .inr ⟨e, later.map Lexeme.content, ?_, hmalformed⟩⟩
      rw [hlater, next, if_pos hc, List.map_cons, he]
    | ok t =>
      obtain ⟨start, stop, hreadings⟩ := readings_of_scan limit hc hscan
      by_cases ht : t = .eof
      · refine ⟨[], atEnd, ?_, by simp, .inl rfl⟩
        rw [hreadings, if_pos ht, ht]
        rfl
      · have hdrop := (List.dropWhile_suffix (l := c.rest) isBlank).length_le
        have hshorter : (scan symbols (c.rest.dropWhile isBlank)).rest.length < limit := by
          cases hs : c.rest.dropWhile isBlank with
          | nil =>
            rw [hs] at hscan
            exact absurd (Except.ok.inj hscan).symm ht
          | cons d u =>
            have hlt := scan_rest_lt hsymbols (c := d) (s := u)
            rw [hs] at hdrop
            omega
        obtain ⟨ts, tail, hsplit, hplain, hends⟩ :=
          ih (c := ⟨_, stop, 0, stop⟩) rfl hshorter
        refine ⟨t :: ts, tail, ?_, by simp [hplain, Ne.symm ht], hends⟩
        rw [hreadings, if_neg ht, List.map_cons, hsplit]
        rfl

end Cursor

theorem length_le_byteLength (s : List Char) : s.length ≤ byteLength s := by
  induction s with
  | nil => exact Nat.le_refl 0
  | cons c s ih =>
    have hpos := c.utf8Size_pos
    rw [List.length_cons, byteLength]
    omega

theorem byteLength_pos {s : List Char} (h : s ≠ []) : 0 < byteLength s := by
  have hlength := length_le_byteLength s
  have hpos := List.length_pos_iff.mpr h
  omega

theorem exists_lexemes_split {symbols : List String} (hsymbols : "" ∉ symbols) (text : String) :
    ∃ (ts : List Token) (tail : List (Except Error Token)),
      (lexemes symbols text).map Lexeme.content = ts.map Except.ok ++ tail ∧
      Token.eof ∉ ts ∧ Ends tail :=
  Cursor.exists_readings_split hsymbols rfl (Nat.lt_succ_of_le (length_le_byteLength text.toList))

section Whole
variable {symbols : List String} {s : List Char} {ts : List Token}

theorem LexesTo.scans (h : LexesTo symbols (String.ofList s) ts) : Lexer.Scans symbols s ts [] := by
  have hstart : (Cursor.atStart (String.ofList s)).rest = s := String.toList_ofList
  have hscans := Cursor.scans_of_readings rfl h.eof_notMem h
  rwa [hstart] at hscans

theorem lexesTo_of_scans (h : Lexer.Scans symbols s ts []) (hlength : ts.length ≤ s.length) :
    LexesTo symbols (String.ofList s) ts := by
  have hstart : (Cursor.atStart (String.ofList s)).rest = s := String.toList_ofList
  have hbytes := length_le_byteLength s
  unfold LexesTo lexemes
  rw [String.toList_ofList]
  exact Cursor.readings_of_scans h rfl hstart (by omega)

theorem lexesTo_iff_scans (hsymbols : "" ∉ symbols) :
    LexesTo symbols (String.ofList s) ts ↔ Lexer.Scans symbols s ts [] :=
  ⟨LexesTo.scans, fun h => lexesTo_of_scans h (h.length_le hsymbols)⟩

end Whole

theorem lexesTo_iff_scans_toList {symbols : List String} (hsymbols : "" ∉ symbols) {text : String}
    {ts : List Token} : LexesTo symbols text ts ↔ Lexer.Scans symbols text.toList ts [] := by
  rw [← lexesTo_iff_scans hsymbols, String.ofList_toList]

end PipeExpr
