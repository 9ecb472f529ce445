import Mathlib.Data.List.Forall2
import Mathlib.Data.List.TakeWhile
import PipeExpr.Proofs.Lexer.Sources

/-!
Tokens written apart. What is taken for a token is read as that token wherever blanks follow it or nothing
does (`scan_apart`), so the tokens of a text are those of its slices with any blanks between them.
-/
namespace PipeExpr

/-- The slices of the tokens of a text. Its last reading is the end. -/
def sources (symbols : List String) (text : String) : List (List Char) :=
  (lexemes symbols text).dropLast.map (Lexeme.source text)

/-- The slices in their order, a gap in front of each and one behind the last. -/
def respaced (gaps : Nat → List Char) : List (List Char) → List Char
  | [] => gaps 0
  | slice :: slices => gaps 0 ++ slice ++ respaced (fun i => gaps (i + 1)) slices

namespace Lexer
open Text
variable {symbols : List String} {g : Grammar} {rest : List Char}

/-- The end of a text or a blank. -/
def Gapped (rest : List Char) : Prop := ∀ c, rest.head? = some c → isBlank c = true

theorem isBlank_class {c : Char} (h : isBlank c = true) :
    isNamePart c = false ∧ c ≠ '.' ∧ c ∉ Registry.operatorChars := by
  simp only [isBlank, Bool.or_eq_true, beq_iff_eq] at h
  rcases h with ((rfl | rfl) | rfl) | rfl <;> decide

theorem Gapped.separates (h : Gapped rest) : Separates rest := by
  cases rest with
  | nil => trivial
  | cons c rest =>
    obtain ⟨hname, hpoint, -⟩ := isBlank_class (h c rfl)
    exact ⟨hname, fun he => absurd he hpoint⟩

theorem Gapped.plain (h : Gapped rest) : Plain rest := fun c hc => (isBlank_class (h c hc)).2.2

theorem gapped_of_blank {gap : List Char} (h : ∀ c ∈ gap, isBlank c = true)
    (hrest : gap = [] → Gapped rest) : Gapped (gap ++ rest) := by
  cases gap with
  | nil => exact hrest rfl
  | cons c gap =>
    intro d hd
    obtain rfl := Option.some.inj hd
    exact h _ List.mem_cons_self

section Numbers

theorem takeDigits_append {digits : List Char} (h : ∀ c ∈ digits, c.isDigit = true)
    (hr : ∀ c, rest.head? = some c → c.isDigit = false) :
    digitsOf (digits ++ rest) = digits ∧ afterDigits (digits ++ rest) = rest := by
  rw [digitsOf, afterDigits, takeWhile_append_of_head hr, dropWhile_append_of_head hr,
    List.takeWhile_eq_self_iff.mpr h, List.dropWhile_eq_nil_iff.mpr h]
  exact ⟨rfl, rfl⟩

theorem scanNumber_numeral_append {s : List Char} {x : Float} (h : Numeral s x)
    (hr : Separates rest) : scanNumber (s ++ rest) = ⟨s, .ok (.number x), rest⟩ := by
  cases h with
  | whole hne hdigits =>
    obtain ⟨htake, hdrop⟩ := takeDigits_append hdigits hr.digit
    simp only [scanNumber, htake, hdrop]
    split
    · next rest' hpoint => rw [if_neg (by simp [hr.2 rfl])]
    · rfl
  | @pointed digits fraction hdigits hne hfraction =>
    have hpoint : ∀ c, ('.' :: (fraction ++ rest)).head? = some c → c.isDigit = false := by
      intro c hc
      obtain rfl := Option.some.inj hc
      rfl
    have hstarts : startsWithDigit (fraction ++ rest) = true := by
      cases fraction with
      | nil => exact absurd rfl hne
      | cons c fraction => exact hfraction c List.mem_cons_self
    obtain ⟨htake, hdrop⟩ := takeDigits_append hdigits hpoint
    obtain ⟨htake', hdrop'⟩ := takeDigits_append hfraction hr.digit
    rw [List.append_assoc, List.cons_append]
    simp only [scanNumber, htake, hdrop, hstarts, htake', hdrop', if_true]

theorem Numeral.starts {s : List Char} {x : Float} (h : Numeral s x) (rest : List Char) :
    ∃ c s', s = c :: s' ∧ (c.isDigit || (c == '.' && startsWithDigit (s' ++ rest))) = true := by
  cases h with
  | whole hne hdigits =>
    cases s with
    | nil => exact absurd rfl hne
    | cons c digits => exact ⟨c, digits, rfl, by simp [hdigits c List.mem_cons_self]⟩
  | @pointed digits fraction hdigits hne hfraction =>
    cases digits with
    | cons c digits => exact ⟨c, _, rfl, by simp [hdigits c List.mem_cons_self]⟩
    | nil =>
      cases fraction with
      | nil => exact absurd rfl hne
      | cons d fraction =>
        have hd : d.isDigit = true := hfraction d List.mem_cons_self
        exact ⟨'.', d :: fraction, rfl, by simp [startsWithDigit, hd]⟩

theorem scan_numeral_append {s : List Char} {x : Float} (h : Numeral s x) (hr : Separates rest) :
    scan symbols (s ++ rest) = ⟨s, .ok (.number x), rest⟩ := by
  have hscan := scanNumber_numeral_append h hr
  obtain ⟨c, s', rfl, hstarts⟩ := Numeral.starts h rest
  rw [List.cons_append] at hscan ⊢
  rw [scan, if_pos hstarts, hscan]

end Numbers

theorem scan_name_append {c : Char} (h : isNameStart c = true) (s : List Char)
    (hr : Separates rest) : scan symbols ((scanName (c :: s)).slice ++ rest) =
      ⟨(scanName (c :: s)).slice, (scanName (c :: s)).content, rest⟩ := by
  have hall : ∀ d ∈ (c :: s).takeWhile isNamePart, isNamePart d = true :=
    List.all_eq_true.mp List.all_takeWhile
  have hcons : (c :: s).takeWhile isNamePart = c :: s.takeWhile isNamePart :=
    List.takeWhile_cons_of_pos (isNamePart_of_isNameStart h)
  have hslice : (scanName (c :: s)).slice = (c :: s).takeWhile isNamePart := rfl
  rw [hslice]
  have hscan : scan symbols ((c :: s).takeWhile isNamePart ++ rest) =
      scanName ((c :: s).takeWhile isNamePart ++ rest) := by
    rw [hcons, List.cons_append]
    exact scan_name h _
  rw [hscan, scanName, takeWhile_append_of_head hr.head, dropWhile_append_of_head hr.head,
    List.takeWhile_eq_self_iff.mpr hall, List.dropWhile_eq_nil_iff.mpr hall]
  rfl

theorem scanBody_slice {quote : Char} {s slice content rest : List Char}
    (h : scanBody quote s = .closed slice content rest) :
    scanBody quote slice = .closed slice content [] := by
  fun_induction scanBody quote s generalizing slice content rest with
  | case1 => cases h
  | case2 s =>
    obtain ⟨rfl, rfl, rfl⟩ := Body.closed.inj h
    rw [scanBody.eq_def]
    simp
  | case3 => cases h
  | case4 x s hquote ih =>
    obtain ⟨slice', content', hbody, rfl, rfl⟩ := push_eq_closed h
    rw [scanBody.eq_def]
    simp only [List.cons_append, List.nil_append, if_neg hquote, if_true, ih hbody]
    rfl
  | case5 c s hquote hescape ih =>
    obtain ⟨slice', content', hbody, rfl, rfl⟩ := push_eq_closed h
    rw [scanBody.eq_def]
    simp only [List.cons_append, List.nil_append, if_neg hquote, if_neg hescape, ih hbody]
    rfl

theorem scan_quote {c : Char} (h : (c == '"' || c == '\'') = true) (s : List Char) :
    scan symbols (c :: s) = scanString c s := by
  have hquote : c = '"' ∨ c = '\'' := by simpa using h
  rcases hquote with rfl | rfl
  · rfl
  · rfl

theorem scan_string_append {c : Char} (h : (c == '"' || c == '\'') = true) {s : List Char} {t : Token}
    (hcontent : (scanString c s).content = .ok t) (rest : List Char) :
    scan symbols ((scanString c s).slice ++ rest) = ⟨(scanString c s).slice, .ok t, rest⟩ := by
  cases hbody : scanBody c s with
  | unclosed slice fault => simp [scanString, hbody] at hcontent
  | closed slice content left =>
    have happend := scanBody_append (scanBody_slice hbody) rest
    simp only [scanString, hbody, Except.ok.injEq] at hcontent ⊢
    rw [List.cons_append, scan_quote h, scanString, happend, ← hcontent]
    rfl

theorem scan_symbol_append (hg : g.Sound) {c : Char} {s : List Char} {t : Token}
    (hcontent : (scanSymbol g.symbols c s).content = .ok t) (hr : Gapped rest) :
    scan g.symbols ((scanSymbol g.symbols c s).slice ++ rest) =
      ⟨(scanSymbol g.symbols c s).slice, .ok t, rest⟩ := by
  unfold scanSymbol at hcontent ⊢
  cases hfound : symbolAt? g.symbols (c :: s) with
  | some symbol =>
    simp only [hfound, Except.ok.injEq] at hcontent ⊢
    rw [scan_symbol hg (symbolAt?_eq_some hfound).1 hr.plain, hcontent]
  | none =>
    cases hsingle : single? c with
    | none => simp [hfound, hsingle] at hcontent
    | some token =>
      simp only [hfound, hsingle, Except.ok.injEq] at hcontent ⊢
      subst hcontent
      unfold single? at hsingle
      split at hsingle
      · next hminus =>
        obtain rfl := Option.some.inj hsingle
        rw [hminus]
        exact scan_minus hg hr.plain
      · obtain ⟨m, hm, rfl⟩ := Option.map_eq_some_iff.mp hsingle
        obtain rfl := Mark.char_of_ofChar? hm
        by_cases hoperator : m = .bang ∨ m = .pipe
        · exact scan_operatorMark hg hoperator hr.plain
        · rw [not_or] at hoperator
          exact scan_mark hg hoperator fun _ => hr.separates.startsWithDigit

/-- What is taken for a token is read as that token, whatever stood behind it, where blanks follow it or
nothing does. -/
theorem scan_apart (hg : g.Sound) {s : List Char} {t : Token}
    (h : (scan g.symbols s).content = .ok t) (ht : t ≠ .eof) (hr : Gapped rest) :
    scan g.symbols ((scan g.symbols s).slice ++ rest) = ⟨(scan g.symbols s).slice, .ok t, rest⟩ := by
  cases s with
  | nil => exact absurd (Except.ok.inj h).symm ht
  | cons c s =>
    obtain ⟨hstart, hscan⟩ | ⟨hstart, hscan⟩ | ⟨hquote, hscan⟩ | hscan :=
      scan_cases g.symbols c s <;> rw [hscan] at h ⊢
    · obtain ⟨x, hx, hnumeral⟩ := scanNumber_numeral hstart
      obtain rfl := Except.ok.inj (hx.symm.trans h)
      exact scan_numeral_append hnumeral hr.separates
    · rw [scan_name_append hstart s hr.separates, h]
    · exact scan_string_append hquote h rest
    · exact scan_symbol_append hg h hr

/-- The slice starts with no blank, and is read as the token in front of every gap. -/
structure Apart (symbols : List String) (slice : List Char) (t : Token) : Prop where
  starts : ∃ c s, slice = c :: s ∧ isBlank c = false
  token : t ≠ .eof
  scan : ∀ rest, Gapped rest → scan symbols (slice ++ rest) = ⟨slice, .ok t, rest⟩

theorem apart_of_scan (hg : g.Sound) {s : List Char} {t : Token}
    (h : (scan g.symbols (s.dropWhile isBlank)).content = .ok t) (ht : t ≠ .eof) :
    Apart g.symbols (scan g.symbols (s.dropWhile isBlank)).slice t := by
  refine ⟨?_, ht, fun rest hr => scan_apart hg h ht hr⟩
  have hsplit := scan_slice_append g.symbols (s.dropWhile isBlank)
  cases hslice : (scan g.symbols (s.dropWhile isBlank)).slice with
  | nil =>
    -- nothing but the end of the text is read from nothing
    have hend : Gapped [] := nofun
    have hscan := scan_apart hg h ht hend
    rw [hslice] at hscan
    exact absurd (Except.ok.inj (congrArg Scan.content hscan)).symm ht
  | cons c u =>
    refine ⟨c, u, rfl, ?_⟩
    rw [hslice, List.cons_append] at hsplit
    have hhead := List.head?_dropWhile_not isBlank s
    rw [← hsplit] at hhead
    simpa using hhead

theorem scans_respaced {slices : List (List Char)} {ts : List Token}
    (h : List.Forall₂ (Apart symbols) slices ts) {gaps : Nat → List Char}
    (hblank : ∀ i, ∀ c ∈ gaps i, isBlank c = true)
    (hapart : ∀ i, 0 < i → i < slices.length → gaps i ≠ []) :
    Scans symbols (respaced gaps slices) ts [] := by
  induction h generalizing gaps with
  | nil =>
    refine .done ?_
    rw [respaced, List.dropWhile_eq_nil_iff.mpr (hblank 0)]
    rfl
  | @cons slice t slices ts hslice _ ih =>
    have hbehind : Scans symbols (respaced (fun i => gaps (i + 1)) slices) ts [] :=
      ih (fun i => hblank (i + 1)) fun i hpos hlt => hapart (i + 1) (by omega) (by simpa using hlt)
    have hgap : Gapped (respaced (fun i => gaps (i + 1)) slices) := by
      cases slices with
      | nil =>
        rw [respaced, ← List.append_nil (gaps _)]
        exact gapped_of_blank (hblank 1) fun _ => nofun
      | cons slice' slices =>
        rw [respaced, List.append_assoc]
        exact gapped_of_blank (hblank 1) fun he => absurd he (hapart 1 (by omega) (by simp))
    obtain ⟨c, s, rfl, hc⟩ := hslice.starts
    have hfront : Scans symbols (c :: s ++ respaced (fun i => gaps (i + 1)) slices) (t :: ts) [] :=
      scans_cons hc (hslice.scan _ hgap) hslice.token hbehind
    rw [respaced, List.append_assoc]
    exact hfront.congr (List.dropWhile_append_of_pos (hblank 0))

end Lexer

section Sources
open Lexer
variable {g : Grammar} {text : String}

theorem source_apart (hg : g.Sound) {lexeme : Lexeme} (hmem : lexeme ∈ lexemes g.symbols text)
    {t : Token} (h : lexeme.content = .ok t) (ht : t ≠ .eof) :
    Apart g.symbols (lexeme.source text) t := by
  obtain ⟨s, hscan, hsource⟩ := exists_source_of_mem (empty_notMem_symbols hg) hmem h
  rw [hsource]
  exact apart_of_scan hg hscan ht

theorem LexesTo.sources_apart (hg : g.Sound) {ts : List Token} (h : LexesTo g.symbols text ts) :
    List.Forall₂ (Apart g.symbols) (sources g.symbols text) ts := by
  have hmap : (lexemes g.symbols text).dropLast.map Lexeme.content = ts.map Except.ok := by
    rw [List.map_dropLast, h, List.dropLast_concat]
  have hcontents : List.Forall₂ (fun lexeme t => Lexeme.content lexeme = .ok t)
      (lexemes g.symbols text).dropLast ts := by
    refine List.forall₂_map_left_iff.mp (List.forall₂_map_right_iff.mp ?_)
    rw [hmap, List.forall₂_eq_eq_eq]
  obtain ⟨hlength, hcontent⟩ := List.forall₂_iff_zip.mp hcontents
  refine List.forall₂_map_left_iff.mpr (List.forall₂_iff_zip.mpr ⟨hlength, fun hzip => ?_⟩)
  obtain ⟨hlexeme, ht⟩ := List.of_mem_zip hzip
  exact source_apart hg (List.dropLast_subset _ hlexeme) (hcontent hzip)
    fun he => h.eof_notMem (he ▸ ht)

theorem LexesTo.respaced (hg : g.Sound) {ts : List Token} (h : LexesTo g.symbols text ts)
    {gaps : Nat → List Char} (hblank : ∀ i, ∀ c ∈ gaps i, isBlank c = true)
    (hapart : ∀ i, 0 < i → i < (sources g.symbols text).length → gaps i ≠ []) :
    LexesTo g.symbols (String.ofList (respaced gaps (sources g.symbols text))) ts :=
  (lexesTo_iff_scans (empty_notMem_symbols hg)).mpr
    (scans_respaced (h.sources_apart hg) hblank hapart)

end Sources
end PipeExpr
