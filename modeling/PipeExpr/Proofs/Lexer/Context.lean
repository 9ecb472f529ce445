import Mathlib.Data.List.TakeWhile
import PipeExpr.Proofs.Grammar.Sound
import PipeExpr.Proofs.Lexer.Scans
import PipeExpr.Proofs.Phrase.Tokens

/-!
Tokens in their surroundings. A token that is a leaf is read the same in front of whatever does not
run on with it; a symbol and a mark are read as written if no operator character follows.
-/
namespace PipeExpr.Lexer
open Text
variable {symbols : List String}

/-- Neither a name nor a number before this text runs on into it. -/
def Separates : List Char → Prop
  | [] => True
  | c :: s => isNamePart c = false ∧ (c = '.' → startsWithDigit s = false)

/-- A text that is read as the tokens in front of everything that separates. -/
def Spells (symbols : List String) (s : List Char) (ts : List Token) : Prop :=
  ∀ rest, Separates rest → Scans symbols (s ++ rest) ts rest

/-- A text that an operator before it does not run on into. -/
def Plain (s : List Char) : Prop := ∀ c, s.head? = some c → c ∉ Registry.operatorChars

theorem takeWhile_append_of_head {p : Char → Bool} {rest : List Char}
    (h : ∀ c, rest.head? = some c → p c = false) (s : List Char) :
    (s ++ rest).takeWhile p = s.takeWhile p := by
  induction s with
  | nil =>
    cases rest with
    | nil => rfl
    | cons c rest => simp [h c rfl]
  | cons c s ih => simp only [List.cons_append, List.takeWhile_cons, ih]

theorem dropWhile_append_of_head {p : Char → Bool} {rest : List Char}
    (h : ∀ c, rest.head? = some c → p c = false) (s : List Char) :
    (s ++ rest).dropWhile p = s.dropWhile p ++ rest := by
  induction s with
  | nil =>
    cases rest with
    | nil => rfl
    | cons c rest => simp [h c rfl]
  | cons c s ih =>
    simp only [List.cons_append, List.dropWhile_cons, ih]
    split <;> rfl

theorem Separates.head {rest : List Char} (h : Separates rest) (c : Char)
    (hc : rest.head? = some c) : isNamePart c = false := by
  cases rest with
  | nil => cases hc
  | cons d rest =>
    obtain rfl := Option.some.inj hc
    exact h.1

theorem Separates.digit {rest : List Char} (h : Separates rest) (c : Char)
    (hc : rest.head? = some c) : c.isDigit = false := by
  cases hd : c.isDigit with
  | false => rfl
  | true => exact absurd (isNamePart_of_isDigit hd) (Bool.eq_false_iff.mp (h.head c hc))

theorem Separates.startsWithDigit {rest : List Char} (h : Separates rest) :
    startsWithDigit rest = false := by
  cases rest with
  | nil => rfl
  | cons c rest => exact h.digit c rfl

theorem startsWithDigit_append {rest : List Char} (h : Separates rest) (s : List Char) :
    startsWithDigit (s ++ rest) = startsWithDigit s := by
  cases s with
  | nil => exact h.startsWithDigit
  | cons c s => rfl

theorem scanNumber_append {rest : List Char} (hr : Separates rest) (s : List Char) :
    (scanNumber (s ++ rest)).content = (scanNumber s).content ∧
      (scanNumber (s ++ rest)).rest = (scanNumber s).rest ++ rest := by
  have hdigits : ∀ u, digitsOf (u ++ rest) = digitsOf u := takeWhile_append_of_head hr.digit
  have hafter : ∀ u, afterDigits (u ++ rest) = afterDigits u ++ rest :=
    dropWhile_append_of_head hr.digit
  unfold scanNumber
  rw [hdigits, hafter]
  cases hs : afterDigits s with
  | nil =>
    cases rest with
    | nil => exact ⟨rfl, rfl⟩
    | cons c rest =>
      by_cases hc : c = '.'
      · have hpoint := hr.2 hc
        subst hc
        simp [hpoint]
      · simp [hc]
  | cons c u =>
    by_cases hc : c = '.'
    · subst hc
      simp only [List.cons_append, startsWithDigit_append hr, hdigits, hafter]
      split
      · exact ⟨rfl, rfl⟩
      · exact ⟨rfl, rfl⟩
    · simp [hc]

theorem scan_leaf_append {s rest : List Char} {l : Leaf}
    (h : (scan symbols s).content = .ok l.token) (hr : Separates rest) :
    (scan symbols (s ++ rest)).content = .ok l.token ∧
      (scan symbols (s ++ rest)).rest = (scan symbols s).rest ++ rest := by
  cases s with
  | nil => cases l <;> cases h
  | cons c s =>
    rw [List.cons_append, scan, scan, startsWithDigit_append hr]
    rw [scan] at h
    by_cases hnumber : (c.isDigit || (c == '.' && startsWithDigit s)) = true
    · rw [if_pos hnumber] at h ⊢
      rw [if_pos hnumber, ← h]
      exact scanNumber_append hr (c :: s)
    · rw [if_neg hnumber] at h ⊢
      rw [if_neg hnumber]
      by_cases hname : isNameStart c = true
      · rw [if_pos hname] at h ⊢
        rw [if_pos hname, ← h]
        have htake := takeWhile_append_of_head hr.head (c :: s)
        have hdrop := dropWhile_append_of_head hr.head (c :: s)
        rw [List.cons_append] at htake hdrop
        simp only [scanName, htake, hdrop, and_self]
      · rw [if_neg hname] at h ⊢
        rw [if_neg hname]
        by_cases hquote : (c == '"' || c == '\'') = true
        · rw [if_pos hquote] at h ⊢
          rw [if_pos hquote, ← h]
          cases hbody : scanBody c s with
          | closed slice content left =>
            simp only [scanString, hbody, scanBody_append hbody rest, and_self]
          | unclosed slice fault => simp [scanString, hbody] at h
        · rw [if_neg hquote] at h
          have hsymbol := scanSymbol_content h
          cases l <;> simp [Leaf.token] at hsymbol

theorem dropWhile_append_of_ne_nil {p : Char → Bool} {s : List Char} (h : s.dropWhile p ≠ [])
    (rest : List Char) : (s ++ rest).dropWhile p = s.dropWhile p ++ rest := by
  rw [List.dropWhile_append, if_neg (by simpa using h)]

theorem dropWhile_append_of_eq_nil {p : Char → Bool} {s : List Char} (h : s.dropWhile p = [])
    (rest : List Char) : (s ++ rest).dropWhile p = rest.dropWhile p := by
  rw [List.dropWhile_append, if_pos (by simpa using h)]

theorem spells_leaf {s : List Char} {l : Leaf} (h : Scans symbols s [l.token] []) :
    Spells symbols s [l.token] := by
  intro rest hr
  cases h with
  | token hscan hne hdone =>
    have hblank : s.dropWhile isBlank ≠ [] := by
      intro hnil
      rw [hnil] at hscan
      exact hne (Except.ok.inj hscan).symm
    have happend := dropWhile_append_of_ne_nil hblank rest
    obtain ⟨hcontent, hrest⟩ := scan_leaf_append hscan hr
    refine .token ?_ hne ?_
    · rw [happend]
      exact hcontent
    · rw [happend, hrest]
      cases hdone with
      | done hnil => exact .done (dropWhile_append_of_eq_nil hnil rest)

theorem ofName_eq_token (name : String) : ∃ l : Leaf, Token.ofName name = l.token := by
  obtain hname | ⟨k, hname⟩ := Token.ofName_cases name
  · exact ⟨.identifier name, hname⟩
  · exact ⟨.keyword k, hname⟩

theorem isDigit_iff {c : Char} : c.isDigit = true ↔ 0x30 ≤ c.toNat ∧ c.toNat ≤ 0x39 := by
  simp [Char.isDigit, UInt32.le_iff_toNat_le]

theorem isBlank_of_isNameStart {c : Char} (h : isNameStart c = true) : isBlank c = false := by
  rw [Grammar.isNameStart_iff] at h
  rw [Bool.eq_false_iff]
  intro hb
  simp only [isBlank, Bool.or_eq_true, beq_iff_eq] at hb
  rcases hb with ((rfl | rfl) | rfl) | rfl <;> simp at h

theorem isDigit_of_isNameStart {c : Char} (h : isNameStart c = true) :
    c.isDigit = false ∧ c ≠ '.' := by
  rw [Grammar.isNameStart_iff] at h
  constructor
  · rw [Bool.eq_false_iff, ne_eq, isDigit_iff]
    omega
  · intro heq
    subst heq
    simp at h

theorem scan_name {c : Char} (h : isNameStart c = true) (s : List Char) :
    scan symbols (c :: s) = scanName (c :: s) := by
  obtain ⟨hdigit, hpoint⟩ := isDigit_of_isNameStart h
  rw [scan, if_neg (by simp [hdigit, hpoint]), if_pos h]

theorem dropWhile_isBlank_of_isName {s : List Char} (h : isName s = true) :
    s.dropWhile isBlank = s := by
  obtain ⟨c, s, rfl, hstart, -⟩ := isName_eq_cons h
  rw [List.dropWhile_cons_of_neg (by simp [isBlank_of_isNameStart hstart])]

theorem scan_of_isName (symbols : List String) {name : String} (h : isName name.toList = true) :
    scan symbols name.toList = ⟨name.toList, .ok (Token.ofName name), []⟩ := by
  obtain ⟨c, s, hcs, hstart, hall⟩ := isName_eq_cons h
  rw [hcs, scan_name hstart, ← hcs, scanName, List.takeWhile_eq_self_iff.mpr hall,
    List.dropWhile_eq_nil_iff.mpr hall, String.ofList_toList]

theorem scans_name (symbols : List String) {name : String} (h : isName name.toList = true) :
    Scans symbols name.toList [Token.ofName name] [] := by
  have hdrop := dropWhile_isBlank_of_isName h
  have hscan := scan_of_isName symbols h
  refine .token ?_ (ofName_ne_eof name) ?_
  · rw [hdrop, hscan]
  · rw [hdrop, hscan]
    exact .done rfl

theorem spells_name (symbols : List String) {name : String} (h : isName name.toList = true) :
    Spells symbols name.toList [Token.ofName name] := by
  obtain ⟨l, hl⟩ := ofName_eq_token name
  have hscans := scans_name symbols h
  rw [hl] at hscans ⊢
  exact spells_leaf hscans

theorem spells_identifier (symbols : List String) {name : String}
    (h : isName name.toList = true) (hkeyword : Keyword.ofText? name = none) :
    Spells symbols name.toList [.identifier name] := by
  have hspells := spells_name symbols h
  rw [Token.ofName, hkeyword] at hspells
  exact hspells

section Sound
variable {g : Grammar}

theorem operatorChar_class {c : Char} (h : c ∈ Registry.operatorChars) : isBlank c = false ∧
    c.isDigit = false ∧ c ≠ '.' ∧ isNameStart c = false ∧ (c == '"' || c == '\'') = false := by
  have hall : Registry.operatorChars.all (fun d => !isBlank d && !d.isDigit && d != '.' &&
      !isNameStart d && !(d == '"' || d == '\'')) = true := by decide
  simpa [and_assoc] using List.all_eq_true.mp hall c h

theorem symbol_chars (hg : g.Sound) {symbol : String} (h : symbol ∈ g.symbols) :
    symbol ≠ "" ∧ (∀ c ∈ symbol.toList, c ∈ Registry.operatorChars) ∧
      Registry.hidesNegation symbol = false ∧ symbol ≠ "|" := by
  obtain ⟨hsome, hword⟩ := (hg.mem_symbols symbol).mp h
  obtain ⟨n, hn⟩ := Option.isSome_iff_exists.mp hsome
  obtain ⟨hne, hshape⟩ := Grammar.checkOperatorToken_eq_ok.mp (hg.admitted symbol n hn)
  cases hshape with
  | inl hw =>
    rw [hw] at hword
    cases hword
  | inr hsymbolic =>
    obtain ⟨hhides, hpipe, hchars⟩ := hsymbolic
    exact ⟨hne, hchars, hhides, hpipe⟩

theorem empty_notMem_symbols (hg : g.Sound) : "" ∉ g.symbols :=
  fun h => (symbol_chars hg h).1 rfl

theorem symbolAt?_eq_some {s : List Char} {symbol : String} (h : symbolAt? symbols s = some symbol) :
    symbol ∈ symbols ∧ symbol.toList <+: s := by
  have hprefix := List.find?_some h
  exact ⟨List.mem_of_find?_eq_some h, List.isPrefixOf_iff_prefix.mp hprefix⟩

/-- In front of a plain text a symbol is no longer than the character that it starts with. -/
theorem symbolAt?_single (hg : g.Sound) {c : Char} {s : List Char} {symbol : String}
    (h : symbolAt? g.symbols (c :: s) = some symbol) (hs : Plain s) :
    symbol.toList = [c] := by
  obtain ⟨hmem, hprefix⟩ := symbolAt?_eq_some h
  obtain ⟨hne, hchars, -⟩ := symbol_chars hg hmem
  cases hsymbol : symbol.toList with
  | nil => exact absurd (String.toList_eq_nil_iff.mp hsymbol) hne
  | cons d ds =>
    rw [hsymbol, List.cons_prefix_cons] at hprefix
    obtain ⟨rfl, hds⟩ := hprefix
    cases ds with
    | nil => rfl
    | cons e es =>
      obtain ⟨u, rfl⟩ := hds
      have he : e ∈ Registry.operatorChars := hchars e (by simp [hsymbol])
      exact absurd he (hs e rfl)

theorem symbolAt?_none (hg : g.Sound) {c : Char} (hc : c ∉ Registry.operatorChars)
    (s : List Char) : symbolAt? g.symbols (c :: s) = none := by
  cases h : symbolAt? g.symbols (c :: s) with
  | none => rfl
  | some symbol =>
    obtain ⟨hmem, hprefix⟩ := symbolAt?_eq_some h
    obtain ⟨hne, hchars, -⟩ := symbol_chars hg hmem
    cases hsymbol : symbol.toList with
    | nil => exact absurd (String.toList_eq_nil_iff.mp hsymbol) hne
    | cons d ds =>
      rw [hsymbol, List.cons_prefix_cons] at hprefix
      obtain ⟨rfl, -⟩ := hprefix
      exact absurd (hchars d (by simp [hsymbol])) hc

theorem scan_eq_scanSymbol {c : Char} {s : List Char} (hdigit : c.isDigit = false)
    (hpoint : c = '.' → startsWithDigit s = false) (hname : isNameStart c = false)
    (hquote : (c == '"' || c == '\'') = false) : scan symbols (c :: s) = scanSymbol symbols c s := by
  have hnumber : (c.isDigit || (c == '.' && startsWithDigit s)) = false := by
    rw [hdigit, Bool.false_or, Bool.and_eq_false_imp]
    intro hc
    exact hpoint (beq_iff_eq.mp hc)
  rw [scan, if_neg (by simp [hnumber]), if_neg (by simp [hname]), if_neg (by simp [hquote])]

theorem scan_operatorChar {c : Char} (hc : c ∈ Registry.operatorChars) (s : List Char) :
    scan symbols (c :: s) = scanSymbol symbols c s := by
  obtain ⟨-, hdigit, hpoint, hname, hquote⟩ := operatorChar_class hc
  exact scan_eq_scanSymbol hdigit (fun he => absurd he hpoint) hname hquote

theorem scan_minus (hg : g.Sound) {s : List Char} (hs : Plain s) :
    scan g.symbols ('-' :: s) = ⟨['-'], .ok (.operator "-"), s⟩ := by
  rw [scan_operatorChar (by decide), scanSymbol]
  cases h : symbolAt? g.symbols ('-' :: s) with
  | none => rfl
  | some symbol =>
    have hchars := symbolAt?_single hg h hs
    have hsymbol : symbol = "-" := String.toList_inj.mp hchars
    subst hsymbol
    rfl

theorem scan_bang (hg : g.Sound) {s : List Char} (h : s.head? ≠ some '=') :
    scan g.symbols ('!' :: s) = ⟨['!'], .ok (.mark .bang), s⟩ := by
  have hnone : symbolAt? g.symbols ('!' :: s) = none := by
    cases hfound : symbolAt? g.symbols ('!' :: s) with
    | none => rfl
    | some symbol =>
      obtain ⟨hmem, hfront⟩ := symbolAt?_eq_some hfound
      obtain ⟨hne, -, hhides, -⟩ := symbol_chars hg hmem
      have hhead : symbol.toList.head? = some '!' := by
        cases hsymbol : symbol.toList with
        | nil => exact absurd (String.toList_eq_nil_iff.mp hsymbol) hne
        | cons d ds =>
          rw [hsymbol, List.cons_prefix_cons] at hfront
          rw [List.head?_cons, hfront.1]
      obtain rfl : symbol = "!=" := by simpa [Registry.hidesNegation, hhead] using hhides
      obtain ⟨rest, hrest⟩ := hfront
      obtain rfl : '=' :: rest = s := (List.cons.inj hrest).2
      exact absurd rfl h
  rw [scan_operatorChar (by decide), scanSymbol, hnone]
  rfl

theorem scan_operatorMark (hg : g.Sound) {m : Mark} (hm : m = .bang ∨ m = .pipe) {s : List Char}
    (hs : Plain s) : scan g.symbols (m.char :: s) = ⟨[m.char], .ok (.mark m), s⟩ := by
  cases hm with
  | inl heq =>
    subst heq
    exact scan_bang hg fun hhead => hs '=' hhead (by decide)
  | inr heq =>
    subst heq
    have hnone : symbolAt? g.symbols ('|' :: s) = none := by
      cases h : symbolAt? g.symbols ('|' :: s) with
      | none => rfl
      | some symbol =>
        have hchars := symbolAt?_single hg h hs
        obtain ⟨-, -, -, hpipe⟩ := symbol_chars hg (symbolAt?_eq_some h).1
        exact absurd (String.toList_inj.mp hchars) hpipe
    rw [Mark.char, scan_operatorChar (by decide), scanSymbol, hnone]
    rfl

theorem scan_mark (hg : g.Sound) {m : Mark} (hm : m ≠ .bang ∧ m ≠ .pipe) {s : List Char}
    (hs : m = .dot → startsWithDigit s = false) :
    scan g.symbols (m.char :: s) = ⟨[m.char], .ok (.mark m), s⟩ := by
  have hchar : m.char ∉ Registry.operatorChars := by
    cases m with
    | bang => exact absurd rfl hm.1
    | pipe => exact absurd rfl hm.2
    | _ => decide
  have hnone := symbolAt?_none hg hchar s
  cases m with
  | bang => exact absurd rfl hm.1
  | pipe => exact absurd rfl hm.2
  | dot =>
    rw [scan_eq_scanSymbol rfl (fun _ => hs rfl) rfl rfl, scanSymbol, hnone]
    rfl
  | _ =>
    rw [scan_eq_scanSymbol rfl (fun he => absurd he (by decide)) rfl rfl, scanSymbol, hnone]
    rfl

/-- A symbol that a longer text starts with, where the rest does not run on, starts the shorter. -/
theorem prefix_of_prefix_append {xs ys s : List Char} (h : xs <+: ys ++ s)
    (hxs : ∀ c ∈ xs, c ∈ Registry.operatorChars) (hs : Plain s) : xs <+: ys := by
  obtain ⟨u, hu⟩ := h
  cases List.append_eq_append_iff.mp hu with
  | inl hwithin =>
    obtain ⟨zs, hys, -⟩ := hwithin
    exact ⟨zs, hys.symm⟩
  | inr hbeyond =>
    obtain ⟨zs, hxz, hsz⟩ := hbeyond
    cases zs with
    | nil =>
      rw [List.append_nil] at hxz
      exact ⟨[], by rw [hxz, List.append_nil]⟩
    | cons c zs =>
      have hc : c ∈ Registry.operatorChars := hxs c (by simp [hxz])
      exact absurd hc (hs c (by simp [hsz]))

theorem eq_of_prefix_of_size_le {a b : String} (h : a.toList <+: b.toList)
    (hsize : b.utf8ByteSize ≤ a.utf8ByteSize) : a = b := by
  obtain ⟨u, hu⟩ := h
  have hb : b = a ++ String.ofList u := by
    rw [← String.toList_inj, String.toList_append, String.toList_ofList, hu]
  have hadd : b.utf8ByteSize = a.utf8ByteSize + (String.ofList u).utf8ByteSize := by
    rw [hb, String.utf8ByteSize_append]
  have hzero : (String.ofList u).utf8ByteSize = 0 := by omega
  rw [hb, String.utf8ByteSize_eq_zero_iff.mp hzero, String.append_empty]

/-- Longer symbols are tried first. -/
theorem symbolAt?_longest (hg : g.Sound) {s : List Char} {symbol other : String}
    (h : symbolAt? g.symbols s = some symbol) (hother : other ∈ g.symbols)
    (hfront : other.toList <+: s) : other.length ≤ symbol.length := by
  obtain ⟨hfound, before, after, hsplit, hskipped⟩ := List.find?_eq_some_iff_append.mp h
  have hsorted := hg.sorted
  rw [hsplit, List.pairwise_append, List.pairwise_cons] at hsorted
  rw [hsplit, List.mem_append, List.mem_cons] at hother
  obtain hbefore | rfl | hafter := hother
  · have hnot := hskipped other hbefore
    rw [List.isPrefixOf_iff_prefix.mpr hfront] at hnot
    cases hnot
  · exact Nat.le_refl _
  · have hsize := Grammar.symbolBefore_iff.mp (hsorted.2.1.1 other hafter)
    cases List.prefix_or_prefix_of_prefix hfront (List.isPrefixOf_iff_prefix.mp hfound) with
    | inl hshorter => exact hshorter.length_le
    | inr hlonger =>
      obtain rfl := eq_of_prefix_of_size_le hlonger (by omega)
      exact Nat.le_refl _

theorem symbolAt?_eq_none {s : List Char} (h : symbolAt? symbols s = none) {symbol : String}
    (hsymbol : symbol ∈ symbols) : ¬symbol.toList <+: s := by
  intro hfront
  have hnot := List.find?_eq_none.mp h symbol hsymbol
  exact hnot (List.isPrefixOf_iff_prefix.mpr hfront)

theorem symbolAt?_symbol (hg : g.Sound) {symbol : String} (h : symbol ∈ g.symbols) {s : List Char}
    (hs : Plain s) : symbolAt? g.symbols (symbol.toList ++ s) = some symbol := by
  have hfront : symbol.toList <+: symbol.toList ++ s := List.prefix_append _ _
  cases hfound : symbolAt? g.symbols (symbol.toList ++ s) with
  | none => exact absurd hfront (symbolAt?_eq_none hfound h)
  | some other =>
    obtain ⟨hmem, hother⟩ := symbolAt?_eq_some hfound
    obtain ⟨-, hchars, -⟩ := symbol_chars hg hmem
    have hshort := prefix_of_prefix_append hother hchars hs
    have hlong := symbolAt?_longest hg hfound h hfront
    rw [String.toList_inj.mp (hshort.eq_of_length_le hlong)]

theorem scan_symbol (hg : g.Sound) {symbol : String} (h : symbol ∈ g.symbols) {s : List Char}
    (hs : Plain s) :
    scan g.symbols (symbol.toList ++ s) = ⟨symbol.toList, .ok (.operator symbol), s⟩ := by
  obtain ⟨hne, hchars, -⟩ := symbol_chars hg h
  have hfound := symbolAt?_symbol hg h hs
  cases hsymbol : symbol.toList with
  | nil => exact absurd (String.toList_eq_nil_iff.mp hsymbol) hne
  | cons c cs =>
    rw [hsymbol] at hfound hchars
    rw [List.cons_append] at hfound ⊢
    rw [scan_operatorChar (hchars c List.mem_cons_self), scanSymbol, hfound]
    simp [hsymbol]

theorem scans_cons {c : Char} {s left rest slice : List Char} {t : Token} {ts : List Token}
    (hc : isBlank c = false) (hscan : scan symbols (c :: s) = ⟨slice, .ok t, left⟩) (ht : t ≠ .eof)
    (h : Scans symbols left ts rest) : Scans symbols (c :: s) (t :: ts) rest := by
  have hdrop : (c :: s).dropWhile isBlank = c :: s := by
    rw [List.dropWhile_cons_of_neg (by simp [hc])]
  refine .token ?_ ht ?_
  · rw [hdrop, hscan]
  · rw [hdrop, hscan]
    exact h

theorem scans_blank {s rest : List Char} {ts : List Token} (h : Scans symbols s ts rest) :
    Scans symbols (' ' :: s) ts rest := h.congr rfl

theorem spells_blank {s : List Char} {ts : List Token} (h : Spells symbols s ts) :
    Spells symbols (' ' :: s) ts := fun rest hrest => scans_blank (h rest hrest)

theorem scans_mark (hg : g.Sound) {m : Mark} (hm : m ≠ .bang ∧ m ≠ .pipe) {s rest : List Char}
    {ts : List Token} (hs : m = .dot → startsWithDigit s = false) (h : Scans g.symbols s ts rest) :
    Scans g.symbols (m.char :: s) (.mark m :: ts) rest := by
  have hc : isBlank m.char = false := by cases m <;> rfl
  exact scans_cons hc (scan_mark hg hm hs) (by simp) h

theorem scans_operatorMark (hg : g.Sound) {m : Mark} (hm : m = .bang ∨ m = .pipe)
    {s rest : List Char} {ts : List Token} (hs : Plain s) (h : Scans g.symbols s ts rest) :
    Scans g.symbols (m.char :: s) (.mark m :: ts) rest := by
  have hc : isBlank m.char = false := by cases m <;> rfl
  exact scans_cons hc (scan_operatorMark hg hm hs) (by simp) h

theorem scans_minus (hg : g.Sound) {s rest : List Char} {ts : List Token} (hs : Plain s)
    (h : Scans g.symbols s ts rest) : Scans g.symbols ('-' :: s) (.operator "-" :: ts) rest :=
  scans_cons rfl (scan_minus hg hs) (by simp) h

theorem scans_symbol (hg : g.Sound) {symbol : String} (hsymbol : symbol ∈ g.symbols)
    {s rest : List Char} {ts : List Token} (hs : Plain s) (h : Scans g.symbols s ts rest) :
    Scans g.symbols (symbol.toList ++ s) (.operator symbol :: ts) rest := by
  obtain ⟨hne, hchars, -⟩ := symbol_chars hg hsymbol
  have hscan := scan_symbol hg hsymbol hs
  cases hlist : symbol.toList with
  | nil => exact absurd (String.toList_eq_nil_iff.mp hlist) hne
  | cons c cs =>
    rw [hlist] at hscan hchars
    obtain ⟨hblank, -⟩ := operatorChar_class (hchars c List.mem_cons_self)
    exact scans_cons hblank hscan (by simp) h

end Sound
end PipeExpr.Lexer
