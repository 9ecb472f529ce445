import PipeExpr.Proofs.Lexer.Scans
import PipeExpr.Proofs.Parser.Completeness
import PipeExpr.Proofs.Parser.Soundness
import PipeExpr.Proofs.Phrase.Settling
import PipeExpr.Proofs.Registry.Built

/-!
What the parser accepts: the token sequences that have a derivation. Of several derivations it takes
the settled one, and it refuses a text without one for a fault in it, unless the limit is too low.
-/
namespace PipeExpr

namespace Parser
variable {g : Grammar} {limit : Nat} {text : String} {ts : List Token}

theorem ofLexemes_cases {tail : List (Except Error Token)}
    (h : (lexemes g.symbols text).map Lexeme.content = ts.map Except.ok ++ tail)
    (hplain : Token.eof ∉ ts) (hends : Ends tail) :
    (∃ s, State.ofLexemes (lexemes g.symbols text) = .ok s ∧ s.Holds tail ts ∧ s.depth = 0) ∨
      (∃ e, State.ofLexemes (lexemes g.symbols text) = .error e ∧ e.isMalformed = true) ∧
        tail ≠ atEnd := by
  cases hl : lexemes g.symbols text with
  | nil =>
    rw [hl] at h
    rcases hends with rfl | ⟨e, rest, rfl, -⟩ <;> simp at h
  | cons lexeme later =>
    rw [hl] at h
    cases hc : lexeme.content with
    | error e =>
      right
      have htail : tail = .error e :: later.map Lexeme.content := by
        cases ts with
        | nil => simpa [hc] using h.symm
        | cons t ts => simp [hc] at h
      cases hends with
      | inl heq =>
        subst heq
        simp at htail
      | inr hfaulty =>
        obtain ⟨e', rest, he, hm⟩ := hfaulty
        rw [he, List.cons.injEq] at htail
        obtain rfl : e' = e := Except.error.inj htail.1
        exact ⟨⟨e', by simp [State.ofLexemes, hc, Except.map], hm⟩, by simp [he]⟩
    | ok t =>
      left
      refine ⟨⟨t, lexeme.start, later, 0⟩, by simp [State.ofLexemes, hc, Except.map],
        ⟨hplain, hends, ?_⟩, rfl⟩
      rw [← h, List.map_cons, hc]

end Parser

namespace Phrase
open PipeExpr.Parser
variable {g : Grammar} {limit : Nat} {text : String} {ts : List Token} {p : Phrase}

theorem parse_cases (limit : Nat) {tail : List (Except Error Token)}
    (h : (lexemes g.symbols text).map Lexeme.content = ts.map Except.ok ++ tail)
    (hplain : Token.eof ∉ ts) (hends : Ends tail) :
    (∃ s : State, s.Holds tail ts ∧ s.depth = 0 ∧
      (∀ p s', whole g limit s = .ok p s' → parse g limit text = .ok p) ∧
      ∀ e s', whole g limit s = .error e s' → parse g limit text = .error e) ∨
    (∃ e, parse g limit text = .error e ∧ e.isMalformed = true) ∧ tail ≠ atEnd := by
  cases ofLexemes_cases h hplain hends with
  | inl hstart =>
    obtain ⟨s, hs, hholds, hd⟩ := hstart
    refine .inl ⟨s, hholds, hd, ?_, ?_⟩
    · intro p s' hw
      simp only [parse, hs, hw]
    · intro e s' hw
      simp only [parse, hs, hw]
  | inr hfault =>
    obtain ⟨⟨e, he, hm⟩, htail⟩ := hfault
    exact .inr ⟨⟨e, by simp only [parse, he], hm⟩, htail⟩

theorem parse_sound {tail : List (Except Error Token)}
    (h : (lexemes g.symbols text).map Lexeme.content = ts.map Except.ok ++ tail)
    (hplain : Token.eof ∉ ts) (hends : Ends tail) :
    (∀ p, parse g limit text = .ok p →
      tail = atEnd ∧ p.tokens = ts ∧ p.Settled g ∧ p.depth + 1 ≤ limit) ∧
    ∀ e, parse g limit text = .error e →
      e.isMalformed = true ∨ e = .depthExceeded limit ∧ limit < 2 * ts.length + 1 := by
  cases parse_cases limit h hplain hends with
  | inl hstart =>
    obtain ⟨s, hs, hd, hok, herror⟩ := hstart
    have hsound := whole_sound g limit hs hd
    unfold Meets at hsound
    cases hw : whole g limit s with
    | ok q s' =>
      rw [hw] at hsound
      rw [hok q s' hw]
      constructor
      · intro p hp
        obtain rfl := Except.ok.inj hp
        exact hsound
      · intro e he
        cases he
    | error e s' =>
      rw [hw] at hsound
      rw [herror e s' hw]
      constructor
      · intro p hp
        cases hp
      · intro e' he
        obtain rfl := Except.error.inj he
        exact hsound.imp_right fun ⟨hl, hn⟩ => ⟨hl, Nat.lt_of_not_le hn⟩
  | inr hfault =>
    obtain ⟨⟨e, he, hm⟩, -⟩ := hfault
    rw [he]
    constructor
    · intro p hp
      cases hp
    · intro e' he'
      obtain rfl := Except.error.inj he'
      exact .inl hm

/-- The phrase that a text is read as is the settled one among those that derive its tokens. -/
theorem parse_eq_ok_iff (h : LexesTo g.symbols text ts) :
    parse g limit text = .ok p ↔ p.Settled g ∧ p.tokens = ts ∧ p.depth + 1 ≤ limit := by
  constructor
  · intro hok
    obtain ⟨-, ht, hp, hdepth⟩ := (parse_sound h h.eof_notMem (.inl rfl)).1 p hok
    exact ⟨hp, ht, hdepth⟩
  · intro hsettled
    obtain ⟨hp, rfl, hdepth⟩ := hsettled
    cases parse_cases limit h h.eof_notMem (.inl rfl) with
    | inl hstart =>
      obtain ⟨s, hs, hd, hok, -⟩ := hstart
      obtain ⟨s', hw⟩ := whole_complete hp hdepth hs hd
      exact hok p s' hw
    | inr hfault =>
      obtain ⟨-, hne⟩ := hfault
      exact absurd rfl hne

theorem lexesTo_of_parse (hsymbols : "" ∉ g.symbols) (hok : parse g limit text = .ok p) :
    LexesTo g.symbols text p.tokens := by
  obtain ⟨ts, tail, hsplit, hplain, hends⟩ := exists_lexemes_split hsymbols text
  obtain ⟨rfl, rfl, -⟩ := (parse_sound hsplit hplain hends).1 p hok
  exact hsplit

/-- Two settled derivations of the same tokens are one: the parser cannot return both. -/
theorem Settled.unique (h : LexesTo g.symbols text ts) {q : Phrase} (hp : p.Settled g)
    (hpt : p.tokens = ts) (hq : q.Settled g) (hqt : q.tokens = ts) : p = q := by
  have hpp : parse g (max (p.depth + 1) (q.depth + 1)) text = .ok p :=
    (parse_eq_ok_iff h).mpr ⟨hp, hpt, by omega⟩
  have hqq : parse g (max (p.depth + 1) (q.depth + 1)) text = .ok q :=
    (parse_eq_ok_iff h).mpr ⟨hq, hqt, by omega⟩
  exact Except.ok.inj (hpp.symm.trans hqq)

end Phrase

namespace Expr
variable {g : Grammar} {limit : Nat} {text : String} {ts : List Token}

theorem parse_eq_ok_iff {e : Expr} :
    Expr.parse g limit text = .ok e ↔ ∃ p : Phrase, Phrase.parse g limit text = .ok p ∧ p.expr = e := by
  unfold Expr.parse
  cases Phrase.parse g limit text <;> simp [Except.map]

theorem parse_eq_error_iff {e : Error} :
    Expr.parse g limit text = .error e ↔ Phrase.parse g limit text = .error e := by
  unfold Expr.parse
  cases Phrase.parse g limit text <;> simp [Except.map]

theorem parse_settled (h : LexesTo g.symbols text ts) (hlimit : 2 * ts.length + 1 ≤ limit)
    {p : Phrase} (hp : p.Settled g) (ht : p.tokens = ts) : Expr.parse g limit text = .ok p.expr := by
  have hdepth := hp.fits.depth_le_length
  rw [ht] at hdepth
  exact parse_eq_ok_iff.mpr ⟨p, (Phrase.parse_eq_ok_iff h).mpr ⟨hp, ht, by omega⟩, rfl⟩

/-- The parser accepts exactly what has a derivation, and returns what one of them stands for.
Otherwise the text is at fault. A word of the grammar is an operator only where one can stand. -/
theorem parse_accepts_derivable (h : LexesTo g.symbols text ts)
    (hlimit : 2 * ts.length + 1 ≤ limit) :
    ((∃ e, Expr.parse g limit text = .ok e) ↔ ∃ p : Phrase, p.Fits g ∧ p.tokens = ts) ∧
    (∀ e, Expr.parse g limit text = .ok e → ∃ p : Phrase, p.Fits g ∧ p.tokens = ts ∧ p.expr = e) ∧
    (∀ e, Expr.parse g limit text = .error e → e.isMalformed = true) ∧
    (∀ word n, g.precedence? word = some n →
      ts = [.identifier word, .identifier word, .identifier word] →
      Expr.parse g limit text = .ok (.binary word (.identifier word) (.identifier word))) := by
  have hderives : ∀ e, Expr.parse g limit text = .ok e →
      ∃ p : Phrase, p.Fits g ∧ p.tokens = ts ∧ p.expr = e := by
    intro e he
    obtain ⟨p, hp, rfl⟩ := parse_eq_ok_iff.mp he
    obtain ⟨hsettled, ht, -⟩ := (Phrase.parse_eq_ok_iff h).mp hp
    exact ⟨p, hsettled.fits, ht, rfl⟩
  refine ⟨⟨?_, ?_⟩, hderives, ?_, ?_⟩
  · intro haccepts
    obtain ⟨e, he⟩ := haccepts
    obtain ⟨p, hp, ht, -⟩ := hderives e he
    exact ⟨p, hp, ht⟩
  · intro hderivable
    obtain ⟨p, hp, ht⟩ := hderivable
    obtain ⟨q, hq, hqt⟩ := hp.exists_settled
    exact ⟨q.expr, parse_settled h hlimit hq (hqt.trans ht)⟩
  · intro e he
    have hfault := (Phrase.parse_sound h h.eof_notMem (.inl rfl)).2 e (parse_eq_error_iff.mp he)
    cases hfault with
    | inl hm => exact hm
    | inr hdeep =>
      obtain ⟨-, hlt⟩ := hdeep
      omega
  · rintro word n hn rfl
    exact parse_settled (p := .binary (.word word) (.leaf (.identifier word)) (.leaf (.identifier word)))
      h hlimit (.binary hn (.leaf _) (.leaf _) trivial trivial) rfl

theorem parse_word_between_words :
    Expr.parse Registry.standard.grammar 7 "in in in"
      = .ok (.binary "in" (.identifier "in") (.identifier "in")) := by
  have hlexes : LexesTo Registry.standard.grammar.symbols "in in in"
      [.identifier "in", .identifier "in", .identifier "in"] := by
    rw [LexesTo, Registry.symbols_standard]
    rfl
  exact (parse_accepts_derivable hlexes (by decide)).2.2.2 "in" 20 (by decide) rfl

end Expr
end PipeExpr
