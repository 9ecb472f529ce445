import PipeExpr.Expr.Render
import PipeExpr.Proofs.Lexer.Context
import PipeExpr.Proofs.Phrase.Depth

/-!
The text of an expression as a phrase. `Renderable` says which expressions have a text that means
them, and `Writes` relates such an expression to a phrase: the phrase stands for the expression, and
its tokens are those that the text is read as, whatever separates them from what comes behind.
-/
namespace PipeExpr
open Lexer

namespace Expr

mutual
def size : Expr → Nat
  | .literal _ => 1
  | .identifier _ => 1
  | .member target property => target.size + property.size + 1
  | .not operand => operand.size + 1
  | .negate operand => operand.size + 1
  | .binary _ left right => left.size + right.size + 1
  | .conditional test consequent alternate => test.size + consequent.size + alternate.size + 1
  | .transform _ subject arguments => subject.size + sizes arguments + 1
  | .array items => sizes items + 1
  | .object entries => entrySizes entries + 1

def sizes : List Expr → Nat
  | [] => 0
  | e :: rest => e.size + sizes rest

def entrySizes : List (String × Expr) → Nat
  | [] => 0
  | (_, e) :: rest => e.size + entrySizes rest
end

theorem size_pos (e : Expr) : 0 < e.size := by
  cases e <;> simp only [size] <;> omega

def PlainName (name : String) : Prop :=
  Text.isName name.toList = true ∧ Keyword.ofText? name = none

instance : DecidablePred PlainName := fun _ => inferInstanceAs (Decidable (_ ∧ _))

/-- Names are plain, operators are in the table, and the text of every literal and of every key is
read as that literal and nothing else. -/
inductive Renderable (g : Grammar) : Expr → Prop where
  | literal {v : Value} (l : Leaf) : l.expr = .literal v →
      LexesTo g.symbols (Expr.literal v).text [l.token] → Renderable g (.literal v)
  | identifier {name : String} : PlainName name → Renderable g (.identifier name)
  | member {target property : Expr} : Renderable g target → Renderable g property →
      Renderable g (.member target property)
  | not {operand : Expr} : Renderable g operand → Renderable g (.not operand)
  | negate {operand : Expr} : Renderable g operand → Renderable g (.negate operand)
  | binary {operator : String} {left right : Expr} : (g.precedence? operator).isSome = true →
      Keyword.ofText? operator = none → Renderable g left → Renderable g right →
      Renderable g (.binary operator left right)
  | conditional {test consequent alternate : Expr} : Renderable g test →
      Renderable g consequent → Renderable g alternate →
      Renderable g (.conditional test consequent alternate)
  | transform {name : String} {subject : Expr} {arguments : List Expr} : PlainName name →
      Renderable g subject → (∀ e ∈ arguments, Renderable g e) →
      Renderable g (.transform name subject arguments)
  | array {items : List Expr} : (∀ e ∈ items, Renderable g e) → Renderable g (.array items)
  | object {entries : List (String × Expr)} :
      (∀ entry ∈ entries,
        LexesTo g.symbols (Expr.literal (.string entry.1)).text [.string entry.1]) →
      (∀ entry ∈ entries, Renderable g entry.2) → Renderable g (.object entries)

end Expr

/-- A mark that is read the same whatever stands around it. -/
def Mark.Apart (m : Mark) : Prop := m ≠ .bang ∧ m ≠ .pipe ∧ m ≠ .dot

instance : DecidablePred Mark.Apart := fun _ => inferInstanceAs (Decidable (_ ∧ _))

namespace Lexer

/-- A text that an operator does not run on into, whatever follows it. -/
def Begins (s : List Char) : Prop := ∃ c cs, s = c :: cs ∧ c ∉ Registry.operatorChars

theorem Begins.plain {s : List Char} (h : Begins s) (t : List Char) : Plain (s ++ t) := by
  obtain ⟨c, cs, rfl, hc⟩ := h
  intro d hd
  obtain rfl := Option.some.inj hd
  exact hc

theorem Begins.append {s : List Char} (h : Begins s) (t : List Char) : Begins (s ++ t) := by
  obtain ⟨c, cs, rfl, hc⟩ := h
  exact ⟨c, cs ++ t, rfl, hc⟩

theorem begins_name {name : List Char} (h : Text.isName name = true) : Begins name := by
  obtain ⟨c, s, rfl, hstart, -⟩ := Text.isName_eq_cons h
  refine ⟨c, s, rfl, ?_⟩
  intro hc
  obtain ⟨-, -, -, hname, -⟩ := operatorChar_class hc
  rw [hname] at hstart
  cases hstart

theorem begins_leaf {symbols : List String} {s : List Char} {l : Leaf}
    (h : Scans symbols s [l.token] []) : Begins s := by
  cases h with
  | token hscan hne hrest =>
    cases s with
    | nil => exact absurd (Except.ok.inj hscan).symm hne
    | cons c s =>
      refine ⟨c, s, rfl, ?_⟩
      intro hc
      obtain ⟨hblank, -⟩ := operatorChar_class hc
      rw [List.dropWhile_cons_of_neg (by simp [hblank]), scan_operatorChar hc] at hscan
      have hsymbol := scanSymbol_content hscan
      cases l <;> simp [Leaf.token] at hsymbol

theorem separates_cons {c : Char} (hc : Text.isNamePart c = false) (hpoint : c ≠ '.')
    (s : List Char) : Separates (c :: s) := ⟨hc, fun he => absurd he hpoint⟩

theorem separates_mark {m : Mark} (hm : m.Apart) (s : List Char) : Separates (m.char :: s) := by
  cases m with
  | dot => exact absurd rfl hm.2.2
  | _ => exact separates_cons rfl (by decide) s

theorem startsWithDigit_name {name : List Char} (h : Text.isName name = true) (rest : List Char) :
    startsWithDigit (name ++ rest) = false := by
  obtain ⟨c, s, rfl, hstart, -⟩ := Text.isName_eq_cons h
  exact (isDigit_of_isNameStart hstart).1

section Sound
variable {g : Grammar} {m o c : Mark} {s t u rest : List Char} {ts us vs : List Token}

theorem scans_apart (hg : g.Sound) (hm : m.Apart) (h : Scans g.symbols s ts rest) :
    Scans g.symbols (m.char :: s) (.mark m :: ts) rest :=
  scans_mark hg ⟨hm.1, hm.2.1⟩ (fun hdot => absurd hdot hm.2.2) h

theorem scans_between (hg : g.Sound) (ho : o.Apart) (hc : c.Apart) (h : Spells g.symbols s ts)
    (rest : List Char) :
    Scans g.symbols (o.char :: (s ++ c.char :: rest)) (.mark o :: (ts ++ [.mark c])) rest := by
  have hclose : Scans g.symbols (c.char :: rest) [.mark c] rest := scans_apart hg hc (.done rfl)
  have hinner := (h (c.char :: rest) (separates_mark hc rest)).append hclose
  exact scans_apart hg ho hinner

theorem spells_dotted (hg : g.Sound) (h : Spells g.symbols s ts) {name : String}
    (hname : Text.isName name.toList = true) :
    Spells g.symbols (s ++ '.' :: name.toList) (ts ++ [.mark .dot, Token.ofName name]) := by
  intro rest hr
  have hdigit := startsWithDigit_name hname rest
  have hdot := scans_mark (m := .dot) hg (by decide) (fun _ => hdigit)
    (spells_name g.symbols hname rest hr)
  have hseparates : Separates ('.' :: (name.toList ++ rest)) := ⟨rfl, fun _ => hdigit⟩
  simpa [Mark.char] using (h _ hseparates).append hdot

theorem exists_operatorName (hg : g.Sound) {operator : String}
    (hknown : (g.precedence? operator).isSome = true) (hkeyword : Keyword.ofText? operator = none) :
    ∃ o : OperatorName, o.text = operator ∧ ∀ s ts t us, Spells g.symbols s ts →
      Spells g.symbols t us →
      Spells g.symbols (s ++ ' ' :: (operator.toList ++ ' ' :: t)) (ts ++ o.token :: us) := by
  have hspells : ∀ o : OperatorName, (∀ s ts rest, Scans g.symbols s ts rest →
      Scans g.symbols (operator.toList ++ ' ' :: s) (o.token :: ts) rest) → ∀ s ts t us,
      Spells g.symbols s ts → Spells g.symbols t us →
      Spells g.symbols (s ++ ' ' :: (operator.toList ++ ' ' :: t)) (ts ++ o.token :: us) := by
    intro o ho s ts t us hs ht rest hr
    have hbehind := scans_blank (ho _ _ _ (ht rest hr))
    simpa using (hs _ (separates_cons rfl (by decide) _)).append hbehind
  cases hword : Grammar.isWord operator with
  | true =>
    have hname : Text.isName operator.toList = true := by
      rw [← Grammar.isWord_eq_isName]
      exact hword
    refine ⟨.word operator, rfl, hspells (.word operator) ?_⟩
    intro s ts rest h
    have hname := spells_identifier g.symbols hname hkeyword (' ' :: s)
      (separates_cons rfl (by decide) s)
    exact hname.append (scans_blank h)
  | false =>
    have hmem : operator ∈ g.symbols := (hg.mem_symbols operator).mpr ⟨hknown, hword⟩
    refine ⟨.symbol operator, rfl, hspells (.symbol operator) ?_⟩
    intro s ts rest h
    have hplain : Plain (' ' :: s) := by
      intro c hc
      obtain rfl := Option.some.inj hc
      decide
    exact scans_symbol hg hmem hplain (scans_blank h)

theorem spells_conditional (hg : g.Sound) (h : Spells g.symbols s ts) (ht : Spells g.symbols t us)
    (hu : Spells g.symbols u vs) :
    Spells g.symbols (s ++ ' ' :: '?' :: ' ' :: t ++ ' ' :: ':' :: ' ' :: u)
      (ts ++ .mark .question :: us ++ .mark .colon :: vs) := by
  intro rest hr
  have hcolon := scans_blank (scans_apart (m := .colon) hg (by decide) (scans_blank (hu rest hr)))
  have hthen := (ht _ (separates_cons rfl (by decide) _)).append hcolon
  have hquestion := scans_blank (scans_apart (m := .question) hg (by decide) (scans_blank hthen))
  simpa [Mark.char] using (h _ (separates_cons rfl (by decide) _)).append hquestion

theorem spells_between (hg : g.Sound) (ho : o.Apart) (hc : c.Apart) (h : Spells g.symbols s ts) :
    Spells g.symbols (o.char :: s ++ [c.char]) (.mark o :: ts ++ [.mark c]) := by
  intro rest _
  simpa using scans_between hg ho hc h rest

theorem spells_brackets (hg : g.Sound) (h : Spells g.symbols s ts) :
    Spells g.symbols ('[' :: s ++ [']']) (.mark .leftBracket :: ts ++ [.mark .rightBracket]) :=
  spells_between (o := .leftBracket) (c := .rightBracket) hg (by decide) (by decide) h

theorem spells_braces (hg : g.Sound) (h : Spells g.symbols s ts) :
    Spells g.symbols ('{' :: s ++ ['}']) (.mark .leftBrace :: ts ++ [.mark .rightBrace]) :=
  spells_between (o := .leftBrace) (c := .rightBrace) hg (by decide) (by decide) h

end Sound
end Lexer

/-- The phrase stands for the expression, and is what its text is read as. -/
structure Writes (g : Grammar) (e : Expr) (p : Phrase) : Prop where
  settled : p.Settled g
  expr : p.expr = e
  spells : Spells g.symbols e.chars p.tokens
  path : e.isOperation = false → p.isPath = true ∧ Begins e.chars
  steps : p.steps < e.size
  depth : p.depth < 2 * e.size

/-- The same for an operand, which is in parentheses if it is an operation. -/
structure WritesOperand (g : Grammar) (e : Expr) (p : Phrase) : Prop where
  settled : p.Settled g
  expr : p.expr = e
  spells : Spells g.symbols (Expr.enclosed e.isOperation e.chars) p.tokens
  path : p.isPath = true
  begins : Begins (Expr.enclosed e.isOperation e.chars)
  steps : p.steps < e.size
  depth : p.depth ≤ 2 * e.size

section
variable {g : Grammar}

theorem Writes.operand (hg : g.Sound) {e : Expr} {p : Phrase} (h : Writes g e p) :
    ∃ q, WritesOperand g e q := by
  cases ho : e.isOperation with
  | false =>
    obtain ⟨hpath, hbegins⟩ := h.path ho
    have hdepth := h.depth
    refine ⟨p, h.settled, h.expr, ?_, hpath, ?_, h.steps, by omega⟩
    · rw [ho]
      exact h.spells
    · rw [ho]
      exact hbegins
  | true =>
    have hsize := e.size_pos
    have hdepth := h.depth
    refine ⟨.group p, .group h.settled, h.expr, ?_, rfl, ?_, hsize, ?_⟩
    · rw [ho]
      simpa [Expr.enclosed, Phrase.tokens, Mark.char] using
        spells_between (o := .leftParen) (c := .rightParen) hg (by decide) (by decide) h.spells
    · rw [ho]
      exact ⟨'(', _, rfl, by decide⟩
    · simp only [Phrase.depth]
      omega

theorem writes_literal {v : Value} (l : Leaf) (hl : l.expr = .literal v)
    (h : Scans g.symbols (Expr.literal v).chars [l.token] []) : Writes g (.literal v) (.leaf l) where
  settled := .leaf l
  expr := hl
  spells := spells_leaf h
  path _ := ⟨rfl, begins_leaf h⟩
  steps := Nat.one_pos
  depth := by simp [Phrase.depth, Expr.size]

theorem writes_identifier {name : String} (h : Expr.PlainName name) :
    Writes g (.identifier name) (.leaf (.identifier name)) where
  settled := .leaf _
  expr := rfl
  spells := spells_identifier g.symbols h.1 h.2
  path _ := ⟨rfl, begins_name h.1⟩
  steps := Nat.one_pos
  depth := by simp [Phrase.depth, Expr.size]

theorem exists_memberName (name : String) :
    ∃ m : MemberName, m.token = Token.ofName name ∧ m.text = name := by
  unfold Token.ofName
  cases hk : Keyword.ofText? name with
  | none => exact ⟨.word name, rfl, rfl⟩
  | some k => exact ⟨.keyword k, rfl, (Keyword.text_of_ofText? hk).symm⟩

theorem dottedName?_eq_some {property : Expr} {s : List Char}
    (h : Expr.dottedName? property = some s) :
    ∃ name, property = .literal (.string name) ∧ s = name.toList ∧ Text.isName s = true := by
  unfold Expr.dottedName? at h
  split at h
  · next name =>
    split at h
    · next hname =>
      obtain rfl := Option.some.inj h
      exact ⟨name, rfl, rfl, hname⟩
    · cases h
  · cases h

theorem writes_dotted (hg : g.Sound) {target : Expr} {name : String} {q : Phrase}
    (hq : WritesOperand g target q) (hname : Text.isName name.toList = true) :
    ∃ p, Writes g (.member target (.literal (.string name))) p := by
  obtain ⟨m, hm, htext⟩ := exists_memberName name
  have hdotted : Expr.dottedName? (.literal (.string name)) = some name.toList := by
    simp [Expr.dottedName?, hname]
  have hsteps := hq.steps
  have hdepth := hq.depth
  refine ⟨.dot q m, .dot m hq.settled hq.path, ?_, ?_, ?_, ?_, ?_⟩
  · simp only [Phrase.expr, hq.expr, htext]
  · simpa only [Expr.chars, hdotted, Phrase.tokens, hm] using spells_dotted hg hq.spells hname
  · intro _
    simp only [Expr.chars, hdotted]
    exact ⟨rfl, hq.begins.append _⟩
  · simp only [Phrase.steps, Expr.size]
    omega
  · simp only [Phrase.depth, Expr.size]
    omega

theorem writes_indexed (hg : g.Sound) {target property : Expr} {q k : Phrase}
    (hq : WritesOperand g target q) (hk : Writes g property k)
    (hdotted : Expr.dottedName? property = none) :
    Writes g (.member target property) (.index q k) := by
  have hsteps := hq.steps
  have hdepth := hq.depth
  have hkey := hk.depth
  have hpos := property.size_pos
  refine ⟨.index hq.settled hq.path hk.settled, ?_, ?_, ?_, ?_, ?_⟩
  · simp only [Phrase.expr, hq.expr, hk.expr]
  · intro rest hr
    have hindex := scans_between (o := .leftBracket) (c := .rightBracket) hg (by decide)
      (by decide) hk.spells rest
    have hall := (hq.spells _ (separates_cons rfl (by decide) _)).append hindex
    simpa [Expr.chars, hdotted, Phrase.tokens, Mark.char] using hall
  · intro _
    simp only [Expr.chars, hdotted]
    exact ⟨rfl, (hq.begins.append _).append _⟩
  · simp only [Phrase.steps, Expr.size]
    omega
  · simp only [Phrase.depth, Expr.size]
    omega

theorem writes_signed (sign : Sign) (c : Char) {e operand : Expr} {q : Phrase}
    (hq : WritesOperand g operand q)
    (hscan : ∀ s ts rest, Plain s → Scans g.symbols s ts rest →
      Scans g.symbols (c :: s) (sign.token :: ts) rest)
    (he : sign.apply operand = e) (ho : e.isOperation = true)
    (hchars : e.chars = c :: Expr.enclosed operand.isOperation operand.chars)
    (hsize : e.size = operand.size + 1) : Writes g e (.signed sign q) := by
  have hdepth := hq.depth
  refine ⟨.signed sign hq.settled (Phrase.isOperand_of_isPath hq.path), ?_, ?_, ?_, ?_, ?_⟩
  · simp only [Phrase.expr, hq.expr, he]
  · intro rest hr
    rw [hchars]
    exact hscan _ _ _ (hq.begins.plain rest) (hq.spells rest hr)
  · intro hnot
    rw [ho] at hnot
    cases hnot
  · simp only [Phrase.steps]
    omega
  · simp only [Phrase.depth]
    omega

theorem writes_not (hg : g.Sound) {operand : Expr} {q : Phrase} (hq : WritesOperand g operand q) :
    Writes g (.not operand) (.signed .not q) := by
  refine writes_signed .not '!' hq ?_ rfl rfl (Expr.chars_not operand) ?_
  · intro s ts rest hs h
    exact scans_operatorMark hg (.inl rfl) hs h
  · rw [Expr.size]

theorem writes_negate (hg : g.Sound) {operand : Expr} {q : Phrase}
    (hq : WritesOperand g operand q) : Writes g (.negate operand) (.signed .minus q) := by
  refine writes_signed .minus '-' hq ?_ rfl rfl (Expr.chars_negate operand) ?_
  · intro s ts rest hs h
    exact scans_minus hg hs h
  · rw [Expr.size]

theorem writes_binary (hg : g.Sound) {operator : String} {left right : Expr} {q r : Phrase}
    (hknown : (g.precedence? operator).isSome = true) (hkeyword : Keyword.ofText? operator = none)
    (hq : WritesOperand g left q) (hr : WritesOperand g right r) :
    ∃ p, Writes g (.binary operator left right) p := by
  obtain ⟨o, rfl, hspells⟩ := exists_operatorName hg hknown hkeyword
  obtain ⟨n, hn⟩ := Option.isSome_iff_exists.mp hknown
  have hql := Phrase.isOperand_of_isPath hq.path
  have hrl := Phrase.isOperand_of_isPath hr.path
  have hfolds := Phrase.folds_of_isOperand hql
  have hleft := hq.depth
  have hright := hr.depth
  have hpos := left.size_pos
  refine ⟨.binary o q r, .binary hn hq.settled hr.settled (Phrase.binds_of_isOperand hql)
    (Phrase.binds_of_isOperand hrl), ?_, ?_, ?_, ?_, ?_⟩
  · simp only [Phrase.expr, hq.expr, hr.expr]
  · simpa [Expr.chars, Phrase.tokens] using hspells _ _ _ _ hq.spells hr.spells
  · intro hnot
    cases hnot
  · simp only [Phrase.steps, Expr.size]
    omega
  · simp only [Phrase.depth, Expr.size, hfolds]
    omega

theorem writes_conditional (hg : g.Sound) {test consequent alternate : Expr} {t c a : Phrase}
    (ht : WritesOperand g test t) (hc : Writes g consequent c) (ha : Writes g alternate a) :
    Writes g (.conditional test consequent alternate) (.conditional t c a) := by
  have htest := ht.depth
  have hconsequent := hc.depth
  have halternate := ha.depth
  have htc : t.isConditional = false := by
    have hpath := ht.path
    cases t <;> first | rfl | cases hpath
  refine ⟨.conditional ht.settled htc hc.settled ha.settled, ?_, ?_, ?_, ?_, ?_⟩
  · simp only [Phrase.expr, ht.expr, hc.expr, ha.expr]
  · simpa [Expr.chars, Phrase.tokens] using spells_conditional hg ht.spells hc.spells ha.spells
  · intro hnot
    cases hnot
  · simp only [Phrase.steps, Expr.size]
    omega
  · simp only [Phrase.depth, Expr.size]
    omega

theorem writes_pipe (hg : g.Sound) {name : String} {subject : Expr} {q : Phrase}
    (hname : Expr.PlainName name) (hq : WritesOperand g subject q) :
    Writes g (.transform name subject []) (.pipe q name) := by
  have hsteps := hq.steps
  have hdepth := hq.depth
  refine ⟨.pipe name hq.settled hq.path, ?_, ?_, ?_, ?_, ?_⟩
  · simp only [Phrase.expr, hq.expr]
  · intro rest hrest
    have hword := (writes_identifier (g := g) hname).spells rest hrest
    have hpipe := scans_operatorMark (m := .pipe) hg (.inr rfl) ((begins_name hname.1).plain rest)
      hword
    have hall := (hq.spells _ (separates_cons rfl (by decide) _)).append hpipe
    simpa [Expr.chars, Phrase.tokens, Leaf.token, Mark.char] using hall
  · intro _
    simp only [Expr.chars]
    exact ⟨rfl, hq.begins.append _⟩
  · simp only [Phrase.steps, Expr.size, Expr.sizes]
    omega
  · simp only [Phrase.depth, Expr.size, Expr.sizes]
    omega

theorem scans_comma (hg : g.Sound) {s more rest : List Char} {ts us : List Token}
    (h : Spells g.symbols s ts) (hmore : Scans g.symbols more us rest) :
    Scans g.symbols (s ++ ',' :: more) (ts ++ .mark .comma :: us) rest := by
  have hcomma := scans_apart (m := .comma) hg (by decide) hmore
  exact (h _ (separates_cons rfl (by decide) _)).append hcomma

structure WritesItems (g : Grammar) (es : List Expr) (ps : List Phrase) : Prop where
  settled : ∀ p ∈ ps, p.Settled g
  exprs : Phrase.exprs ps = es
  spells : Spells g.symbols (Expr.itemChars es) (Phrase.itemTokens ps)
  depth : Phrase.itemsDepth ps ≤ 2 * Expr.sizes es

theorem writes_items (hg : g.Sound) {es : List Expr} (h : ∀ e ∈ es, ∃ p, Writes g e p) :
    ∃ ps, WritesItems g es ps := by
  induction es with
  | nil =>
    refine ⟨[], by simp, rfl, ?_, Nat.zero_le _⟩
    intro rest hrest
    exact .done rfl
  | cons e es ih =>
    obtain ⟨p, hp⟩ := h e List.mem_cons_self
    obtain ⟨ps, hps⟩ := ih fun e' he' => h e' (List.mem_cons_of_mem e he')
    have hdepth := hp.depth
    have hbehind := hps.depth
    refine ⟨p :: ps, List.forall_mem_cons.mpr ⟨hp.settled, hps.settled⟩, ?_, ?_, ?_⟩
    · simp only [Phrase.exprs, hp.expr, hps.exprs]
    · intro rest hrest
      have hmore := hps.spells rest hrest
      have hexprs := hps.exprs
      cases ps with
      | nil =>
        subst hexprs
        exact hp.spells rest hrest
      | cons q ps =>
        cases es with
        | nil => cases hexprs
        | cons e' es =>
          simpa [Expr.itemChars, Phrase.itemTokens] using
            scans_comma hg hp.spells (scans_blank hmore)
    · simp only [Phrase.itemsDepth, Expr.sizes]
      omega

structure WritesFields (g : Grammar) (entries : List (String × Expr))
    (fields : List (FieldKey × Phrase)) : Prop where
  settled : ∀ f ∈ fields, f.2.Settled g
  exprs : Phrase.fieldExprs fields = entries
  spells : Spells g.symbols (Expr.entryChars entries) (Phrase.fieldTokens fields)
  depth : Phrase.fieldsDepth fields ≤ 2 * Expr.entrySizes entries

theorem spells_entry (hg : g.Sound) {key : String} {s : List Char} {p : Phrase}
    (hkey : Scans g.symbols (Json.stringChars key) [.string key] [])
    (h : Spells g.symbols s p.tokens) :
    Spells g.symbols (Json.stringChars key ++ ':' :: s) (Phrase.entryTokens (.quoted key, p)) := by
  intro rest hrest
  have hcolon := scans_apart (m := .colon) hg (by decide) (h rest hrest)
  have hspells : Spells g.symbols (Json.stringChars key) [.string key] :=
    spells_leaf (l := .string key) hkey
  have hall := (hspells _ (separates_cons rfl (by decide) _)).append hcolon
  simpa [Phrase.entryTokens, FieldKey.token, Mark.char] using hall

theorem writes_fields (hg : g.Sound) {entries : List (String × Expr)}
    (hkeys : ∀ entry ∈ entries,
      Scans g.symbols (Json.stringChars entry.1) [.string entry.1] [])
    (h : ∀ entry ∈ entries, ∃ p, Writes g entry.2 p) : ∃ fields, WritesFields g entries fields := by
  induction entries with
  | nil =>
    refine ⟨[], by simp, rfl, ?_, Nat.zero_le _⟩
    intro rest hrest
    exact .done rfl
  | cons entry entries ih =>
    obtain ⟨key, e⟩ := entry
    obtain ⟨p, hp⟩ := h (key, e) List.mem_cons_self
    obtain ⟨fields, hfields⟩ := ih (fun f hf => hkeys f (List.mem_cons_of_mem _ hf))
      fun f hf => h f (List.mem_cons_of_mem _ hf)
    have hentry := spells_entry hg (hkeys (key, e) List.mem_cons_self) (spells_blank hp.spells)
    have hdepth : p.depth < 2 * e.size := hp.depth
    have hbehind := hfields.depth
    refine ⟨(.quoted key, p) :: fields,
      List.forall_mem_cons.mpr ⟨hp.settled, hfields.settled⟩, ?_, ?_, ?_⟩
    · simp only [Phrase.fieldExprs, hp.expr, hfields.exprs, FieldKey.text]
    · intro rest hrest
      have hmore := hfields.spells rest hrest
      have hexprs := hfields.exprs
      cases fields with
      | nil =>
        subst hexprs
        exact hentry rest hrest
      | cons f fields =>
        cases entries with
        | nil => cases hexprs
        | cons entry' entries =>
          simpa [Expr.entryChars, Phrase.fieldTokens, Phrase.entryTokens] using
            scans_comma hg hentry (scans_blank hmore)
    · simp only [Phrase.fieldsDepth, Expr.entrySizes]
      omega

theorem writes_call (hg : g.Sound) {name : String} {subject : Expr} {arguments : List Expr}
    {q : Phrase} {ps : List Phrase} (hname : Expr.PlainName name) (hq : WritesOperand g subject q)
    (hps : WritesItems g arguments ps) (hne : arguments ≠ []) :
    Writes g (.transform name subject arguments) (.call q name ps) := by
  have hsteps := hq.steps
  have hdepth := hq.depth
  have hitems := hps.depth
  have hchars : (Expr.transform name subject arguments).chars =
      Expr.enclosed subject.isOperation subject.chars ++ '|' :: name.toList ++
        '(' :: Expr.itemChars arguments ++ [')'] := by
    cases arguments with
    | nil => exact absurd rfl hne
    | cons e es => simp [Expr.chars]
  refine ⟨.call name hq.settled hq.path hps.settled, ?_, ?_, ?_, ?_, ?_⟩
  · simp only [Phrase.expr, hq.expr, hps.exprs]
  · intro rest hrest
    have harguments := scans_between (o := .leftParen) (c := .rightParen) hg (by decide)
      (by decide) hps.spells rest
    have hword := ((writes_identifier (g := g) hname).spells _
      (separates_cons rfl (by decide) _)).append harguments
    have hpipe := scans_operatorMark (m := .pipe) hg (.inr rfl)
      ((begins_name hname.1).plain _) hword
    have hall := (hq.spells _ (separates_cons rfl (by decide) _)).append hpipe
    rw [hchars]
    simpa [Phrase.tokens, Leaf.token, Mark.char] using hall
  · intro _
    rw [hchars]
    exact ⟨rfl, ((hq.begins.append _).append _).append _⟩
  · simp only [Phrase.steps, Expr.size]
    omega
  · simp only [Phrase.depth, Expr.size]
    omega

theorem writes_array (hg : g.Sound) {es : List Expr} {ps : List Phrase}
    (hps : WritesItems g es ps) : Writes g (.array es) (.array ps) := by
  have hitems := hps.depth
  refine ⟨.array hps.settled, ?_, ?_, ?_, ?_, ?_⟩
  · simp only [Phrase.expr, hps.exprs]
  · simpa [Expr.chars, Phrase.tokens] using spells_brackets hg hps.spells
  · intro _
    exact ⟨rfl, '[', _, by rw [Expr.chars]; rfl, by decide⟩
  · exact Nat.succ_pos _
  · simp only [Phrase.depth, Expr.size]
    omega

theorem writes_object (hg : g.Sound) {entries : List (String × Expr)}
    {fields : List (FieldKey × Phrase)} (hfields : WritesFields g entries fields) :
    Writes g (.object entries) (.object fields) := by
  have hitems := hfields.depth
  refine ⟨.object hfields.settled, ?_, ?_, ?_, ?_, ?_⟩
  · simp only [Phrase.expr, hfields.exprs]
  · simpa [Expr.chars, Phrase.tokens] using spells_braces hg hfields.spells
  · intro _
    exact ⟨rfl, '{', _, by rw [Expr.chars]; rfl, by decide⟩
  · exact Nat.succ_pos _
  · simp only [Phrase.depth, Expr.size]
    omega

end
end PipeExpr
