import PipeExpr.Expr.Phrase
import PipeExpr.Grammar

/-!
The grammar of expressions. A phrase is a derivation: `tokens` is what it derives, and `Fits` says
that its operators are those of a table. `Settled` picks the derivation that precedences single out.
-/
namespace PipeExpr

def Leaf.token : Leaf → Token
  | .number x => .number x
  | .string content => .string content
  | .keyword k => .keyword k
  | .identifier name => .identifier name

def MemberName.token : MemberName → Token
  | .word name => .identifier name
  | .keyword k => .keyword k

def FieldKey.token : FieldKey → Token
  | .word name => .identifier name
  | .quoted content => .string content

def OperatorName.token : OperatorName → Token
  | .symbol token => .operator token
  | .word token => .identifier token

def Sign.token : Sign → Token
  | .not => .mark .bang
  | .minus => .operator "-"

theorem Leaf.ofToken?_eq_some {t : Token} {l : Leaf} : ofToken? t = some l ↔ t = l.token := by
  constructor
  · intro h
    cases t <;> simp [ofToken?] at h <;> subst h <;> rfl
  · intro heq
    subst heq
    cases l <;> rfl

theorem MemberName.ofToken?_eq_some {t : Token} {n : MemberName} :
    ofToken? t = some n ↔ t = n.token := by
  constructor
  · intro h
    cases t <;> simp [ofToken?] at h <;> subst h <;> rfl
  · intro heq
    subst heq
    cases n <;> rfl

theorem FieldKey.ofToken?_eq_some {t : Token} {k : FieldKey} :
    ofToken? t = some k ↔ t = k.token := by
  constructor
  · intro h
    cases t <;> simp [ofToken?] at h <;> subst h <;> rfl
  · intro heq
    subst heq
    cases k <;> rfl

theorem OperatorName.ofToken?_eq_some {t : Token} {o : OperatorName} :
    ofToken? t = some o ↔ t = o.token := by
  constructor
  · intro h
    cases t <;> simp [ofToken?] at h <;> subst h <;> rfl
  · intro heq
    subst heq
    cases o <;> rfl

theorem Sign.ofToken?_eq_some {t : Token} {s : Sign} : ofToken? t = some s ↔ t = s.token := by
  constructor
  · intro h
    unfold ofToken? at h
    split at h
    · obtain rfl := Option.some.inj h; rfl
    · obtain rfl := Option.some.inj h; rfl
    · cases h
  · intro heq
    subst heq
    cases s <;> rfl

def separated {α : Type} (spell : α → List Token) : List α → List Token
  | [] => []
  | [a] => spell a
  | a :: rest => spell a ++ .mark .comma :: separated spell rest

theorem separated_map {α β : Type} (spell : β → List Token) (f : α → β) (as : List α) :
    separated spell (as.map f) = separated (fun a => spell (f a)) as := by
  induction as with
  | nil => rfl
  | cons a rest ih =>
    cases rest with
    | nil => rfl
    | cons b rest =>
      rw [List.map_cons] at ih
      simp only [List.map_cons, separated, ih]

theorem infix_separated {α : Type} (spell : α → List Token) {a : α} {as : List α} (h : a ∈ as) :
    spell a <:+: separated spell as := by
  induction as with
  | nil => cases h
  | cons b rest ih =>
    cases rest with
    | nil =>
      obtain rfl := List.mem_singleton.mp h
      exact List.infix_refl _
    | cons c rest =>
      simp only [separated]
      cases List.mem_cons.mp h with
      | inl heq =>
        subst heq
        exact (List.prefix_append _ _).isInfix
      | inr h =>
        exact (ih h).trans ((List.suffix_cons _ _).trans (List.suffix_append _ _)).isInfix

namespace Phrase

mutual
def tokens : Phrase → List Token
  | .leaf l => [l.token]
  | .group inner => .mark .leftParen :: inner.tokens ++ [.mark .rightParen]
  | .array items => .mark .leftBracket :: itemTokens items ++ [.mark .rightBracket]
  | .object fields => .mark .leftBrace :: fieldTokens fields ++ [.mark .rightBrace]
  | .dot target name => target.tokens ++ [.mark .dot, name.token]
  | .index target key => target.tokens ++ .mark .leftBracket :: key.tokens ++ [.mark .rightBracket]
  | .pipe subject name => subject.tokens ++ [.mark .pipe, .identifier name]
  | .call subject name arguments =>
    subject.tokens ++ .mark .pipe :: .identifier name :: .mark .leftParen :: itemTokens arguments
      ++ [.mark .rightParen]
  | .signed sign operand => sign.token :: operand.tokens
  | .binary operator left right => left.tokens ++ operator.token :: right.tokens
  | .conditional test consequent alternate =>
    test.tokens ++ .mark .question :: consequent.tokens ++ .mark .colon :: alternate.tokens

def itemTokens : List Phrase → List Token
  | [] => []
  | [p] => p.tokens
  | p :: rest => p.tokens ++ .mark .comma :: itemTokens rest

def fieldTokens : List (FieldKey × Phrase) → List Token
  | [] => []
  | [(key, p)] => key.token :: .mark .colon :: p.tokens
  | (key, p) :: rest =>
    key.token :: .mark .colon :: p.tokens ++ .mark .comma :: fieldTokens rest
end

def entryTokens (field : FieldKey × Phrase) : List Token :=
  field.1.token :: .mark .colon :: field.2.tokens

theorem itemTokens_eq (items : List Phrase) : itemTokens items = separated tokens items := by
  induction items with
  | nil => rfl
  | cons p rest ih =>
    cases rest with
    | nil => rfl
    | cons q rest => simp only [itemTokens, separated, ih]

theorem fieldTokens_eq (fields : List (FieldKey × Phrase)) :
    fieldTokens fields = separated entryTokens fields := by
  induction fields with
  | nil => rfl
  | cons f rest ih =>
    obtain ⟨key, p⟩ := f
    cases rest with
    | nil => rfl
    | cons q rest => simp only [fieldTokens, separated, entryTokens, ih, List.cons_append]

/-- An atom with steps behind it, or an atom alone. -/
def isPath : Phrase → Bool
  | .signed .. | .binary .. | .conditional .. => false
  | _ => true

/-- What can stand on either side of a binary operator whatever its precedence. -/
def isOperand : Phrase → Bool
  | .binary .. | .conditional .. => false
  | _ => true

def isConditional : Phrase → Bool
  | .conditional .. => true
  | _ => false

/-- Fit for an operand where only operators of precedence `least` and higher are admitted. -/
def Binds (g : Grammar) (least : Nat) : Phrase → Prop
  | .conditional .. => False
  | .binary operator .. => ∃ precedence, g.precedence? operator.text = some precedence ∧
      least ≤ precedence
  | _ => True

/-- Every operator of the phrase is one of the table. -/
inductive Fits (g : Grammar) : Phrase → Prop where
  | leaf (l : Leaf) : Fits g (.leaf l)
  | group {inner : Phrase} : Fits g inner → Fits g (.group inner)
  | array {items : List Phrase} : (∀ p ∈ items, Fits g p) → Fits g (.array items)
  | object {fields : List (FieldKey × Phrase)} : (∀ f ∈ fields, Fits g f.2) → Fits g (.object fields)
  | dot {target : Phrase} (name : MemberName) : Fits g target → Fits g (.dot target name)
  | index {target key : Phrase} : Fits g target → Fits g key → Fits g (.index target key)
  | pipe {subject : Phrase} (name : String) : Fits g subject → Fits g (.pipe subject name)
  | call {subject : Phrase} (name : String) {arguments : List Phrase} : Fits g subject →
      (∀ p ∈ arguments, Fits g p) → Fits g (.call subject name arguments)
  | signed (sign : Sign) {operand : Phrase} : Fits g operand → Fits g (.signed sign operand)
  | binary {operator : OperatorName} {left right : Phrase} {precedence : Nat} :
      g.precedence? operator.text = some precedence → Fits g left → Fits g right →
      Fits g (.binary operator left right)
  | conditional {test consequent alternate : Phrase} : Fits g test → Fits g consequent →
      Fits g alternate → Fits g (.conditional test consequent alternate)

/-- The phrase is one that precedences leave as the only one: operands that bind less tightly than
what they stand in are in parentheses, and operators of one precedence lean to the left. -/
inductive Settled (g : Grammar) : Phrase → Prop where
  | leaf (l : Leaf) : Settled g (.leaf l)
  | group {inner : Phrase} : Settled g inner → Settled g (.group inner)
  | array {items : List Phrase} : (∀ p ∈ items, Settled g p) → Settled g (.array items)
  | object {fields : List (FieldKey × Phrase)} : (∀ f ∈ fields, Settled g f.2) →
      Settled g (.object fields)
  | dot {target : Phrase} (name : MemberName) : Settled g target → target.isPath = true →
      Settled g (.dot target name)
  | index {target key : Phrase} : Settled g target → target.isPath = true → Settled g key →
      Settled g (.index target key)
  | pipe {subject : Phrase} (name : String) : Settled g subject → subject.isPath = true →
      Settled g (.pipe subject name)
  | call {subject : Phrase} (name : String) {arguments : List Phrase} : Settled g subject →
      subject.isPath = true → (∀ p ∈ arguments, Settled g p) →
      Settled g (.call subject name arguments)
  | signed (sign : Sign) {operand : Phrase} : Settled g operand → operand.isOperand = true →
      Settled g (.signed sign operand)
  | binary {operator : OperatorName} {left right : Phrase} {precedence : Nat} :
      g.precedence? operator.text = some precedence → Settled g left → Settled g right →
      left.Binds g precedence → right.Binds g (precedence + 1) →
      Settled g (.binary operator left right)
  | conditional {test consequent alternate : Phrase} : Settled g test →
      test.isConditional = false → Settled g consequent → Settled g alternate →
      Settled g (.conditional test consequent alternate)

theorem isOperand_of_isPath {p : Phrase} (h : p.isPath = true) : p.isOperand = true := by
  cases p <;> simp_all [isPath, isOperand]

theorem binds_of_isOperand {g : Grammar} {least : Nat} {p : Phrase} (h : p.isOperand = true) :
    p.Binds g least := by
  cases p <;> simp_all [isOperand, Binds]

theorem Binds.mono {g : Grammar} {least less : Nat} {p : Phrase} (h : p.Binds g least)
    (hle : less ≤ least) : p.Binds g less := by
  cases p with
  | binary operator left right =>
    obtain ⟨precedence, hp, hl⟩ := h
    exact ⟨precedence, hp, Nat.le_trans hle hl⟩
  | conditional => exact h
  | _ => trivial

theorem Settled.binds_zero {g : Grammar} {p : Phrase} (h : p.Settled g)
    (hc : p.isConditional = false) : p.Binds g 0 := by
  cases h with
  | binary hp => exact ⟨_, hp, Nat.zero_le _⟩
  | conditional => simp [isConditional] at hc
  | _ => trivial

theorem Settled.fits {g : Grammar} {p : Phrase} (h : p.Settled g) : p.Fits g := by
  induction h with
  | leaf l => exact .leaf l
  | group _ ih => exact .group ih
  | array _ ih => exact .array ih
  | object _ ih => exact .object ih
  | dot name _ _ ih => exact .dot name ih
  | index _ _ _ iht ihk => exact .index iht ihk
  | pipe name _ _ ih => exact .pipe name ih
  | call name _ _ _ ihs iha => exact .call name ihs iha
  | signed sign _ _ ih => exact .signed sign ih
  | binary hp _ _ _ _ ihl ihr => exact .binary hp ihl ihr
  | conditional _ _ _ _ iht ihc iha => exact .conditional iht ihc iha

def opens : Token → Bool
  | .mark .leftParen | .mark .leftBracket | .mark .leftBrace | .mark .bang => true
  | .mark _ | .eof => false
  | _ => true

def lead : Phrase → Token
  | .leaf l => l.token
  | .group _ => .mark .leftParen
  | .array _ => .mark .leftBracket
  | .object _ => .mark .leftBrace
  | .dot target _ => target.lead
  | .index target _ => target.lead
  | .pipe subject _ => subject.lead
  | .call subject _ _ => subject.lead
  | .signed sign _ => sign.token
  | .binary _ left _ => left.lead
  | .conditional test _ _ => test.lead

theorem tokens_eq_lead (p : Phrase) : ∃ ts, p.tokens = p.lead :: ts := by
  fun_induction lead p with
  | case1 | case2 | case3 | case4 | case9 => exact ⟨_, rfl⟩
  | case5 _ _ ih | case6 _ _ ih | case7 _ _ ih | case8 _ _ _ ih | case10 _ _ _ ih
  | case11 _ _ _ ih =>
    obtain ⟨ts, ht⟩ := ih
    simp only [tokens, ht, List.cons_append]
    exact ⟨_, rfl⟩

theorem opens_lead (p : Phrase) : opens p.lead = true := by
  fun_induction lead p with
  | case1 l => cases l <;> rfl
  | case9 sign => cases sign <;> rfl
  | case2 | case3 | case4 => rfl
  | case5 _ _ ih | case6 _ _ ih | case7 _ _ ih | case8 _ _ _ ih | case10 _ _ _ ih
  | case11 _ _ _ ih => exact ih

theorem Settled.sign_lead {g : Grammar} {p : Phrase} (h : p.Settled g) (hp : p.isPath = true) :
    Sign.ofToken? p.lead = none := by
  induction h with
  | leaf l => cases l <;> rfl
  | group | array | object => rfl
  | dot name _ ht ih => exact ih ht
  | index _ ht _ ih => exact ih ht
  | pipe name _ hs ih => exact ih hs
  | call name _ hs _ ih => exact ih hs
  | signed | binary | conditional => simp [isPath] at hp

end Phrase
end PipeExpr
