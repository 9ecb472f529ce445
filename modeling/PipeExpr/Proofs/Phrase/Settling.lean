import PipeExpr.Proofs.Phrase.Tokens

/-!
Whatever has a derivation has a settled one. A derivation that goes against the precedences is put
right from below: what stands behind a phrase moves to the operand that ends it, a sign to the
operand that begins it, and an operator between two settled phrases sinks to where it belongs.
-/
namespace PipeExpr.Phrase
variable {g : Grammar}

theorem isConditional_of_binds {least : Nat} {p : Phrase} (h : p.Binds g least) :
    p.isConditional = false := by
  cases p <;> simp_all [Binds, isConditional]

theorem exists_of_not_binds {least : Nat} {p : Phrase} (hs : p.Settled g)
    (hc : p.isConditional = false) (hb : ¬p.Binds g least) :
    ∃ operator left right precedence, p = .binary operator left right ∧
      g.precedence? operator.text = some precedence ∧ precedence < least := by
  cases hs with
  | @binary operator left right precedence hp =>
    exact ⟨operator, left, right, precedence, rfl, hp,
      Nat.lt_of_not_le fun hle => hb ⟨precedence, hp, hle⟩⟩
  | conditional => simp [isConditional] at hc
  | _ => exact absurd trivial hb

/-- The phrase is settled and derives `ts`, and it can stand wherever `p` can. -/
structure Replaces (g : Grammar) (p : Phrase) (ts : List Token) (q : Phrase) : Prop where
  settled : q.Settled g
  tokens : q.tokens = ts
  operand : p.isOperand = true → q.isOperand = true
  binds : ∀ least, p.Binds g least → q.Binds g least

theorem exists_behind (us : List Token)
    (hstep : ∀ p : Phrase, p.Settled g → p.isPath = true →
      ∃ q : Phrase, q.Settled g ∧ q.isPath = true ∧ q.tokens = p.tokens ++ us)
    {p : Phrase} (h : p.Settled g) : ∃ q, Replaces g p (p.tokens ++ us) q := by
  have hpath : ∀ p : Phrase, p.Settled g → p.isPath = true →
      ∃ q, Replaces g p (p.tokens ++ us) q := fun p hs hp => by
    obtain ⟨q, hq, hqp, ht⟩ := hstep p hs hp
    have ho := isOperand_of_isPath hqp
    exact ⟨q, hq, ht, fun _ => ho, fun _ _ => binds_of_isOperand ho⟩
  have hs := h
  induction h with
  | signed sign ho hop ih =>
    obtain ⟨q, hq⟩ := ih ho
    exact ⟨.signed sign q, .signed sign hq.settled (hq.operand hop), by simp [tokens, hq.tokens],
      fun _ => rfl, fun _ _ => trivial⟩
  | @binary operator left right precedence hp hl hr hlb hrb _ ih =>
    obtain ⟨q, hq⟩ := ih hr
    exact ⟨.binary operator left q, .binary hp hl hq.settled hlb (hq.binds _ hrb),
      by simp [tokens, hq.tokens], fun ho => by simp [isOperand] at ho, fun _ hb => hb⟩
  | @conditional test consequent alternate ht htc hc ha _ _ ih =>
    obtain ⟨q, hq⟩ := ih ha
    exact ⟨.conditional test consequent q, .conditional ht htc hc hq.settled,
      by simp [tokens, hq.tokens], fun ho => by simp [isOperand] at ho, fun _ hb => hb⟩
  | _ => exact hpath _ hs rfl

theorem exists_signed (sign : Sign) {p : Phrase} (h : p.Settled g) :
    ∃ q, Replaces g p (sign.token :: p.tokens) q := by
  have hs := h
  induction h with
  | @binary operator left right precedence hp hl hr hlb hrb ih _ =>
    obtain ⟨q, hq⟩ := ih hl
    exact ⟨.binary operator q right, .binary hp hq.settled hr (hq.binds _ hlb) hrb,
      by simp [tokens, hq.tokens], fun ho => by simp [isOperand] at ho, fun _ hb => hb⟩
  | @conditional test consequent alternate ht htc hc ha ih _ _ =>
    obtain ⟨q, hq⟩ := ih ht
    exact ⟨.conditional q consequent alternate, .conditional hq.settled
        (isConditional_of_binds (hq.binds 0 (ht.binds_zero htc))) hc ha,
      by simp [tokens, hq.tokens], fun ho => by simp [isOperand] at ho, fun _ hb => hb⟩
  | _ => exact ⟨.signed sign _, .signed sign hs rfl, rfl, fun _ => rfl, fun _ _ => trivial⟩

/-- The phrase is settled and derives `p`, an operator of precedence `n` and `q`. -/
structure Joins (g : Grammar) (operator : OperatorName) (n : Nat) (p q r : Phrase) : Prop where
  settled : r.Settled g
  tokens : r.tokens = p.tokens ++ operator.token :: q.tokens
  binds : ∀ least ≤ n, p.Binds g least → q.Binds g least → r.Binds g least

section Joins
variable {operator : OperatorName} {n : Nat} {p q : Phrase}

theorem exists_joins_left {outer : OperatorName} {left right : Phrase} {m : Nat}
    (hs : (Phrase.binary outer left right).Settled g) (hm : g.precedence? outer.text = some m)
    (hmn : m < n) (hb : q.Binds g (m + 1)) (hr : ∃ r, Joins g operator n right q r) :
    ∃ r, Joins g operator n (.binary outer left right) q r := by
  obtain ⟨r, hr⟩ := hr
  cases hs with
  | @binary _ _ _ m' hm' hl _ hlb hrb =>
    obtain rfl : m' = m := Option.some.inj (hm'.symm.trans hm)
    exact ⟨.binary outer left r, .binary hm hl hr.settled hlb (hr.binds _ hmn hrb hb),
      by simp [Phrase.tokens, hr.tokens], fun _ _ hp _ => hp⟩

theorem exists_joins_of_binds (hn : g.precedence? operator.text = some n) (hp : p.Settled g)
    (hpc : p.isConditional = false) (hq : q.Settled g) (hqb : q.Binds g (n + 1))
    (hinner : ∀ outer left right, p = .binary outer left right →
      ∃ r, Joins g operator n right q r) : ∃ r, Joins g operator n p q r := by
  by_cases hpb : p.Binds g n
  · exact ⟨.binary operator p q, .binary hn hp hq hpb hqb, rfl, fun least hle _ _ => ⟨n, hn, hle⟩⟩
  · obtain ⟨outer, left, right, m, rfl, hm, hmn⟩ := exists_of_not_binds hp hpc hpb
    exact exists_joins_left hp hm hmn (hqb.mono (by omega)) (hinner outer left right rfl)

theorem exists_joins_of_inner (hn : g.precedence? operator.text = some n) (hp : p.Settled g)
    (hpc : p.isConditional = false)
    (hinner : ∀ outer left right, p = .binary outer left right →
      ∀ q : Phrase, q.Settled g → ∃ r, Joins g operator n right q r)
    (hq : q.Settled g) : ∃ r, Joins g operator n p q r := by
  have hs := hq
  induction hq with
  | @binary inner left right k hk hl hr hlb hrb ih _ =>
    by_cases hkn : k ≤ n
    · by_cases hpb : p.Binds g k
      · obtain ⟨r, hr'⟩ := ih hl
        exact ⟨.binary inner r right, .binary hk hr'.settled hr (hr'.binds _ hkn hpb hlb) hrb,
          by simp [Phrase.tokens, hr'.tokens], fun _ _ _ hb => hb⟩
      · obtain ⟨outer, left', right', m, rfl, hm, hmk⟩ := exists_of_not_binds hp hpc hpb
        exact exists_joins_left hp hm (by omega) ⟨k, hk, hmk⟩ (hinner outer left' right' rfl _ hs)
    · exact exists_joins_of_binds hn hp hpc hs ⟨k, hk, by omega⟩
        fun outer left' right' he => hinner outer left' right' he _ hs
  | @conditional test consequent alternate ht htc hc ha ih _ _ =>
    obtain ⟨r, hr⟩ := ih ht
    have hrc := isConditional_of_binds
      (hr.binds 0 (Nat.zero_le _) (hp.binds_zero hpc) (ht.binds_zero htc))
    exact ⟨.conditional r consequent alternate, .conditional hr.settled hrc hc ha,
      by simp [Phrase.tokens, hr.tokens], fun _ _ _ hb => hb⟩
  | _ =>
    exact exists_joins_of_binds hn hp hpc hs trivial
      fun outer left' right' he => hinner outer left' right' he _ hs

/-- The operator that binds least tightly ends up outermost, the last one of several. -/
theorem exists_joins (hn : g.precedence? operator.text = some n) (hp : p.Settled g)
    (hq : q.Settled g) : ∃ r, Joins g operator n p q r := by
  have hs := hp
  induction hp generalizing q with
  | @binary outer left right m hm hl hr hlb hrb _ ih =>
    refine exists_joins_of_inner hn hs rfl ?_ hq
    rintro _ _ _ ⟨⟩ q hq
    exact ih hq hr
  | @conditional test consequent alternate ht htc hc ha _ _ ih =>
    obtain ⟨r, hr⟩ := ih hq ha
    exact ⟨.conditional test consequent r, .conditional ht htc hc hr.settled,
      by simp [Phrase.tokens, hr.tokens], fun _ _ hb _ => hb⟩
  | _ => exact exists_joins_of_inner hn hs rfl (by rintro _ _ _ ⟨⟩) hq

end Joins

/-- A conditional whose test is one itself: the second question belongs to the alternate. -/
theorem exists_conditional {p consequent alternate : Phrase} (hp : p.Settled g)
    (hc : consequent.Settled g) (ha : alternate.Settled g) :
    ∃ r : Phrase, r.Settled g ∧
      r.tokens = p.tokens ++ .mark .question :: consequent.tokens ++ .mark .colon :: alternate.tokens := by
  have hs := hp
  induction hp with
  | @conditional test first second ht htc hf _ _ _ ih =>
    obtain ⟨r, hr, htokens⟩ := ih ‹_›
    exact ⟨.conditional test first r, .conditional ht htc hf hr, by simp [tokens, htokens]⟩
  | _ => exact ⟨.conditional _ consequent alternate, .conditional hs rfl hc ha, rfl⟩

theorem separated_eq_of_map {α : Type} {spell : α → List Token} {as bs : List α}
    (h : bs.map spell = as.map spell) : separated spell bs = separated spell as :=
  calc separated spell bs
    _ = separated id (bs.map spell) := (separated_map id spell bs).symm
    _ = separated id (as.map spell) := by rw [h]
    _ = separated spell as := separated_map id spell as

theorem exists_separated {α : Type} {spell : α → List Token} {P : α → Prop} {as : List α}
    (h : ∀ a ∈ as, ∃ b, P b ∧ spell b = spell a) :
    ∃ bs, (∀ b ∈ bs, P b) ∧ separated spell bs = separated spell as := by
  suffices ∃ bs : List α, (∀ b ∈ bs, P b) ∧ bs.map spell = as.map spell by
    obtain ⟨bs, hbs, hmap⟩ := this
    exact ⟨bs, hbs, separated_eq_of_map hmap⟩
  induction as with
  | nil => exact ⟨[], by simp, rfl⟩
  | cons a as ih =>
    obtain ⟨b, hb, hab⟩ := h a List.mem_cons_self
    obtain ⟨bs, hbs, hmap⟩ := ih fun c hc => h c (List.mem_cons_of_mem a hc)
    exact ⟨b :: bs, List.forall_mem_cons.mpr ⟨hb, hbs⟩, by simp [hab, hmap]⟩

theorem exists_itemTokens {items : List Phrase}
    (h : ∀ p ∈ items, ∃ q : Phrase, q.Settled g ∧ q.tokens = p.tokens) :
    ∃ qs : List Phrase, (∀ q ∈ qs, q.Settled g) ∧ itemTokens qs = itemTokens items := by
  simpa only [itemTokens_eq] using exists_separated h

theorem exists_fieldTokens {fields : List (FieldKey × Phrase)}
    (h : ∀ f ∈ fields, ∃ q : Phrase, q.Settled g ∧ q.tokens = f.2.tokens) :
    ∃ qs : List (FieldKey × Phrase), (∀ f ∈ qs, f.2.Settled g) ∧
      fieldTokens qs = fieldTokens fields := by
  have hfields : ∀ f ∈ fields, ∃ f' : FieldKey × Phrase, f'.2.Settled g ∧
      entryTokens f' = entryTokens f := fun f hf => by
    obtain ⟨q, hq, ht⟩ := h f hf
    exact ⟨(f.1, q), hq, by simp only [entryTokens, ht]⟩
  simpa only [fieldTokens_eq] using exists_separated hfields

/-- What derives tokens at all can be put in order, and then still derives them. -/
theorem Fits.exists_settled {p : Phrase} (h : p.Fits g) :
    ∃ q : Phrase, q.Settled g ∧ q.tokens = p.tokens := by
  induction h with
  | leaf l => exact ⟨_, .leaf l, rfl⟩
  | group _ ih =>
    obtain ⟨q, hq, ht⟩ := ih
    exact ⟨.group q, .group hq, by simp [tokens, ht]⟩
  | array _ ih =>
    obtain ⟨qs, hq, ht⟩ := exists_itemTokens ih
    exact ⟨.array qs, .array hq, by simp [tokens, ht]⟩
  | object _ ih =>
    obtain ⟨qs, hq, ht⟩ := exists_fieldTokens ih
    exact ⟨.object qs, .object hq, by simp [tokens, ht]⟩
  | dot name _ ih =>
    obtain ⟨q, hq, ht⟩ := ih
    obtain ⟨r, hr⟩ := exists_behind [.mark .dot, name.token]
      (fun p hp hpath => ⟨.dot p name, .dot name hp hpath, rfl, rfl⟩) hq
    exact ⟨r, hr.settled, by rw [hr.tokens, ht]; rfl⟩
  | index _ _ iht ihk =>
    obtain ⟨q, hq, ht⟩ := iht
    obtain ⟨k, hk, hkt⟩ := ihk
    obtain ⟨r, hr⟩ := exists_behind (.mark .leftBracket :: k.tokens ++ [.mark .rightBracket])
      (fun p hp hpath => ⟨.index p k, .index hp hpath hk, rfl, by simp [tokens]⟩) hq
    exact ⟨r, hr.settled, by rw [hr.tokens, ht, hkt]; simp [tokens]⟩
  | pipe name _ ih =>
    obtain ⟨q, hq, ht⟩ := ih
    obtain ⟨r, hr⟩ := exists_behind [.mark .pipe, .identifier name]
      (fun p hp hpath => ⟨.pipe p name, .pipe name hp hpath, rfl, rfl⟩) hq
    exact ⟨r, hr.settled, by rw [hr.tokens, ht]; rfl⟩
  | call name _ _ ihs iha =>
    obtain ⟨q, hq, ht⟩ := ihs
    obtain ⟨as, ha, hat⟩ := exists_itemTokens iha
    obtain ⟨r, hr⟩ := exists_behind
      (.mark .pipe :: .identifier name :: .mark .leftParen :: itemTokens as ++ [.mark .rightParen])
      (fun p hp hpath => ⟨.call p name as, .call name hp hpath ha, rfl, by simp [tokens]⟩) hq
    exact ⟨r, hr.settled, by rw [hr.tokens, ht, hat]; simp [tokens]⟩
  | signed sign _ ih =>
    obtain ⟨q, hq, ht⟩ := ih
    obtain ⟨r, hr⟩ := exists_signed sign hq
    exact ⟨r, hr.settled, by rw [hr.tokens, ht]; rfl⟩
  | binary hp _ _ ihl ihr =>
    obtain ⟨l, hl, hlt⟩ := ihl
    obtain ⟨r, hr, hrt⟩ := ihr
    obtain ⟨q, hq⟩ := exists_joins hp hl hr
    exact ⟨q, hq.settled, by rw [hq.tokens, hlt, hrt]; rfl⟩
  | conditional _ _ _ iht ihc iha =>
    obtain ⟨t, ht, htt⟩ := iht
    obtain ⟨c, hc, hct⟩ := ihc
    obtain ⟨a, ha, hat⟩ := iha
    obtain ⟨q, hq, hqt⟩ := exists_conditional ht hc ha
    exact ⟨q, hq, by rw [hqt, htt, hct, hat]; rfl⟩

end PipeExpr.Phrase
