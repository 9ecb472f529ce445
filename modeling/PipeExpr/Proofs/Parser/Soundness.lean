import PipeExpr.Proofs.Parser.State
import PipeExpr.Proofs.Phrase.Depth

/-!
What the parser returns is a settled phrase that derives the tokens it has taken, within the levels
it was given. What it refuses is refused for a fault in the text, unless the levels are fewer than
the tokens that are left can ask for. One lemma a function, in the order in which they call each
other; `expression_sound` closes the circle by induction on the levels.
-/
namespace PipeExpr.Parser
open Phrase
variable {α : Type} {g : Grammar} {limit levels : Nat} {tail : List (Except Error Token)}

/-- From a state with tokens `ts` to a state behind the first of them, `us`, on the same level. -/
def Reads (tail : List (Except Error Token)) (s : State) (ts us : List Token) (s' : State) : Prop :=
  ∃ rest, ts = us ++ rest ∧ s'.Holds tail rest ∧ s'.depth = s.depth

theorem Reads.cons {s s₁ s' : State} {t : Token} {ts us : List Token} (h : Reads tail s₁ ts us s')
    (hd : s₁.depth = s.depth) : Reads tail s (t :: ts) (t :: us) s' := by
  obtain ⟨rest, rfl, hr, hd'⟩ := h
  exact ⟨rest, rfl, hr, hd'.trans hd⟩

theorem Reads.append {s s₁ s' : State} {us vs ws : List Token} (h : Reads tail s₁ vs ws s')
    (hd : s₁.depth = s.depth) : Reads tail s (us ++ vs) (us ++ ws) s' := by
  obtain ⟨rest, rfl, hr, hd'⟩ := h
  exact ⟨rest, by simp, hr, hd'.trans hd⟩

theorem Reads.of_holds {s s' : State} (us : List Token) {ts : List Token} (h : s'.Holds tail ts)
    (hd : s'.depth = s.depth) : Reads tail s (us ++ ts) us s' := ⟨ts, rfl, h, hd⟩

/-- The parser `item` reads what `spell` writes of a result with the property `P`, from `n` tokens
or fewer. -/
def ReadsEach (tail : List (Except Error Token)) (limit : Nat) (enough : Prop) (depth n : Nat) (item : Parse α)
    (spell : α → List Token) (P : α → Prop) : Prop :=
  ∀ s ts, s.Holds tail ts → s.depth = depth → ts.length ≤ n →
    Meets limit enough s item fun a s' => Reads tail s ts (spell a) s' ∧ P a

section Lists
variable {enough : Prop} {depth n : Nat} {item : Parse α} {spell : α → List Token} {P : α → Prop}

theorem items_sound (hi : ReadsEach tail limit enough depth n item spell P) (close : Mark)
    (what : Expectation) (rounds : Nat) {s : State} {ts : List Token} (h : s.Holds tail ts)
    (hd : s.depth = depth) (hn : ts.length ≤ n) :
    Meets limit enough s (items close what item rounds) fun as s' =>
      Reads tail s ts (separated spell as ++ [.mark close]) s' ∧ as ≠ [] ∧ ∀ a ∈ as, P a := by
  induction rounds generalizing s ts with
  | zero => exact meets_refuseAhead
  | succ rounds ih =>
    rw [items]
    refine meets_bind (hi s ts h hd hn) ?_
    intro a s₁ hread
    obtain ⟨⟨rest, rfl, h₁, hd₁⟩, ha⟩ := hread
    apply meets_ahead_bind
    split
    · next hcomma =>
      obtain ⟨us, rfl⟩ := h₁.exists_cons hcomma (by simp)
      apply meets_advance_bind h₁
      intro s₂ h₂ hd₂
      have hlen : us.length ≤ n := by simp at hn; omega
      refine meets_bind (ih h₂ (by omega) hlen) ?_
      intro as s₃ hread
      obtain ⟨hr, hne, has⟩ := hread
      refine meets_pure ⟨?_, by simp, List.forall_mem_cons.mpr ⟨ha, has⟩⟩
      obtain ⟨b, bs, rfl⟩ := List.exists_cons_of_ne_nil hne
      simpa [separated] using (hr.cons (t := .mark .comma) hd₂).append hd₁
    · split
      · next hclose =>
        obtain ⟨us, rfl⟩ := h₁.exists_cons hclose (by simp)
        apply meets_advance_bind h₁
        intro s₂ h₂ hd₂
        refine meets_pure ⟨?_, by simp, by simpa using ha⟩
        exact ⟨us, by simp [separated], h₂, by omega⟩
      · exact meets_refuseAhead

theorem listOf_sound (hi : ReadsEach tail limit enough depth n item spell P) (close : Mark)
    (what : Expectation) {s : State} {ts : List Token} (h : s.Holds tail ts) (hd : s.depth = depth)
    (hn : ts.length ≤ n) :
    Meets limit enough s (listOf close what item) fun as s' =>
      Reads tail s ts (separated spell as ++ [.mark close]) s' ∧ ∀ a ∈ as, P a := by
  unfold listOf
  apply meets_ahead_bind
  split
  · next hclose =>
    obtain ⟨us, rfl⟩ := h.exists_cons hclose (by simp)
    apply meets_advance_bind h
    intro s₁ h₁ hd₁
    exact meets_pure ⟨⟨us, by simp [separated], h₁, hd₁⟩, by simp⟩
  · refine meets_bind (Q := fun _ s' => s = s') rfl ?_
    rintro rounds _ rfl
    exact meets_mono (items_sound hi close what rounds h hd hn) id fun _ _ hq => ⟨hq.1, hq.2.2⟩

end Lists

theorem entry_sound {enough : Prop} {depth n : Nat} {value : Parse Phrase} {P : Phrase → Prop}
    (hv : ReadsEach tail limit enough depth n value tokens P) :
    ReadsEach tail limit enough depth n (entry value) entryTokens fun f => P f.2 := by
  intro s ts h hd hn
  unfold entry objectKey
  simp only [bind_assoc]
  apply meets_ahead_bind
  split
  · next key hkey =>
    obtain ⟨us, rfl⟩ := h.exists_cons (FieldKey.ofToken?_eq_some.mp hkey)
      (by cases key <;> simp [FieldKey.token])
    simp only [pure_bind]
    apply meets_advance_bind h
    intro s₁ h₁ hd₁
    refine meets_bind (meets_expect h₁) ?_
    intro _ s₂ hread
    obtain ⟨vs, rfl, h₂, hd₂⟩ := hread
    refine meets_bind (hv s₂ vs h₂ (by omega) (by simp at hn; omega)) ?_
    intro p s₃ hread
    obtain ⟨hr, hp⟩ := hread
    exact meets_pure ⟨(hr.cons hd₂).cons hd₁, hp⟩
  · exact meets_refuseAhead_bind

def ExpressionSound (tail : List (Except Error Token)) (g : Grammar) (limit levels : Nat) : Prop :=
  ∀ s ts, s.Holds tail ts → s.depth + levels = limit →
    Meets limit (2 * ts.length + 1 ≤ levels) s (expression g limit levels) fun p s' =>
      Reads tail s ts p.tokens s' ∧ p.Settled g ∧ p.depth + 1 ≤ levels

/-- One item after another: each of them is read from at most as many tokens as the first. -/
theorem ExpressionSound.readsEach (he : ExpressionSound tail g limit levels) {depth n : Nat}
    (hl : depth + levels = limit) :
    ReadsEach tail limit (2 * n + 1 ≤ levels) depth n (expression g limit levels) tokens fun p =>
      p.Settled g ∧ p.depth + 1 ≤ levels := fun s ts h hd hn =>
  meets_mono (he s ts h (by omega)) (fun hen => by omega) fun _ _ hq => hq

theorem atom_sound (he : ExpressionSound tail g limit levels) {s : State} {ts : List Token}
    (h : s.Holds tail ts) (hl : s.depth + levels = limit) :
    Meets limit (2 * ts.length ≤ levels) s (atom g limit levels) fun p s' =>
      Reads tail s ts p.tokens s' ∧ p.Settled g ∧ p.isPath = true ∧ p.steps = 0 ∧ p.depth ≤ levels := by
  rw [atom]
  apply meets_ahead_bind
  split
  · next ha =>
    obtain ⟨us, rfl⟩ := h.exists_cons ha (by simp)
    apply meets_advance_bind h
    intro s₁ h₁ hd₁
    refine meets_bind_of (he s₁ us h₁ (by omega)) (fun hen => by simp at hen; omega)
      ?_
    intro p s₂ hread
    obtain ⟨⟨rest, rfl, h₂, hd₂⟩, hp, hdepth⟩ := hread
    refine meets_bind (meets_expect h₂) ?_
    intro _ s₃ hread
    obtain ⟨vs, rfl, h₃, hd₃⟩ := hread
    refine meets_pure ⟨⟨vs, by simp [tokens], h₃, by omega⟩, .group hp, rfl, rfl, ?_⟩
    simpa [depth] using hdepth
  · next ha =>
    obtain ⟨us, rfl⟩ := h.exists_cons ha (by simp)
    apply meets_advance_bind h
    intro s₁ h₁ hd₁
    refine meets_bind_of (listOf_sound (he.readsEach (by omega)) .rightBracket _ h₁ hd₁
      (Nat.le_refl us.length)) (fun hen => by simp at hen; omega) ?_
    intro items s₂ hread
    obtain ⟨hr, hi⟩ := hread
    refine meets_pure ⟨?_, .array fun p hp => (hi p hp).1, rfl, rfl,
      itemsDepth_le.mpr fun p hp => (hi p hp).2⟩
    simpa [tokens, itemTokens_eq] using hr.cons hd₁
  · next ha =>
    obtain ⟨us, rfl⟩ := h.exists_cons ha (by simp)
    apply meets_advance_bind h
    intro s₁ h₁ hd₁
    refine meets_bind_of (listOf_sound (entry_sound (he.readsEach (by omega))) .rightBrace _
      h₁ hd₁ (Nat.le_refl us.length)) (fun hen => by simp at hen; omega) ?_
    intro fields s₂ hread
    obtain ⟨hr, hf⟩ := hread
    refine meets_pure ⟨?_, .object fun f hm => (hf f hm).1, rfl, rfl,
      fieldsDepth_le.mpr fun f hm => (hf f hm).2⟩
    simpa [tokens, fieldTokens_eq] using hr.cons hd₁
  · split
    · next l hleaf =>
      obtain ⟨us, rfl⟩ := h.exists_cons (Leaf.ofToken?_eq_some.mp hleaf)
        (by cases l <;> simp [Leaf.token])
      apply meets_advance_bind h
      intro s₁ h₁ hd₁
      exact meets_pure ⟨⟨us, rfl, h₁, hd₁⟩, .leaf l, rfl, rfl, Nat.zero_le _⟩
    · exact meets_refuse

def Extends (g : Grammar) (room : Nat) (node p : Phrase) (us : List Token) : Prop :=
  p.tokens = node.tokens ++ us ∧ p.Settled g ∧ p.isPath = true ∧ p.steps = node.steps + 1 ∧
    p.depth ≤ room

theorem step_sound (he : ExpressionSound tail g limit levels) {node : Phrase} {mark : Mark}
    (hs : node.Settled g) (hp : node.isPath = true) (hroom : node.depth ≤ levels + node.steps + 1)
    (hm : step? (.mark mark) = some mark) {s : State} {ts : List Token} (h : s.Holds tail ts)
    (hl : s.depth + levels = limit) :
    Meets limit (2 * ts.length + 1 ≤ levels) s (step g limit node mark levels) fun p s' =>
      ∃ us, Reads tail s ts us s' ∧
        Extends g (levels + node.steps + 1) node p (.mark mark :: us) := by
  rw [step.eq_def]
  split
  · unfold propertyName
    simp only [bind_assoc]
    apply meets_ahead_bind
    split
    · next name hname =>
      obtain ⟨us, rfl⟩ := h.exists_cons (MemberName.ofToken?_eq_some.mp hname)
        (by cases name <;> simp [MemberName.token])
      simp only [pure_bind]
      apply meets_advance_bind h
      intro s₁ h₁ hd₁
      refine meets_pure ⟨_, Reads.of_holds [_] h₁ hd₁, rfl, .dot name hs hp, rfl, rfl, ?_⟩
      simp only [depth]; omega
    · exact meets_refuseAhead_bind
  · refine meets_bind (he s ts h hl) ?_
    intro key s₁ hread
    obtain ⟨⟨rest, rfl, h₁, hd₁⟩, hk, hkd⟩ := hread
    refine meets_bind (meets_expect h₁) ?_
    intro _ s₂ hread
    obtain ⟨us, rfl, h₂, hd₂⟩ := hread
    refine meets_pure ⟨key.tokens ++ [.mark .rightBracket], ⟨us, by simp, h₂, by omega⟩,
      by simp [tokens], .index hs hp hk, rfl, rfl, ?_⟩
    simp only [depth]; omega
  · have hmark : mark = .pipe := by cases mark <;> simp_all [step?]
    subst hmark
    unfold transformName
    simp only [bind_assoc]
    apply meets_ahead_bind
    split
    · next name hname =>
      obtain ⟨us, rfl⟩ := h.exists_cons hname (by simp)
      simp only [pure_bind]
      apply meets_advance_bind h
      intro s₁ h₁ hd₁
      apply meets_ahead_bind
      split
      · next hopen =>
        obtain ⟨vs, rfl⟩ := h₁.exists_cons hopen (by simp)
        apply meets_advance_bind h₁
        intro s₂ h₂ hd₂
        refine meets_bind_of (listOf_sound (he.readsEach (by omega)) .rightParen _ h₂ hd₂
          (Nat.le_refl vs.length)) (fun hen => by simp at hen; omega) ?_
        intro arguments s₃ hread
        obtain ⟨hr, hi⟩ := hread
        have ha : itemsDepth arguments ≤ levels := itemsDepth_le.mpr fun p hp => (hi p hp).2
        refine meets_pure ⟨_, (hr.cons hd₂).cons hd₁, by simp [tokens, itemTokens_eq],
          .call name hs hp fun p hp => (hi p hp).1, rfl, rfl, ?_⟩
        simp only [depth]; omega
      · refine meets_pure ⟨_, Reads.of_holds [_] h₁ hd₁, rfl, .pipe name hs hp, rfl, rfl, ?_⟩
        simp only [depth]; omega
    · exact meets_refuseAhead_bind

theorem eq_mark_of_step? {t : Token} {mark : Mark} (h : step? t = some mark) :
    t = .mark mark := by
  unfold step? at h
  split at h
  · obtain rfl := Option.some.inj h; rfl
  · obtain rfl := Option.some.inj h; rfl
  · obtain rfl := Option.some.inj h; rfl
  · cases h

theorem operator?_eq_some {t : Token} {operator : OperatorName} {precedence : Nat} :
    operator? g t = some (operator, precedence) ↔
      t = operator.token ∧ g.precedence? operator.text = some precedence := by
  simp only [operator?, Option.bind_eq_bind, Option.bind_eq_some_iff, OperatorName.ofToken?_eq_some]
  constructor
  · intro hread
    obtain ⟨o, ht, n, hn, he⟩ := hread
    simp only [Option.pure_def, Option.some.injEq, Prod.mk.injEq] at he
    obtain ⟨rfl, rfl⟩ := he
    exact ⟨ht, hn⟩
  · intro hread
    obtain ⟨ht, hn⟩ := hread
    exact ⟨operator, ht, precedence, hn, rfl⟩

/-- No operator of precedence `least` or higher comes next. -/
def Stops (g : Grammar) (least : Nat) (s : State) : Prop :=
  ∀ operator precedence, operator? g s.ahead = some (operator, precedence) → precedence < least

theorem operatorAhead_of_stops {least : Nat} {s : State} (h : Stops g least s) :
    operatorAhead g least s = .ok none s := by
  unfold operatorAhead
  change EStateM.bind ahead _ s = _
  rw [EStateM.bind, ahead]
  dsimp only
  cases ho : operator? g s.ahead with
  | none => rfl
  | some found =>
    obtain ⟨operator, precedence⟩ := found
    dsimp only
    rw [if_neg (Nat.not_le.mpr (h operator precedence ho))]
    rfl

theorem folds_of_stops {least : Nat} {s : State} (h : Stops g least s) (limit : Nat) (left : Phrase)
    (levels : Nat) : folds g limit least left levels s = .ok left s := by
  rw [folds]
  change EStateM.bind (operatorAhead g least) _ s = _
  rw [EStateM.bind, operatorAhead_of_stops h]
  rfl

theorem operatorAhead_sound {enough : Prop} (least : Nat) {s : State} :
    Meets limit enough s (operatorAhead g least) fun found s' => s = s' ∧
      match found with
      | some (operator, precedence) =>
        operator? g s.ahead = some (operator, precedence) ∧ least ≤ precedence
      | none => Stops g least s := by
  unfold operatorAhead
  apply meets_ahead_bind
  split
  · next operator precedence ho =>
    refine meets_pure ⟨rfl, ?_⟩
    by_cases hle : least ≤ precedence
    · simpa [hle] using ho
    · simp only [if_neg hle]
      intro o n hn
      rw [ho] at hn
      obtain ⟨-, rfl⟩ := Prod.mk.inj (Option.some.inj hn)
      omega
  · next ho =>
    refine meets_pure ⟨rfl, fun o n hn => ?_⟩
    rw [ho] at hn
    cases hn

theorem steps_sound (he : ∀ k < levels, ExpressionSound tail g limit k) {node : Phrase}
    (hs : node.Settled g) (hp : node.isPath = true) (hroom : node.depth ≤ levels + node.steps)
    {s : State} {ts : List Token} (h : s.Holds tail ts) (hl : s.depth + levels = limit) :
    Meets limit (2 * ts.length ≤ levels) s (steps g limit node levels) fun p s' =>
      ∃ us, Reads tail s ts us s' ∧ p.tokens = node.tokens ++ us ∧ p.Settled g ∧ p.isPath = true ∧
        p.depth ≤ levels + node.steps := by
  induction levels generalizing node s ts with
  | zero =>
    rw [steps]
    apply meets_ahead_bind
    split
    · exact meets_pure ⟨[], Reads.of_holds [] h rfl, by simp, hs, hp, hroom⟩
    · next mark hmark =>
      obtain ⟨us, rfl⟩ := h.exists_cons (eq_mark_of_step? hmark) (by simp)
      exact meets_descend_zero hl (by simp)
  | succ levels ih =>
    rw [steps]
    apply meets_ahead_bind
    split
    · exact meets_pure ⟨[], Reads.of_holds [] h rfl, by simp, hs, hp, hroom⟩
    · next mark hmark =>
      have ht := eq_mark_of_step? hmark
      obtain ⟨us, rfl⟩ := h.exists_cons ht (by simp)
      rw [ht] at hmark
      apply meets_descend_bind h hl
      intro s₁ h₁ hd₁
      apply meets_advance_bind h₁
      intro s₂ h₂ hd₂
      refine meets_bind_of (step_sound (he levels (by omega)) hs hp (by omega) hmark h₂
        (by omega)) (fun hen => by simp at hen; omega) ?_
      intro next s₃ hread
      obtain ⟨vs, ⟨rest, rfl, h₃, hd₃⟩, hnt, hns, hnp, hnsteps, hnd⟩ := hread
      refine meets_bind_of (ih (fun k hk => he k (by omega)) hns hnp (by omega) h₃
        (by omega)) (fun hen => by simp at hen; omega) ?_
      intro p s₄ hread
      obtain ⟨ws, ⟨rest', rfl, h₄, hd₄⟩, hpt, hps, hpp, hpd⟩ := hread
      apply meets_ascend_bind
      refine meets_pure ⟨.mark mark :: vs ++ ws, ⟨rest', by simp, h₄.withDepth _, ?_⟩,
        by rw [hpt, hnt]; simp, hps, hpp, by omega⟩
      simp only [State.up]; omega

theorem path_sound (he : ∀ k ≤ levels, ExpressionSound tail g limit k) {s : State} {ts : List Token}
    (h : s.Holds tail ts) (hl : s.depth + levels = limit) :
    Meets limit (2 * ts.length ≤ levels) s (path g limit levels) fun p s' =>
      Reads tail s ts p.tokens s' ∧ p.Settled g ∧ p.isPath = true ∧ p.depth ≤ levels := by
  rw [path]
  refine meets_bind (atom_sound (he levels (Nat.le_refl _)) h hl) ?_
  intro a s₁ hread
  obtain ⟨⟨rest, rfl, h₁, hd₁⟩, ha, hap, has, had⟩ := hread
  refine meets_mono (steps_sound (fun k hk => he k (by omega)) ha hap (by omega) h₁ (by omega))
    (fun hen => by simp at hen; omega) ?_
  intro p s₂ hread
  obtain ⟨us, ⟨rest', rfl, h₂, hd₂⟩, hpt, hp, hpp, hpd⟩ := hread
  exact ⟨⟨rest', by rw [hpt]; simp, h₂, by omega⟩, hp, hpp, by omega⟩

theorem path_operand_sound (he : ∀ k ≤ levels, ExpressionSound tail g limit k) {s : State}
    {ts : List Token} (h : s.Holds tail ts) (hl : s.depth + levels = limit) :
    Meets limit (2 * ts.length ≤ levels) s (path g limit levels) fun p s' =>
      Reads tail s ts p.tokens s' ∧ p.Settled g ∧ p.isOperand = true ∧ p.depth ≤ levels := by
  refine meets_mono (path_sound he h hl) id ?_
  intro p s' hq
  obtain ⟨hr, hs, hp, hd⟩ := hq
  exact ⟨hr, hs, isOperand_of_isPath hp, hd⟩

theorem unary_sound (he : ∀ k ≤ levels, ExpressionSound tail g limit k) {s : State} {ts : List Token}
    (h : s.Holds tail ts) (hl : s.depth + levels = limit) :
    Meets limit (2 * ts.length ≤ levels) s (unary g limit levels) fun p s' =>
      Reads tail s ts p.tokens s' ∧ p.Settled g ∧ p.isOperand = true ∧ p.depth ≤ levels := by
  induction levels generalizing s ts with
  | zero =>
    rw [unary]
    apply meets_ahead_bind
    split
    · exact path_operand_sound he h hl
    · next sign hsign =>
      obtain ⟨us, rfl⟩ := h.exists_cons (Sign.ofToken?_eq_some.mp hsign)
        (by cases sign <;> simp [Sign.token])
      apply meets_advance_bind h
      intro s₁ h₁ hd₁
      exact meets_descend_zero (by omega) (by simp)
  | succ levels ih =>
    rw [unary]
    apply meets_ahead_bind
    split
    · exact path_operand_sound he h hl
    · next sign hsign =>
      have ht := Sign.ofToken?_eq_some.mp hsign
      obtain ⟨us, rfl⟩ := h.exists_cons ht (by cases sign <;> simp [Sign.token])
      apply meets_advance_bind h
      intro s₁ h₁ hd₁
      apply meets_descend_bind h₁ (by omega : s₁.depth + (levels + 1) = limit)
      intro s₂ h₂ hd₂
      refine meets_bind (meets_thenAscend (meets_mono (ih (fun k hk => he k (by omega)) h₂
        (by omega)) (fun hen => by simp at hen; omega) fun _ _ hq => hq)) ?_
      intro p _ hread
      obtain ⟨s₃, ⟨⟨rest, rfl, h₃, hd₃⟩, hp, hpo, hpd⟩, rfl⟩ := hread
      refine meets_pure ⟨⟨rest, by simp [tokens], h₃.withDepth _, ?_⟩, .signed sign hp hpo, rfl, ?_⟩
      · simp only [State.up]; omega
      · simp only [depth]; omega

def FoldsSound (tail : List (Except Error Token)) (g : Grammar) (limit levels : Nat) : Prop :=
  ∀ least left s ts, left.Settled g → left.Binds g least → left.depth ≤ levels + left.folds →
    (∀ operator precedence, operator? g s.ahead = some (operator, precedence) →
      left.Binds g precedence) →
    s.Holds tail ts → s.depth + levels = limit →
    Meets limit (2 * ts.length ≤ levels) s (folds g limit least left levels) fun p s' =>
      ∃ us, Reads tail s ts us s' ∧ p.tokens = left.tokens ++ us ∧ p.Settled g ∧ p.Binds g least ∧
        p.depth ≤ levels + left.folds ∧ Stops g least s'

theorem binary_sound (he : ∀ k ≤ levels, ExpressionSound tail g limit k)
    (hf : FoldsSound tail g limit levels) (least : Nat) {s : State} {ts : List Token} (h : s.Holds tail ts)
    (hl : s.depth + levels = limit) :
    Meets limit (2 * ts.length ≤ levels) s (binary g limit least levels) fun p s' =>
      Reads tail s ts p.tokens s' ∧ p.Settled g ∧ p.Binds g least ∧ p.depth ≤ levels ∧
        Stops g least s' := by
  rw [binary]
  refine meets_bind (unary_sound he h hl) ?_
  intro left s₁ hread
  obtain ⟨⟨rest, rfl, h₁, hd₁⟩, hs, ho, hd⟩ := hread
  have hroom : left.depth ≤ levels + left.folds := by omega
  refine meets_mono (hf least left s₁ rest hs (binds_of_isOperand ho) hroom
    (fun _ _ _ => binds_of_isOperand ho) h₁ (by omega)) (fun hen => by simp at hen; omega) ?_
  intro p s₂ hread
  obtain ⟨us, ⟨rest', rfl, h₂, hd₂⟩, hpt, hp, hpb, hpd, hstop⟩ := hread
  rw [folds_of_isOperand ho] at hpd
  exact ⟨⟨rest', by rw [hpt]; simp, h₂, by omega⟩, hp, hpb, hpd, hstop⟩

/-- The right operand of a fold ends before an operator that binds as tightly as that of the fold,
so the fold may stand to the left of whatever operator comes next. -/
theorem folds_sound (he : ∀ k < levels, ExpressionSound tail g limit k) : FoldsSound tail g limit levels := by
  induction levels with
  | zero =>
    intro least left s ts hs hb hroom hnext h hl
    rw [folds]
    refine meets_bind (operatorAhead_sound least) ?_
    intro found _ hread
    obtain ⟨rfl, hfound⟩ := hread
    cases found with
    | none => exact meets_pure ⟨[], Reads.of_holds [] h rfl, by simp, hs, hb, hroom, hfound⟩
    | some o =>
      obtain ⟨operator, precedence⟩ := o
      obtain ⟨us, rfl⟩ := h.exists_cons (operator?_eq_some.mp hfound.1).1
        (by cases operator <;> simp [OperatorName.token])
      apply meets_advance_bind h
      intro s₁ h₁ hd₁
      exact meets_descend_zero (by omega) (by simp)
  | succ levels ih =>
    intro least left s ts hs hb hroom hnext h hl
    have hf := ih fun k hk => he k (by omega)
    rw [folds]
    refine meets_bind (operatorAhead_sound least) ?_
    intro found _ hread
    obtain ⟨rfl, hfound⟩ := hread
    cases found with
    | none => exact meets_pure ⟨[], Reads.of_holds [] h rfl, by simp, hs, hb, hroom, hfound⟩
    | some o =>
      obtain ⟨operator, precedence⟩ := o
      obtain ⟨ht, hprec⟩ := operator?_eq_some.mp hfound.1
      obtain ⟨us, rfl⟩ := h.exists_cons ht (by cases operator <;> simp [OperatorName.token])
      apply meets_advance_bind h
      intro s₁ h₁ hd₁
      apply meets_descend_bind h₁ (by omega : s₁.depth + (levels + 1) = limit)
      intro s₂ h₂ hd₂
      refine meets_bind_of (binary_sound (fun k hk => he k (by omega)) hf (precedence + 1)
        h₂ (by omega)) (fun hen => by simp at hen; omega) ?_
      intro right s₃ hread
      obtain ⟨⟨rest, rfl, h₃, hd₃⟩, hrs, hrb, hrd, hstop⟩ := hread
      have hsettled : Settled g (.binary operator left right) :=
        .binary hprec hs hrs (hnext _ _ hfound.1) hrb
      have hleans : ∀ o q, operator? g s₃.ahead = some (o, q) →
          Binds g q (.binary operator left right) := fun o q hq =>
        ⟨precedence, hprec, Nat.le_of_lt_succ (hstop o q hq)⟩
      have hroom' : (Phrase.binary operator left right).depth
          ≤ levels + (Phrase.binary operator left right).folds := by
        simp only [depth, Phrase.folds]; omega
      refine meets_bind_of (hf least _ s₃ rest hsettled ⟨precedence, hprec, hfound.2⟩
        hroom' hleans h₃ (by omega)) (fun hen => by simp at hen; omega) ?_
      intro p s₄ hread
      obtain ⟨vs, ⟨rest', rfl, h₄, hd₄⟩, hpt, hps, hpb, hpd, hpstop⟩ := hread
      apply meets_ascend_bind
      simp only [Phrase.folds] at hpd
      refine meets_pure ⟨operator.token :: right.tokens ++ vs,
        ⟨rest', by simp, h₄.withDepth _, ?_⟩, by rw [hpt]; simp [tokens], hps, hpb, by omega, hpstop⟩
      simp only [State.up]; omega

theorem conditional_sound (he : ∀ k ≤ levels, ExpressionSound tail g limit k) {s : State}
    {ts : List Token} (h : s.Holds tail ts) (hl : s.depth + levels = limit) :
    Meets limit (2 * ts.length ≤ levels) s (conditional g limit levels) fun p s' =>
      Reads tail s ts p.tokens s' ∧ p.Settled g ∧ p.depth ≤ levels := by
  rw [conditional]
  refine meets_bind (binary_sound he (folds_sound fun k hk => he k (by omega)) 0 h hl) ?_
  intro test s₁ hread
  obtain ⟨⟨rest, rfl, h₁, hd₁⟩, hts, htb, htd, -⟩ := hread
  apply meets_ahead_bind
  split
  · next hquestion =>
    obtain ⟨us, rfl⟩ := h₁.exists_cons hquestion (by simp)
    apply meets_advance_bind h₁
    intro s₂ h₂ hd₂
    refine meets_bind_of (he levels (Nat.le_refl _) s₂ us h₂ (by omega))
      (fun hen => by simp at hen; omega) ?_
    intro consequent s₃ hread
    obtain ⟨⟨rest, rfl, h₃, hd₃⟩, hcs, hcd⟩ := hread
    refine meets_bind (meets_expect h₃) ?_
    intro _ s₄ hread
    obtain ⟨vs, rfl, h₄, hd₄⟩ := hread
    refine meets_bind_of (he levels (Nat.le_refl _) s₄ vs h₄ (by omega))
      (fun hen => by simp at hen; omega) ?_
    intro alternate s₅ hread
    obtain ⟨⟨rest, rfl, h₅, hd₅⟩, has, had⟩ := hread
    have htc : test.isConditional = false := by cases test <;> simp_all [isConditional, Binds]
    refine meets_pure ⟨⟨rest, by simp [tokens], h₅, by omega⟩, .conditional hts htc hcs has, ?_⟩
    simp only [depth]; omega
  · exact meets_pure ⟨Reads.of_holds _ h₁ hd₁, hts, htd⟩

theorem expression_sound (g : Grammar) (limit levels : Nat) : ExpressionSound tail g limit levels := by
  induction levels using Nat.strongRecOn with
  | ind levels ih =>
    intro s ts h hl
    cases levels with
    | zero =>
      rw [expression]
      exact meets_descend_zero hl (by simp)
    | succ levels =>
      rw [expression]
      apply meets_descend_bind h hl
      intro s₁ h₁ hd₁
      refine meets_mono (meets_thenAscend (conditional_sound (fun k hk => ih k (by omega)) h₁
        (by omega))) (fun hen => by omega) ?_
      intro p _ hread
      obtain ⟨s₂, ⟨⟨rest, rfl, h₂, hd₂⟩, hp, hd⟩, rfl⟩ := hread
      refine ⟨⟨rest, rfl, h₂.withDepth _, ?_⟩, hp, by omega⟩
      simp only [State.up]; omega

/-- What a whole text is read as derives all of its tokens, and the text has no fault. -/
theorem whole_sound (g : Grammar) (limit : Nat) {s : State} {ts : List Token} (h : s.Holds tail ts)
    (hd : s.depth = 0) :
    Meets limit (2 * ts.length + 1 ≤ limit) s (whole g limit) fun p _ =>
      tail = atEnd ∧ p.tokens = ts ∧ p.Settled g ∧ p.depth + 1 ≤ limit := by
  unfold whole
  apply meets_ahead_bind
  split
  · exact meets_refuse
  · refine meets_bind (expression_sound g limit limit s ts h (by omega)) ?_
    intro p s₁ hread
    obtain ⟨⟨rest, rfl, h₁, hd₁⟩, hp, hpd⟩ := hread
    apply meets_ahead_bind
    split
    · next hend =>
      obtain ⟨rfl, htail⟩ := h₁.eq_nil hend
      exact meets_pure ⟨htail, by simp, hp, hpd⟩
    · exact meets_refuse

end PipeExpr.Parser
