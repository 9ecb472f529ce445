import Mathlib.Tactic.Ring
import PipeExpr.Proofs.Expr.Levels
import PipeExpr.Proofs.Parser.Stepwise

/-!
One parser under two limits. From the same state both do the same, unless the lower limit is met
first; `Agrees` says so together with what a result is and on which level it leaves the parser. A
result is no higher than `peak`, since the levels of folds and of steps are given back behind a chain
and spent again below it.
-/
namespace PipeExpr
variable {α β : Type}

/-- The height of the highest expression that is read within a number of levels. -/
def Expr.peak (levels : Nat) : Nat := levels * levels + levels - 1

theorem Expr.peak_succ (levels : Nat) : peak (levels + 1) = levels * levels + 3 * levels + 1 := by
  have hsquare : (levels + 1) * (levels + 1) = levels * levels + 2 * levels + 1 := by ring
  rw [peak, hsquare]
  omega

theorem Expr.peak_add_le (levels : Nat) : peak levels + 2 * levels ≤ peak (levels + 1) := by
  rw [peak_succ, peak]
  omega

namespace Phrase

theorem heights_exprs_le {items : List Phrase} {n : Nat} :
    Expr.heights (exprs items) ≤ n ↔ ∀ p ∈ items, p.expr.height ≤ n := by
  rw [exprs_eq_map, Expr.heights_le, List.forall_mem_map]

theorem entryHeights_fieldExprs_le {fields : List (FieldKey × Phrase)} {n : Nat} :
    Expr.entryHeights (fieldExprs fields) ≤ n ↔ ∀ f ∈ fields, f.2.expr.height ≤ n := by
  rw [fieldExprs_eq_map, Expr.entryHeights_le, List.forall_mem_map]

end Phrase

namespace Parser
open PipeExpr.Expr (peak peak_succ peak_add_le)

/-- From every state on the level `before` the second parser does what the first one does, unless
the first one meets its limit. A result is on the level `after` and has the property `P`. -/
def Agrees (limit before after : Nat) (P : α → Prop) (p p' : Parse α) : Prop :=
  ∀ s : State, s.depth = before → (∃ s', p s = .error (.depthExceeded limit) s') ∨
    p' s = p s ∧ ∀ a s', p s = .ok a s' → s'.depth = after ∧ P a

section Agrees
variable {limit limit' before mid after : Nat} {P : α → Prop} {Q : β → Prop} {p p' : Parse α}

theorem Agrees.bind {f f' : α → Parse β} (hp : Agrees limit before mid P p p')
    (hf : ∀ a, P a → Agrees limit mid after Q (f a) (f' a)) :
    Agrees limit before after Q (p >>= f) (p' >>= f') := by
  intro s hs
  simp only [Bind.bind, EStateM.bind]
  cases hp s hs with
  | inl hdeep =>
    obtain ⟨s', hdeep⟩ := hdeep
    rw [hdeep]
    exact .inl ⟨s', rfl⟩
  | inr hsame =>
    obtain ⟨heq, hresult⟩ := hsame
    rw [heq]
    cases h : p s with
    | error e s' => exact .inr ⟨rfl, nofun⟩
    | ok a s' =>
      obtain ⟨hlevel, ha⟩ := hresult a s' h
      exact hf a ha s' hlevel

theorem Agrees.mono {P' : α → Prop} (hp : Agrees limit before after P p p')
    (h : ∀ a, P a → P' a) : Agrees limit before after P' p p' := by
  intro s hs
  refine (hp s hs).imp_right fun hsame => ⟨hsame.1, fun a s' ha => ?_⟩
  obtain ⟨hlevel, ha⟩ := hsame.2 a s' ha
  exact ⟨hlevel, h a ha⟩

theorem agrees_look (h : ∀ s, ∃ a, p s = .ok a s ∧ P a) : Agrees limit before before P p p := by
  intro s hs
  obtain ⟨a, hok, ha⟩ := h s
  refine .inr ⟨rfl, fun b s' hb => ?_⟩
  rw [hok] at hb
  cases hb
  exact ⟨hs, ha⟩

theorem agrees_pure {a : α} (h : P a) : Agrees limit before before P (pure a) (pure a) :=
  agrees_look fun _ => ⟨a, rfl, h⟩

theorem agrees_ahead : Agrees limit before before (fun _ => True) ahead ahead :=
  agrees_look fun _ => ⟨_, rfl, trivial⟩

theorem agrees_tokensLeft : Agrees limit before before (fun _ => True) tokensLeft tokensLeft :=
  agrees_look fun _ => ⟨_, rfl, trivial⟩

theorem agrees_advance : Agrees limit before before (fun _ => True) advance advance := by
  intro s hs
  refine .inr ⟨rfl, fun _ s' h => ⟨?_, trivial⟩⟩
  unfold advance at h
  split at h
  · cases h
    exact hs
  · split at h
    · cases h
      exact hs
    · cases h

theorem agrees_refuse {fault : SyntaxFault} :
    Agrees limit before after P (refuse fault) (refuse fault) := fun _ _ => .inr ⟨rfl, nofun⟩

theorem agrees_refuseAhead {what : Expectation} :
    Agrees limit before after P (refuseAhead what) (refuseAhead what) :=
  fun _ _ => .inr ⟨rfl, nofun⟩

theorem onLevel_agrees : OnLevel fun _ p p' => Agrees limit before before (fun _ => True) p p' where
  bind hp hf := hp.bind fun a _ => hf a
  pure _ := agrees_pure trivial
  refuse _ := agrees_refuse
  ahead := agrees_ahead
  tokensLeft := agrees_tokensLeft
  advance := agrees_advance

theorem agrees_descend (hlower : before + 1 ≤ limit) (hhigher : before + 1 ≤ limit') :
    Agrees limit before (before + 1) (fun _ => True) (descend limit) (descend limit') := by
  intro s hs
  rw [descend_within (hs.trans_lt hlower), descend_within (hs.trans_lt hhigher)]
  refine .inr ⟨rfl, ?_⟩
  rintro _ _ ⟨⟩
  exact ⟨congrArg (· + 1) hs, trivial⟩

/-- On its last level the first parser meets its limit, whatever the second one does. -/
theorem agrees_at_limit {f : Unit → Parse α} {p' : Parse α} (h : before = limit) :
    Agrees limit before after P (descend limit >>= f) p' := by
  intro s hs
  exact .inl ⟨_, bind_of_error (descend_beyond (h.symm.trans hs.symm).le) f⟩

theorem agrees_ascend : Agrees limit (before + 1) before (fun _ => True) ascend ascend := by
  intro s hs
  refine .inr ⟨rfl, ?_⟩
  rintro _ _ ⟨⟩
  refine ⟨?_, trivial⟩
  simp only [State.up]
  omega

theorem Agrees.thenAscend (hp : Agrees limit before (after + 1) P p p') :
    Agrees limit before after P (thenAscend p) (thenAscend p') := by
  intro s hs
  unfold Parser.thenAscend
  cases hp s hs with
  | inl hdeep =>
    obtain ⟨s', hdeep⟩ := hdeep
    rw [hdeep]
    exact .inl ⟨s'.up, rfl⟩
  | inr hsame =>
    obtain ⟨heq, hresult⟩ := hsame
    rw [heq]
    refine .inr ⟨rfl, ?_⟩
    cases h : p s with
    | error e s' => exact nofun
    | ok a s' =>
      rintro _ _ ⟨⟩
      obtain ⟨hlevel, ha⟩ := hresult a s' h
      refine ⟨?_, ha⟩
      simp only [State.up]
      omega

theorem agrees_items (hp : Agrees limit before before P p p') (close : Mark) (what : Expectation)
    (rounds : Nat) : Agrees limit before before (fun as => ∀ a ∈ as, P a)
      (items close what p rounds) (items close what p' rounds) := by
  induction rounds with
  | zero => exact agrees_refuseAhead
  | succ rounds ih =>
    rw [items, items]
    refine hp.bind fun a ha => agrees_ahead.bind fun token _ => ?_
    split
    · refine agrees_advance.bind fun _ _ => ih.bind fun rest hrest => ?_
      exact agrees_pure (List.forall_mem_cons.mpr ⟨ha, hrest⟩)
    · split
      · exact agrees_advance.bind fun _ _ => agrees_pure (by simpa using ha)
      · exact agrees_refuseAhead

theorem agrees_listOf (hp : Agrees limit before before P p p') (close : Mark) (what : Expectation) :
    Agrees limit before before (fun as => ∀ a ∈ as, P a) (listOf close what p)
      (listOf close what p') := by
  unfold listOf
  refine agrees_ahead.bind fun token _ => ?_
  split
  · exact agrees_advance.bind fun _ _ => agrees_pure (by simp)
  · exact agrees_tokensLeft.bind fun rounds _ => agrees_items hp close what rounds

theorem agrees_entry {P : Phrase → Prop} {p p' : Parse Phrase}
    (hp : Agrees limit before before P p p') :
    Agrees limit before before (fun f => P f.2) (entry p) (entry p') := by
  unfold entry
  refine onLevel_agrees.objectKey.bind fun key _ => agrees_advance.bind fun _ _ => ?_
  exact (onLevel_agrees.expect _ _).bind fun _ _ => hp.bind fun a ha => agrees_pure ha

end Agrees

/-- Both parsers have come to the level `before`, and the second one has the higher limit. -/
structure Within (before limit levels limit' levels' : Nat) : Prop where
  lower : before + levels = limit
  higher : before + levels' = limit'
  le : levels ≤ levels'

section
variable {g : Grammar} {before limit levels limit' levels' : Nat}

theorem Within.below (h : Within before limit (levels + 1) limit' (levels' + 1)) :
    Within (before + 1) limit levels limit' levels' where
  lower := by have := h.lower; omega
  higher := by have := h.higher; omega
  le := Nat.le_of_succ_le_succ h.le

theorem Within.exists_succ (h : Within before limit (levels + 1) limit' levels') :
    ∃ k, levels' = k + 1 :=
  Nat.exists_eq_add_one_of_ne_zero (Nat.ne_zero_of_lt h.le)

theorem Within.descend (h : Within before limit (levels + 1) limit' (levels' + 1)) :
    Agrees limit before (before + 1) (fun _ => True) (descend limit) (descend limit') :=
  agrees_descend (by have := h.lower; omega) (by have := h.higher; omega)

theorem Within.at_limit {α : Type} {after : Nat} {P : α → Prop} {f : Unit → Parse α}
    {p' : Parse α} (h : Within before limit 0 limit' levels') :
    Agrees limit before after P (Parser.descend limit >>= f) p' := agrees_at_limit h.lower

def ExpressionAgrees (g : Grammar) (levels : Nat) : Prop :=
  ∀ before limit limit' levels', Within before limit levels limit' levels' →
    Agrees limit before before (fun p => p.expr.height ≤ peak levels) (expression g limit levels)
      (expression g limit' levels')

theorem atom_agrees (he : ExpressionAgrees g levels) (h : Within before limit levels limit' levels') :
    Agrees limit before before (fun p => p.expr.height ≤ peak levels + 1) (atom g limit levels)
      (atom g limit' levels') := by
  have hinner := he before limit limit' levels' h
  rw [atom, atom]
  refine agrees_ahead.bind fun token _ => ?_
  split
  · refine agrees_advance.bind fun _ _ => hinner.bind fun p hp => ?_
    refine (onLevel_agrees.expect _ _).bind fun _ _ => agrees_pure ?_
    exact Nat.le_succ_of_le hp
  · refine agrees_advance.bind fun _ _ => (agrees_listOf hinner _ _).bind fun items hi => ?_
    refine agrees_pure ?_
    exact Nat.succ_le_succ (Phrase.heights_exprs_le.mpr hi)
  · refine agrees_advance.bind fun _ _ =>
      (agrees_listOf (agrees_entry hinner) _ _).bind fun fields hf => ?_
    refine agrees_pure ?_
    exact Nat.succ_le_succ (Phrase.entryHeights_fieldExprs_le.mpr hf)
  · split
    · next l _ =>
      refine agrees_advance.bind fun _ _ => agrees_pure ?_
      have hleaf : (Phrase.leaf l).expr.height = 1 := by cases l <;> rfl
      omega
    · exact agrees_refuse

theorem step_agrees (he : ExpressionAgrees g levels) (h : Within before limit levels limit' levels')
    {node : Phrase} {mark : Mark} {n : Nat} (hnode : node.expr.height ≤ n) (hn : peak levels ≤ n) :
    Agrees limit before before (fun p => p.expr.height ≤ n + 1) (step g limit node mark levels)
      (step g limit' node mark levels') := by
  have hinner := he before limit limit' levels' h
  have hpos := node.expr.height_pos
  rw [step.eq_def, step.eq_def]
  split
  · refine onLevel_agrees.propertyName.bind fun name _ => agrees_advance.bind fun _ _ => agrees_pure ?_
    simp only [Phrase.expr, Expr.height]
    omega
  · refine hinner.bind fun key hkey => (onLevel_agrees.expect _ _).bind fun _ _ => agrees_pure ?_
    simp only [Phrase.expr, Expr.height]
    omega
  · refine onLevel_agrees.transformName.bind fun name _ => agrees_advance.bind fun _ _ => ?_
    refine agrees_ahead.bind fun token _ => ?_
    split
    · refine agrees_advance.bind fun _ _ => (agrees_listOf hinner _ _).bind fun arguments ha => ?_
      have harguments := Phrase.heights_exprs_le.mpr ha
      refine agrees_pure ?_
      simp only [Phrase.expr, Expr.height]
      omega
    · refine agrees_pure ?_
      simp only [Phrase.expr, Expr.height, Expr.heights]
      omega

/-- Each step is one level further down and makes the node one higher. -/
theorem steps_agrees (he : ∀ k < levels, ExpressionAgrees g k)
    (h : Within before limit levels limit' levels') {node : Phrase} {n : Nat}
    (hnode : node.expr.height ≤ n) (hn : peak levels ≤ n) :
    Agrees limit before before (fun p => p.expr.height ≤ n + levels) (steps g limit node levels)
      (steps g limit' node levels') := by
  induction levels generalizing before levels' node n with
  | zero =>
    rw [steps.eq_def g limit, steps.eq_def g limit']
    refine agrees_ahead.bind fun token _ => ?_
    cases step? token with
    | none => exact agrees_pure hnode
    | some mark => exact h.at_limit
  | succ levels ih =>
    obtain ⟨levels', rfl⟩ := h.exists_succ
    have hpeak := peak_add_le levels
    rw [steps.eq_def g limit, steps.eq_def g limit']
    refine agrees_ahead.bind fun token _ => ?_
    cases step? token with
    | none => exact agrees_pure (Nat.le_add_right_of_le hnode)
    | some mark =>
      refine h.descend.bind fun _ _ => agrees_advance.bind fun _ _ => ?_
      refine (step_agrees (he levels (Nat.lt_succ_self _)) h.below hnode (by omega)).bind
        fun next hnext => ?_
      refine (ih (fun k hk => he k (Nat.lt_succ_of_lt hk)) h.below hnext (by omega)).bind
        fun p hp => ?_
      refine agrees_ascend.bind fun _ _ => agrees_pure ?_
      omega

theorem path_agrees (he : ∀ k ≤ levels, ExpressionAgrees g k)
    (h : Within before limit levels limit' levels') :
    Agrees limit before before (fun p => p.expr.height ≤ peak levels + 1 + levels)
      (path g limit levels) (path g limit' levels') := by
  rw [path, path]
  refine (atom_agrees (he levels (Nat.le_refl _)) h).bind fun start hstart => ?_
  exact steps_agrees (fun k hk => he k (Nat.le_of_lt hk)) h hstart (Nat.le_succ _)

theorem unary_agrees (he : ∀ k ≤ levels, ExpressionAgrees g k)
    (h : Within before limit levels limit' levels') :
    Agrees limit before before (fun p => p.expr.height ≤ peak levels + 1 + levels)
      (unary g limit levels) (unary g limit' levels') := by
  induction levels generalizing before levels' with
  | zero =>
    rw [unary.eq_def g limit, unary.eq_def g limit']
    refine agrees_ahead.bind fun token _ => ?_
    cases Sign.ofToken? token with
    | none => exact path_agrees he h
    | some sign => exact agrees_advance.bind fun _ _ => h.at_limit
  | succ levels ih =>
    obtain ⟨levels', rfl⟩ := h.exists_succ
    rw [unary.eq_def g limit, unary.eq_def g limit']
    refine agrees_ahead.bind fun token _ => ?_
    cases Sign.ofToken? token with
    | none => exact path_agrees he h
    | some sign =>
      refine agrees_advance.bind fun _ _ => h.descend.bind fun _ _ => ?_
      refine (ih (fun k hk => he k (Nat.le_succ_of_le hk)) h.below).thenAscend.bind
        fun operand hoperand => agrees_pure ?_
      have hpeak := peak_add_le levels
      have hsigned : (Phrase.signed sign operand).expr.height = operand.expr.height + 1 := by
        cases sign <;> rfl
      omega

def FoldsAgree (g : Grammar) (levels : Nat) : Prop :=
  ∀ before limit limit' levels' least left n, Within before limit levels limit' levels' →
    left.expr.height ≤ n → peak levels + levels ≤ n →
    Agrees limit before before (fun p => p.expr.height ≤ n + levels)
      (folds g limit least left levels) (folds g limit' least left levels')

theorem binary_agrees (he : ∀ k ≤ levels, ExpressionAgrees g k) (hf : FoldsAgree g levels)
    (h : Within before limit levels limit' levels') (least : Nat) :
    Agrees limit before before (fun p => p.expr.height ≤ peak levels + 1 + 2 * levels)
      (binary g limit least levels) (binary g limit' least levels') := by
  rw [binary, binary]
  refine (unary_agrees he h).bind fun left hleft => ?_
  refine (hf before limit limit' levels' least left _ h hleft (by omega)).mono fun p hp => ?_
  omega

theorem folds_agree (he : ∀ k < levels, ExpressionAgrees g k) : FoldsAgree g levels := by
  induction levels with
  | zero =>
    intro before limit limit' levels' least left n h hleft hn
    rw [folds.eq_def g limit, folds.eq_def g limit']
    refine (onLevel_agrees.operatorAhead_self g least).bind fun found _ => ?_
    cases found with
    | none => exact agrees_pure hleft
    | some o => exact agrees_advance.bind fun _ _ => h.at_limit
  | succ levels ih =>
    intro before limit limit' levels' least left n h hleft hn
    obtain ⟨levels', rfl⟩ := h.exists_succ
    have hpeak := peak_add_le levels
    have hbelow : ∀ k ≤ levels, ExpressionAgrees g k := fun k hk => he k (Nat.lt_succ_of_le hk)
    have hf : FoldsAgree g levels := ih fun k hk => hbelow k (Nat.le_of_lt hk)
    rw [folds.eq_def g limit, folds.eq_def g limit']
    refine (onLevel_agrees.operatorAhead_self g least).bind fun found _ => ?_
    cases found with
    | none => exact agrees_pure (Nat.le_add_right_of_le hleft)
    | some o =>
      obtain ⟨operator, precedence⟩ := o
      refine agrees_advance.bind fun _ _ => h.descend.bind fun _ _ => ?_
      refine (binary_agrees hbelow hf h.below (precedence + 1)).bind fun right hright => ?_
      have hnext : (Phrase.binary operator left right).expr.height ≤ n + 1 := by
        simp only [Phrase.expr, Expr.height]
        omega
      refine (hf _ _ _ _ least _ _ h.below hnext (by omega)).bind fun p hp => ?_
      refine agrees_ascend.bind fun _ _ => agrees_pure ?_
      omega

theorem conditional_agrees (he : ∀ k ≤ levels, ExpressionAgrees g k)
    (h : Within before limit levels limit' levels') :
    Agrees limit before before (fun p => p.expr.height ≤ peak (levels + 1))
      (conditional g limit levels) (conditional g limit' levels') := by
  have hbranch := he levels (Nat.le_refl _) before limit limit' levels' h
  have hf : FoldsAgree g levels := folds_agree fun k hk => he k (Nat.le_of_lt hk)
  have hpeak := peak_succ levels
  rw [conditional, conditional]
  refine (binary_agrees he hf h 0).bind fun test ht => agrees_ahead.bind fun token _ => ?_
  simp only [peak] at ht
  split
  · refine agrees_advance.bind fun _ _ => hbranch.bind fun consequent hc => ?_
    refine (onLevel_agrees.expect _ _).bind fun _ _ => hbranch.bind fun alternate ha => agrees_pure ?_
    -- a branch has at least one node, so there is a level for it
    have hpos := consequent.expr.height_pos
    simp only [peak] at hc ha
    simp only [Phrase.expr, Expr.height]
    omega
  · refine agrees_pure ?_
    omega

theorem expression_agrees (g : Grammar) (levels : Nat) : ExpressionAgrees g levels := by
  induction levels using Nat.strongRecOn with
  | ind levels ih =>
    intro before limit limit' levels' h
    cases levels with
    | zero =>
      rw [expression.eq_def g limit]
      exact h.at_limit
    | succ levels =>
      obtain ⟨levels', rfl⟩ := h.exists_succ
      rw [expression, expression]
      refine h.descend.bind fun _ _ => Agrees.thenAscend ?_
      exact conditional_agrees (fun k hk => ih k (Nat.lt_succ_of_le hk)) h.below

theorem whole_agrees (g : Grammar) (hle : limit ≤ limit') :
    Agrees limit 0 0 (fun p => p.expr.height ≤ peak limit) (whole g limit) (whole g limit') := by
  unfold whole
  refine agrees_ahead.bind fun token _ => ?_
  split
  · exact agrees_refuse
  · have h : Within 0 limit limit limit' limit' := ⟨Nat.zero_add _, Nat.zero_add _, hle⟩
    refine (expression_agrees g limit 0 limit limit' limit' h).bind fun p hp => ?_
    refine agrees_ahead.bind fun token _ => ?_
    split
    · exact agrees_pure hp
    · exact agrees_refuse

theorem depth_ofLexemes {lexemes : List Lexeme} {s : State} (h : State.ofLexemes lexemes = .ok s) :
    s.depth = 0 := by
  cases lexemes with
  | nil =>
    obtain rfl := Except.ok.inj h
    rfl
  | cons lexeme later =>
    rw [State.ofLexemes] at h
    cases hc : lexeme.content with
    | error e =>
      rw [hc] at h
      cases h
    | ok token =>
      rw [hc] at h
      obtain rfl := Except.ok.inj h
      rfl

end
end Parser

variable {g : Grammar} {text : String} {limit limit' : Nat}

/-- Either the limit is met, or a higher one changes nothing; and what is read is no higher than the
peak of its limit. -/
theorem Phrase.parse_limit_cases (g : Grammar) (text : String) (hle : limit ≤ limit') :
    Phrase.parse g limit text = .error (.depthExceeded limit) ∨
      Phrase.parse g limit' text = Phrase.parse g limit text ∧
        ∀ p, Phrase.parse g limit text = .ok p → p.expr.height ≤ Expr.peak limit := by
  unfold Phrase.parse
  cases hs : Parser.State.ofLexemes (lexemes g.symbols text) with
  | error e => exact .inr ⟨rfl, nofun⟩
  | ok s =>
    dsimp only
    cases Parser.whole_agrees g hle s (Parser.depth_ofLexemes hs) with
    | inl hdeep =>
      obtain ⟨s', hdeep⟩ := hdeep
      rw [hdeep]
      exact .inl rfl
    | inr hsame =>
      obtain ⟨heq, hresult⟩ := hsame
      rw [heq]
      refine .inr ⟨rfl, ?_⟩
      cases hw : Parser.whole g limit s with
      | error e s' => exact nofun
      | ok p s' =>
        rintro _ ⟨⟩
        exact (hresult p s' hw).2

/-- A higher limit reads what a lower one reads, and refuses what that one refuses for a fault. -/
theorem Expr.parse_of_limit_le (hle : limit ≤ limit')
    (hne : Expr.parse g limit text ≠ .error (.depthExceeded limit)) :
    Expr.parse g limit' text = Expr.parse g limit text := by
  unfold Expr.parse at hne ⊢
  cases Phrase.parse_limit_cases g text hle with
  | inl hdeep =>
    rw [hdeep] at hne
    exact absurd rfl hne
  | inr hsame => rw [hsame.1]

theorem Expr.height_le_peak {e : Expr} (h : Expr.parse g limit text = .ok e) :
    e.height ≤ peak limit := by
  unfold Expr.parse at h
  cases Phrase.parse_limit_cases g text (Nat.le_refl limit) with
  | inl hdeep =>
    rw [hdeep] at h
    cases h
  | inr hsame =>
    cases hp : Phrase.parse g limit text with
    | error e' =>
      rw [hp] at h
      cases h
    | ok p =>
      rw [hp] at h
      obtain rfl := Except.ok.inj h
      exact hsame.2 p hp

end PipeExpr
