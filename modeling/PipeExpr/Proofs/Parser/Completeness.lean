import PipeExpr.Proofs.Parser.Soundness

/-!
The parser finds every settled phrase from its tokens, if it has the levels that the phrase needs.
A phrase that leans to the left is not read by one call: its left edge is read first, and the rest
becomes the business of `steps` and `folds`. So the lemmas on `path` and `binary` say what these
return if the continuation behind the phrase returns it.
-/
namespace PipeExpr.Parser
open Phrase
variable {α β : Type} {g : Grammar} {limit : Nat}

/-- The parser returns `a` and leaves the tokens `ts`, on level `depth`. -/
def Gives (depth : Nat) (s : State) (p : Parse α) (a : α) (ts : List Token) : Prop :=
  ∃ s', p s = .ok a s' ∧ s'.Holds atEnd ts ∧ s'.depth = depth

section Gives
variable {d d' : Nat} {s : State} {ts us : List Token}

theorem Gives.bind {p : Parse α} {f : α → Parse β} {a : α} {b : β} (hp : Gives d s p a ts)
    (hf : ∀ s', s'.Holds atEnd ts → s'.depth = d → Gives d' s' (f a) b us) :
    Gives d' s (p >>= f) b us := by
  obtain ⟨s', hs, h', hd⟩ := hp
  obtain ⟨s'', hs'', h'', hd''⟩ := hf s' h' hd
  exact ⟨s'', (bind_of_ok hs f).trans hs'', h'', hd''⟩

theorem gives_pure {a : α} (h : s.Holds atEnd ts) (hd : s.depth = d) : Gives d s (pure a) a ts :=
  ⟨s, rfl, h, hd⟩

theorem ahead_of_holds (h : s.Holds atEnd ts) : s.ahead = ts.headD .eof := by
  cases ts with
  | nil => exact h.nil.1
  | cons t ts => exact h.ahead_cons

theorem gives_ahead (h : s.Holds atEnd ts) : Gives s.depth s ahead (ts.headD .eof) ts :=
  ⟨s, by rw [← ahead_of_holds h]; rfl, h, rfl⟩

theorem gives_advance {t : Token} (h : s.Holds atEnd (t :: ts)) :
    Gives s.depth s advance () ts := by
  cases advance_of_holds h with
  | inl hs => exact hs
  | inr hfault =>
    obtain ⟨-, hne⟩ := hfault
    exact absurd rfl hne

theorem gives_expect {mark : Mark} {what : Expectation} (h : s.Holds atEnd (.mark mark :: ts)) :
    Gives s.depth s (expect mark what) () ts := by
  refine Gives.bind (gives_ahead h) fun s₁ h₁ hd₁ => ?_
  simp only [List.headD_cons, if_true]
  exact hd₁ ▸ gives_advance h₁

theorem gives_descend {levels : Nat} (h : s.Holds atEnd ts) (hl : s.depth + (levels + 1) = limit) :
    Gives (s.depth + 1) s (descend limit) () ts :=
  ⟨_, descend_within (by omega), h.withDepth _, rfl⟩

theorem gives_ascend (h : s.Holds atEnd ts) (hd : s.depth = d + 1) : Gives d s ascend () ts :=
  ⟨s.up, rfl, h.withDepth _, by simp only [State.up]; omega⟩

theorem Gives.thenAscend {p : Parse α} {a : α} (hp : Gives (d + 1) s p a ts) :
    Gives d s (thenAscend p) a ts := by
  obtain ⟨s', hs, h', hd⟩ := hp
  exact ⟨s'.up, by simp only [Parser.thenAscend, hs], h'.withDepth _, by simp only [State.up]; omega⟩

end Gives

/-- A token that neither adds a step to a path nor arguments to a transform. -/
structure EndsPath (t : Token) : Prop where
  step : step? t = none
  arguments : t ≠ .mark .leftParen

/-- A token behind a phrase that can only end it. -/
structure Closes (g : Grammar) (t : Token) : Prop extends EndsPath t where
  operator : operator? g t = none
  question : t ≠ .mark .question

theorem closes_eof : Closes g .eof := ⟨⟨rfl, by simp⟩, rfl, by simp⟩

theorem closes_comma : Closes g (.mark .comma) := ⟨⟨rfl, by simp⟩, rfl, by simp⟩

theorem closes_colon : Closes g (.mark .colon) := ⟨⟨rfl, by simp⟩, rfl, by simp⟩

theorem closes_rightParen : Closes g (.mark .rightParen) := ⟨⟨rfl, by simp⟩, rfl, by simp⟩

theorem closes_rightBracket : Closes g (.mark .rightBracket) := ⟨⟨rfl, by simp⟩, rfl, by simp⟩

theorem closes_rightBrace : Closes g (.mark .rightBrace) := ⟨⟨rfl, by simp⟩, rfl, by simp⟩

section Lists
variable {d : Nat} {item : Parse α} {spell : α → List Token}

theorem items_complete {close : Mark} (what : Expectation) {as : List α} (hne : as ≠ [])
    (hi : ∀ a ∈ as, ∀ s rest, s.depth = d → s.Holds atEnd (spell a ++ rest) →
      Closes g (rest.headD .eof) → Gives d s item a rest)
    (hcl : Closes g (.mark close)) (hc : close ≠ .comma) {rounds : Nat}
    (hr : as.length ≤ rounds) {s : State} {rest : List Token} (hd : s.depth = d)
    (h : s.Holds atEnd (separated spell as ++ .mark close :: rest)) :
    Gives d s (items close what item rounds) as rest := by
  induction as generalizing s rounds with
  | nil => exact absurd rfl hne
  | cons a as ih =>
    obtain ⟨rounds, rfl⟩ : ∃ n, rounds = n + 1 := ⟨rounds - 1, by simp at hr; omega⟩
    rw [items]
    cases as with
    | nil =>
      refine Gives.bind (hi a (by simp) s _ hd h hcl) fun s₁ h₁ hd₁ => ?_
      refine Gives.bind (gives_ahead h₁) fun s₂ h₂ hd₂ => ?_
      simp only [List.headD_cons, Token.mark.injEq, if_neg hc, if_true]
      refine Gives.bind (gives_advance h₂) fun s₃ h₃ hd₃ => ?_
      exact gives_pure h₃ (by omega)
    | cons b as =>
      simp only [separated, List.append_assoc, List.cons_append] at h
      refine Gives.bind (hi a (by simp) s _ hd h closes_comma) fun s₁ h₁ hd₁ => ?_
      refine Gives.bind (gives_ahead h₁) fun s₂ h₂ hd₂ => ?_
      simp only [List.headD_cons, if_true]
      refine Gives.bind (gives_advance h₂) fun s₃ h₃ hd₃ => ?_
      refine Gives.bind (ih (by simp) (fun c hm => hi c (List.mem_cons_of_mem a hm))
        (by simp at hr ⊢; omega) (by omega) h₃) fun s₄ h₄ hd₄ => ?_
      exact gives_pure h₄ hd₄

theorem length_le_separated {as : List α} (h : ∀ a ∈ as, spell a ≠ []) :
    as.length ≤ (separated spell as).length := by
  induction as with
  | nil => simp
  | cons a as ih =>
    have ha := List.length_pos_iff.mpr (h a (by simp))
    have has := ih fun b hb => h b (List.mem_cons_of_mem a hb)
    cases as with
    | nil => simp only [separated, List.length_cons, List.length_nil]; omega
    | cons b as =>
      simp only [separated, List.length_append, List.length_cons] at has ⊢
      omega

theorem listOf_complete {close : Mark} (what : Expectation) {as : List α}
    (hi : ∀ a ∈ as, ∀ s rest, s.depth = d → s.Holds atEnd (spell a ++ rest) →
      Closes g (rest.headD .eof) → Gives d s item a rest)
    (ho : ∀ a ∈ as, ∃ t ts, spell a = t :: ts ∧ opens t = true)
    (hcl : Closes g (.mark close)) (hc : close ≠ .comma) (hb : opens (.mark close) = false)
    {s : State} {rest : List Token} (hd : s.depth = d)
    (h : s.Holds atEnd (separated spell as ++ .mark close :: rest)) :
    Gives d s (listOf close what item) as rest := by
  unfold listOf
  cases as with
  | nil =>
    refine Gives.bind (gives_ahead h) fun s₁ h₁ hd₁ => ?_
    simp only [separated, List.nil_append, List.headD_cons, if_true] at h₁ ⊢
    refine Gives.bind (gives_advance h₁) fun s₂ h₂ hd₂ => ?_
    exact gives_pure h₂ (by omega)
  | cons a as =>
    refine Gives.bind (gives_ahead h) fun s₁ h₁ hd₁ => ?_
    obtain ⟨t, ts, hspell, hopens⟩ := ho a (by simp)
    have hhead : (separated spell (a :: as) ++ .mark close :: rest).headD .eof = t := by
      cases as <;> simp [separated, hspell]
    have hne : t ≠ .mark close := fun he => by rw [he, hb] at hopens; cases hopens
    rw [hhead, if_neg hne]
    have hrounds : Gives s₁.depth s₁ tokensLeft (s₁.later.length + 1) _ := ⟨s₁, rfl, h₁, rfl⟩
    refine Gives.bind hrounds fun s₂ h₂ hd₂ => ?_
    have hlen : (a :: as).length ≤ (separated spell (a :: as)).length :=
      length_le_separated fun b hb => by
        obtain ⟨t, ts, he, -⟩ := ho b hb
        simp [he]
    have hcount := congrArg List.length h₁.contents
    simp only [List.length_cons, List.length_map, List.length_append, List.length_nil] at hcount hlen
    exact items_complete what (by simp) hi hcl hc (by simp only [List.length_cons]; omega)
      (by omega) h₂

end Lists

def PathParses (g : Grammar) (limit : Nat) (p : Phrase) : Prop :=
  ∀ levels s rest q us, p.depth ≤ levels → s.depth + levels = limit → s.Holds atEnd (p.tokens ++ rest) →
    rest.headD .eof ≠ .mark .leftParen →
    (∀ s₁, s₁.Holds atEnd rest → s₁.depth = s.depth + p.steps →
      Gives s₁.depth s₁ (steps g limit p (levels - p.steps)) q us) →
    Gives s.depth s (path g limit levels) q us

def UnaryParses (g : Grammar) (limit : Nat) (p : Phrase) : Prop :=
  ∀ levels s rest, p.depth ≤ levels → s.depth + levels = limit → s.Holds atEnd (p.tokens ++ rest) →
    EndsPath (rest.headD .eof) → Gives s.depth s (unary g limit levels) p rest

def BinaryParses (g : Grammar) (limit : Nat) (p : Phrase) : Prop :=
  ∀ least levels s rest q us, p.Binds g least → p.depth ≤ levels → s.depth + levels = limit →
    s.Holds atEnd (p.tokens ++ rest) → EndsPath (rest.headD .eof) →
    (∀ operator precedence, operator? g (rest.headD .eof) = some (operator, precedence) →
      p.Binds g precedence) →
    (∀ s₁, s₁.Holds atEnd rest → s₁.depth = s.depth + p.folds →
      Gives s₁.depth s₁ (folds g limit least p (levels - p.folds)) q us) →
    Gives s.depth s (binary g limit least levels) q us

def ExpressionParses (g : Grammar) (limit : Nat) (p : Phrase) : Prop :=
  ∀ levels s rest, p.depth + 1 ≤ levels → s.depth + levels = limit → s.Holds atEnd (p.tokens ++ rest) →
    Closes g (rest.headD .eof) → Gives s.depth s (expression g limit levels) p rest

theorem atom_leaf (l : Leaf) {levels : Nat} {s : State} {rest : List Token}
    (h : s.Holds atEnd ((Phrase.leaf l).tokens ++ rest)) :
    Gives s.depth s (atom g limit levels) (.leaf l) rest := by
  rw [atom]
  refine Gives.bind (gives_ahead h) fun s₁ h₁ hd₁ => ?_
  cases l <;>
  · simp only [tokens, Leaf.token, List.cons_append, List.headD_cons, Leaf.ofToken?]
    exact Gives.bind (gives_advance h₁) fun s₂ h₂ hd₂ => gives_pure h₂ (by omega)

theorem atom_group {inner : Phrase} (hi : ExpressionParses g limit inner) {levels : Nat} {s : State}
    {rest : List Token} (hdepth : (Phrase.group inner).depth ≤ levels)
    (hl : s.depth + levels = limit) (h : s.Holds atEnd ((Phrase.group inner).tokens ++ rest)) :
    Gives s.depth s (atom g limit levels) (.group inner) rest := by
  rw [atom]
  refine Gives.bind (gives_ahead h) fun s₁ h₁ hd₁ => ?_
  simp only [tokens, List.cons_append, List.headD_cons, List.append_assoc] at h₁ ⊢
  refine Gives.bind (gives_advance h₁) fun s₂ h₂ hd₂ => ?_
  refine Gives.bind (hi levels s₂ _ hdepth (by omega) h₂ closes_rightParen)
    fun s₃ h₃ hd₃ => ?_
  refine Gives.bind (gives_expect h₃) fun s₄ h₄ hd₄ => ?_
  exact gives_pure h₄ (by omega)

theorem phrases_complete {items : List Phrase} (hi : ∀ p ∈ items, ExpressionParses g limit p)
    {levels : Nat} (hdepth : itemsDepth items ≤ levels) (what : Expectation) {close : Mark}
    (hcl : Closes g (.mark close)) (hc : close ≠ .comma) (hb : opens (.mark close) = false)
    {s : State} {rest : List Token} (hl : s.depth + levels = limit)
    (h : s.Holds atEnd (itemTokens items ++ .mark close :: rest)) :
    Gives s.depth s (listOf close what (expression g limit levels)) items rest := by
  rw [itemTokens_eq] at h
  refine listOf_complete (g := g) what (fun p hp s' rest' hd' h' hc' => ?_) (fun p _ => ?_)
    hcl hc hb rfl h
  · exact hd' ▸ hi p hp levels s' rest' (itemsDepth_le.mp hdepth p hp) (by omega) h' hc'
  · obtain ⟨ts, ht⟩ := tokens_eq_lead p
    exact ⟨_, ts, ht, opens_lead p⟩

theorem atom_array {items : List Phrase} (hi : ∀ p ∈ items, ExpressionParses g limit p)
    {levels : Nat} {s : State} {rest : List Token} (hdepth : (Phrase.array items).depth ≤ levels)
    (hl : s.depth + levels = limit) (h : s.Holds atEnd ((Phrase.array items).tokens ++ rest)) :
    Gives s.depth s (atom g limit levels) (.array items) rest := by
  rw [atom]
  refine Gives.bind (gives_ahead h) fun s₁ h₁ hd₁ => ?_
  simp only [tokens, List.cons_append, List.headD_cons, List.append_assoc, List.nil_append] at h₁ ⊢
  refine Gives.bind (gives_advance h₁) fun s₂ h₂ hd₂ => ?_
  refine Gives.bind (phrases_complete hi hdepth _ closes_rightBracket (by simp) rfl (by omega) h₂)
    fun s₃ h₃ hd₃ => ?_
  exact gives_pure h₃ (by omega)

theorem entry_complete {f : FieldKey × Phrase} (hf : ExpressionParses g limit f.2) {levels : Nat}
    (hdepth : f.2.depth + 1 ≤ levels) {s : State} {rest : List Token}
    (hl : s.depth + levels = limit) (h : s.Holds atEnd (entryTokens f ++ rest))
    (hc : Closes g (rest.headD .eof)) :
    Gives s.depth s (entry (expression g limit levels)) f rest := by
  obtain ⟨key, p⟩ := f
  unfold entry objectKey
  simp only [entryTokens, List.cons_append] at h
  have hkey : FieldKey.ofToken? key.token = some key := FieldKey.ofToken?_eq_some.mpr rfl
  simp only [bind_assoc]
  refine Gives.bind (gives_ahead h) fun s₁ h₁ hd₁ => ?_
  simp only [List.headD_cons, hkey, pure_bind]
  refine Gives.bind (gives_advance h₁) fun s₂ h₂ hd₂ => ?_
  refine Gives.bind (gives_expect h₂) fun s₃ h₃ hd₃ => ?_
  refine Gives.bind (hf levels s₃ rest hdepth (by omega) h₃ hc) fun s₄ h₄ hd₄ => ?_
  exact gives_pure h₄ (by omega)

theorem atom_object {fields : List (FieldKey × Phrase)}
    (hf : ∀ f ∈ fields, ExpressionParses g limit f.2) {levels : Nat} {s : State}
    {rest : List Token} (hdepth : (Phrase.object fields).depth ≤ levels)
    (hl : s.depth + levels = limit) (h : s.Holds atEnd ((Phrase.object fields).tokens ++ rest)) :
    Gives s.depth s (atom g limit levels) (.object fields) rest := by
  have hlevels := fieldsDepth_le.mp hdepth
  rw [atom]
  refine Gives.bind (gives_ahead h) fun s₁ h₁ hd₁ => ?_
  simp only [tokens, fieldTokens_eq, List.cons_append, List.headD_cons, List.append_assoc,
    List.nil_append] at h₁ ⊢
  refine Gives.bind (gives_advance h₁) fun s₂ h₂ hd₂ => ?_
  refine Gives.bind (listOf_complete (g := g) _ (fun f hm s' rest' hd' h' hc' => ?_)
    (fun f _ => ?_) closes_rightBrace (by simp) rfl rfl h₂) fun s₃ h₃ hd₃ => ?_
  · exact hd' ▸ entry_complete (hf f hm) (hlevels f hm) (by omega) h' hc'
  · exact ⟨_, _, rfl, by cases f.1 <;> rfl⟩
  · exact gives_pure h₃ (by omega)

/-- A path of no steps is an atom, and what follows it is left to `steps`. -/
theorem pathParses_of_atom {p : Phrase} (hs : p.steps = 0)
    (ha : ∀ levels s rest, p.depth ≤ levels → s.depth + levels = limit →
      s.Holds atEnd (p.tokens ++ rest) → Gives s.depth s (atom g limit levels) p rest) :
    PathParses g limit p := by
  intro levels s rest q us hdepth hl h _ hk
  rw [path]
  refine Gives.bind (ha levels s rest hdepth hl h) fun s₁ h₁ hd₁ => ?_
  have := hk s₁ h₁ (by omega)
  rwa [hs, Nat.sub_zero, hd₁] at this

/-- One step more at the end of a path. The step needs `room` levels below its own. -/
theorem pathParses_of_step {target p : Phrase} (mark : Mark) (ts : List Token) (room : Nat)
    (ht : PathParses g limit target) (hm : step? (.mark mark) = some mark)
    (htokens : p.tokens = target.tokens ++ .mark mark :: ts) (hsteps : p.steps = target.steps + 1)
    (hdepth : p.depth = max target.depth (target.steps + 1 + room))
    (hstep : ∀ levels s rest, room ≤ levels → s.depth + levels = limit → s.Holds atEnd (ts ++ rest) →
      rest.headD .eof ≠ .mark .leftParen →
      Gives s.depth s (step g limit target mark levels) p rest) :
    PathParses g limit p := by
  intro levels s rest q us hd hl h hparen hk
  rw [hdepth] at hd
  rw [htokens, List.append_assoc] at h
  have hmark : .mark mark ≠ Token.mark .leftParen := by
    intro he
    rw [he] at hm
    cases hm
  refine ht levels s _ q us (by omega) hl h hmark fun s₁ h₁ hd₁ => ?_
  obtain ⟨k, hlevels⟩ : ∃ k, levels - target.steps = k + 1 :=
    ⟨levels - target.steps - 1, by omega⟩
  rw [hlevels, steps]
  refine Gives.bind (gives_ahead h₁) fun s₂ h₂ hd₂ => ?_
  simp only [List.cons_append, List.headD_cons, hm]
  refine Gives.bind (gives_descend h₂ (by omega : s₂.depth + (k + 1) = limit)) fun s₃ h₃ hd₃ => ?_
  refine Gives.bind (gives_advance h₃) fun s₄ h₄ hd₄ => ?_
  refine Gives.bind (hstep k s₄ rest (by omega) (by omega) h₄ hparen) fun s₅ h₅ hd₅ => ?_
  have hrest := hk s₅ h₅ (by omega)
  rw [show levels - p.steps = k by omega] at hrest
  refine Gives.bind hrest fun s₆ h₆ hd₆ => ?_
  refine Gives.bind (gives_ascend h₆ (d := s₁.depth) (by omega)) fun s₇ h₇ hd₇ => ?_
  exact gives_pure h₇ hd₇

theorem step_dot (target : Phrase) (name : MemberName) {levels : Nat} {s : State}
    {rest : List Token} (h : s.Holds atEnd (name.token :: rest)) :
    Gives s.depth s (step g limit target .dot levels) (.dot target name) rest := by
  have hname : MemberName.ofToken? name.token = some name := MemberName.ofToken?_eq_some.mpr rfl
  rw [step.eq_def]
  unfold propertyName
  simp only [bind_assoc]
  refine Gives.bind (gives_ahead h) fun s₁ h₁ hd₁ => ?_
  simp only [List.headD_cons, hname, pure_bind]
  refine Gives.bind (gives_advance h₁) fun s₂ h₂ hd₂ => ?_
  exact gives_pure h₂ (by omega)

theorem step_index (target : Phrase) {key : Phrase} (hk : ExpressionParses g limit key)
    {levels : Nat} {s : State} {rest : List Token} (hdepth : key.depth + 1 ≤ levels)
    (hl : s.depth + levels = limit) (h : s.Holds atEnd (key.tokens ++ .mark .rightBracket :: rest)) :
    Gives s.depth s (step g limit target .leftBracket levels) (.index target key) rest := by
  rw [step.eq_def]
  refine Gives.bind (hk levels s _ hdepth hl h closes_rightBracket) fun s₁ h₁ hd₁ => ?_
  refine Gives.bind (gives_expect h₁) fun s₂ h₂ hd₂ => ?_
  exact gives_pure h₂ (by omega)

theorem step_pipe (subject : Phrase) (name : String) {levels : Nat} {s : State}
    {rest : List Token} (h : s.Holds atEnd (.identifier name :: rest))
    (hparen : rest.headD .eof ≠ .mark .leftParen) :
    Gives s.depth s (step g limit subject .pipe levels) (.pipe subject name) rest := by
  rw [step.eq_def]
  unfold transformName
  simp only [bind_assoc]
  refine Gives.bind (gives_ahead h) fun s₁ h₁ hd₁ => ?_
  simp only [List.headD_cons, pure_bind]
  refine Gives.bind (gives_advance h₁) fun s₂ h₂ hd₂ => ?_
  refine Gives.bind (gives_ahead h₂) fun s₃ h₃ hd₃ => ?_
  rw [if_neg hparen]
  exact gives_pure h₃ (by omega)

theorem step_call (subject : Phrase) (name : String) {arguments : List Phrase}
    (ha : ∀ p ∈ arguments, ExpressionParses g limit p) {levels : Nat} {s : State}
    {rest : List Token} (hdepth : itemsDepth arguments ≤ levels) (hl : s.depth + levels = limit)
    (h : s.Holds atEnd (.identifier name :: .mark .leftParen :: itemTokens arguments
      ++ .mark .rightParen :: rest)) :
    Gives s.depth s (step g limit subject .pipe levels) (.call subject name arguments) rest := by
  rw [step.eq_def]
  unfold transformName
  simp only [bind_assoc]
  refine Gives.bind (gives_ahead h) fun s₁ h₁ hd₁ => ?_
  simp only [List.cons_append, List.headD_cons, pure_bind] at h₁ ⊢
  refine Gives.bind (gives_advance h₁) fun s₂ h₂ hd₂ => ?_
  refine Gives.bind (gives_ahead h₂) fun s₃ h₃ hd₃ => ?_
  simp only [List.headD_cons, if_true]
  refine Gives.bind (gives_advance h₃) fun s₄ h₄ hd₄ => ?_
  refine Gives.bind (phrases_complete ha hdepth _ closes_rightParen (by simp) rfl (by omega) h₄)
    fun s₅ h₅ hd₅ => ?_
  exact gives_pure h₅ (by omega)

theorem gives_steps_done {node : Phrase} {levels : Nat} {s : State} {ts : List Token}
    (h : s.Holds atEnd ts) (he : step? (ts.headD .eof) = none) :
    Gives s.depth s (steps g limit node levels) node ts := by
  rw [steps]
  refine Gives.bind (gives_ahead h) fun s₁ h₁ hd₁ => ?_
  rw [he]
  exact gives_pure h₁ hd₁

theorem gives_folds_done {left : Phrase} {least levels : Nat} {s : State} {ts : List Token}
    (h : s.Holds atEnd ts) (he : ∀ operator precedence,
      operator? g (ts.headD .eof) = some (operator, precedence) → precedence < least) :
    Gives s.depth s (folds g limit least left levels) left ts := by
  have hstops : Stops g least s := by
    rw [Stops, ahead_of_holds h]
    exact he
  exact ⟨s, folds_of_stops hstops limit left levels, h, rfl⟩

theorem unaryParses_of_path {p : Phrase} (hs : p.Settled g) (hp : p.isPath = true)
    (hpath : PathParses g limit p) : UnaryParses g limit p := by
  intro levels s rest hdepth hl h he
  rw [unary]
  refine Gives.bind (gives_ahead h) fun s₁ h₁ hd₁ => ?_
  obtain ⟨ts, ht⟩ := tokens_eq_lead p
  have hlead : (p.tokens ++ rest).headD .eof = p.lead := by simp [ht]
  rw [hlead, hs.sign_lead hp, ← hd₁]
  exact hpath levels s₁ rest p rest hdepth (by omega) h₁ he.arguments fun s₂ h₂ _ =>
    gives_steps_done h₂ he.step

theorem unaryParses_signed (sign : Sign) {operand : Phrase} (ho : UnaryParses g limit operand) :
    UnaryParses g limit (.signed sign operand) := by
  intro levels s rest hdepth hl h he
  simp only [depth] at hdepth
  obtain ⟨k, rfl⟩ : ∃ k, levels = k + 1 := ⟨levels - 1, by omega⟩
  have hsign : Sign.ofToken? sign.token = some sign := Sign.ofToken?_eq_some.mpr rfl
  rw [unary]
  refine Gives.bind (gives_ahead h) fun s₁ h₁ hd₁ => ?_
  simp only [tokens, List.cons_append, List.headD_cons, hsign] at h₁ ⊢
  refine Gives.bind (gives_advance h₁) fun s₂ h₂ hd₂ => ?_
  refine Gives.bind (gives_descend h₂ (by omega : s₂.depth + (k + 1) = limit)) fun s₃ h₃ hd₃ => ?_
  have hop := ho k s₃ rest (by omega) (by omega) h₃ he
  rw [hd₃] at hop
  refine Gives.bind hop.thenAscend fun s₄ h₄ hd₄ => ?_
  exact gives_pure h₄ (by omega)

theorem binaryParses_of_unary {p : Phrase} (ho : p.isOperand = true)
    (hu : UnaryParses g limit p) : BinaryParses g limit p := by
  intro least levels s rest q us _ hdepth hl h he _ hk
  rw [binary]
  refine Gives.bind (hu levels s rest hdepth hl h he) fun s₁ h₁ hd₁ => ?_
  have hfolds := folds_of_isOperand ho
  have hrest := hk s₁ h₁ (by omega)
  rwa [hfolds, Nat.sub_zero, hd₁] at hrest

/-- The left operand is read first. What follows it is one fold, whose right operand ends where the
phrase ends, and then what follows the phrase. -/
theorem binaryParses_binary {operator : OperatorName} {left right : Phrase} {precedence : Nat}
    (hprec : g.precedence? operator.text = some precedence) (hlb : left.Binds g precedence)
    (hrb : right.Binds g (precedence + 1)) (hleft : BinaryParses g limit left)
    (hright : BinaryParses g limit right) : BinaryParses g limit (.binary operator left right) := by
  intro least levels s rest q us hb hdepth hl h he hnext hk
  obtain ⟨n, hn, hle⟩ := hb
  obtain rfl : n = precedence := Option.some.inj (hn.symm.trans hprec)
  have hop : operator? g operator.token = some (operator, n) := operator?_eq_some.mpr ⟨rfl, hprec⟩
  simp only [tokens, List.append_assoc, List.cons_append] at h
  simp only [depth] at hdepth
  refine hleft least levels s _ q us (hlb.mono hle) (by omega) hl h
    (by cases operator <;> exact ⟨rfl, by simp [OperatorName.token]⟩)
    (fun o m ho => ?_) fun s₁ h₁ hd₁ => ?_
  · rw [List.headD_cons, hop] at ho
    obtain ⟨-, rfl⟩ := Prod.mk.inj (Option.some.inj ho)
    exact hlb
  · obtain ⟨k, hlevels⟩ : ∃ k, levels - left.folds = k + 1 :=
      ⟨levels - left.folds - 1, by omega⟩
    rw [hlevels, folds]
    unfold operatorAhead
    simp only [bind_assoc]
    refine Gives.bind (gives_ahead h₁) fun s₂ h₂ hd₂ => ?_
    simp only [List.headD_cons, hop, if_pos hle, pure_bind]
    refine Gives.bind (gives_advance h₂) fun s₃ h₃ hd₃ => ?_
    refine Gives.bind (gives_descend h₃ (by omega : s₃.depth + (k + 1) = limit))
      fun s₄ h₄ hd₄ => ?_
    have hr : ∀ o m, operator? g (rest.headD .eof) = some (o, m) → m ≤ n := fun o m ho => by
      obtain ⟨n', hn', hm⟩ := hnext o m ho
      obtain rfl : n' = n := Option.some.inj (hn'.symm.trans hprec)
      exact hm
    refine Gives.bind (hright (n + 1) k s₄ rest right rest hrb (by omega) (by omega) h₄ he
      (fun o m ho => hrb.mono (by have := hr o m ho; omega)) fun s₅ h₅ hd₅ =>
        gives_folds_done h₅ fun o m ho => Nat.lt_succ_of_le (hr o m ho)) fun s₆ h₆ hd₆ => ?_
    have hrest := hk s₆ h₆ (by simp only [Phrase.folds]; omega)
    rw [show levels - (Phrase.binary operator left right).folds = k by
      simp only [Phrase.folds]; omega] at hrest
    refine Gives.bind hrest fun s₇ h₇ hd₇ => ?_
    refine Gives.bind (gives_ascend h₇ (d := s₁.depth) (by omega)) fun s₈ h₈ hd₈ => ?_
    exact gives_pure h₈ hd₈

theorem gives_binary {p : Phrase} (hb : p.Binds g 0) (hp : BinaryParses g limit p) {levels : Nat}
    {s : State} {rest : List Token} (hdepth : p.depth ≤ levels) (hl : s.depth + levels = limit)
    (h : s.Holds atEnd (p.tokens ++ rest)) (he : EndsPath (rest.headD .eof))
    (ho : operator? g (rest.headD .eof) = none) :
    Gives s.depth s (binary g limit 0 levels) p rest :=
  hp 0 levels s rest p rest hb hdepth hl h he (fun o n hn => by rw [ho] at hn; cases hn)
    fun _ h₁ _ => gives_folds_done h₁ fun o n hn => by rw [ho] at hn; cases hn

theorem expressionParses_of_conditional {p : Phrase}
    (hp : ∀ levels s rest, p.depth ≤ levels → s.depth + levels = limit →
      s.Holds atEnd (p.tokens ++ rest) → Closes g (rest.headD .eof) →
      Gives s.depth s (conditional g limit levels) p rest) : ExpressionParses g limit p := by
  intro levels s rest hdepth hl h hc
  obtain ⟨k, rfl⟩ : ∃ k, levels = k + 1 := ⟨levels - 1, by omega⟩
  rw [expression]
  refine Gives.bind (gives_descend h hl) fun s₁ h₁ hd₁ => ?_
  have hcond := hp k s₁ rest (by omega) (by omega) h₁ hc
  rw [hd₁] at hcond
  exact hcond.thenAscend

theorem expressionParses_of_binary {p : Phrase} (hb : p.Binds g 0)
    (hp : BinaryParses g limit p) : ExpressionParses g limit p := by
  refine expressionParses_of_conditional fun levels s rest hdepth hl h hc => ?_
  rw [conditional]
  refine Gives.bind (gives_binary hb hp hdepth hl h hc.toEndsPath hc.operator)
    fun s₁ h₁ hd₁ => ?_
  refine Gives.bind (gives_ahead h₁) fun s₂ h₂ hd₂ => ?_
  rw [if_neg hc.question]
  exact gives_pure h₂ (by omega)

theorem expressionParses_conditional {test consequent alternate : Phrase} (htb : test.Binds g 0)
    (ht : BinaryParses g limit test) (hc : ExpressionParses g limit consequent)
    (ha : ExpressionParses g limit alternate) :
    ExpressionParses g limit (.conditional test consequent alternate) := by
  refine expressionParses_of_conditional fun levels s rest hdepth hl h hcl => ?_
  simp only [tokens, List.append_assoc, List.cons_append] at h
  simp only [depth] at hdepth
  rw [conditional]
  refine Gives.bind (gives_binary htb ht (by omega) hl h ⟨rfl, by simp⟩ rfl) fun s₁ h₁ hd₁ => ?_
  refine Gives.bind (gives_ahead h₁) fun s₂ h₂ hd₂ => ?_
  simp only [List.headD_cons, if_true]
  refine Gives.bind (gives_advance h₂) fun s₃ h₃ hd₃ => ?_
  refine Gives.bind (hc levels s₃ _ (by omega) (by omega) h₃ closes_colon) fun s₄ h₄ hd₄ => ?_
  refine Gives.bind (gives_expect h₄) fun s₅ h₅ hd₅ => ?_
  refine Gives.bind (ha levels s₅ rest (by omega) (by omega) h₅ hcl) fun s₆ h₆ hd₆ => ?_
  exact gives_pure h₆ (by omega)

/-- What the functions of the parser do with a phrase, each one if the phrase is of its kind. -/
structure Parses (g : Grammar) (limit : Nat) (p : Phrase) : Prop where
  path : p.isPath = true → PathParses g limit p
  unary : p.isOperand = true → UnaryParses g limit p
  binary : p.isConditional = false → BinaryParses g limit p
  expression : ExpressionParses g limit p

theorem Parses.of_binary {p : Phrase} (hs : p.Settled g) (ho : p.isOperand = false)
    (hc : p.isConditional = false) (h : BinaryParses g limit p) : Parses g limit p where
  path hp := by rw [isOperand_of_isPath hp] at ho; cases ho
  unary hu := by rw [hu] at ho; cases ho
  binary _ := h
  expression := expressionParses_of_binary (hs.binds_zero hc) h

theorem Parses.of_unary {p : Phrase} (hp : p.isPath = false) (ho : p.isOperand = true)
    (h : UnaryParses g limit p) : Parses g limit p where
  path hpath := by rw [hpath] at hp; cases hp
  unary _ := h
  binary _ := binaryParses_of_unary ho h
  expression := expressionParses_of_binary (binds_of_isOperand ho) (binaryParses_of_unary ho h)

theorem Parses.of_path {p : Phrase} (hs : p.Settled g) (hp : p.isPath = true)
    (h : PathParses g limit p) : Parses g limit p :=
  have hu := unaryParses_of_path hs hp h
  have hb := binaryParses_of_unary (isOperand_of_isPath hp) hu
  { path := fun _ => h
    unary := fun _ => hu
    binary := fun _ => hb
    expression := expressionParses_of_binary (binds_of_isOperand (isOperand_of_isPath hp)) hb }

theorem parses_of_settled {p : Phrase} (h : p.Settled g) (limit : Nat) : Parses g limit p := by
  induction h with
  | leaf l =>
    exact .of_path (.leaf l) rfl (pathParses_of_atom rfl fun _ _ _ _ _ h => atom_leaf l h)
  | group hi ih =>
    exact .of_path (.group hi) rfl
      (pathParses_of_atom rfl fun _ _ _ hd hl h => atom_group ih.expression hd hl h)
  | array hi ih =>
    exact .of_path (.array hi) rfl
      (pathParses_of_atom rfl fun _ _ _ hd hl h => atom_array (fun p hp => (ih p hp).expression) hd hl h)
  | object hf ih =>
    exact .of_path (.object hf) rfl
      (pathParses_of_atom rfl fun _ _ _ hd hl h => atom_object (fun f hm => (ih f hm).expression) hd hl h)
  | @dot target name hs hp ih =>
    exact .of_path (.dot name hs hp) rfl (pathParses_of_step .dot [name.token] 0 (ih.path hp) rfl rfl
      rfl rfl fun _ _ _ _ _ h _ => step_dot target name h)
  | @index target key hs hp hk iht ihk =>
    refine .of_path (.index hs hp hk) rfl (pathParses_of_step .leftBracket
      (key.tokens ++ [.mark .rightBracket]) (key.depth + 1) (iht.path hp) rfl (by simp [tokens]) rfl
      rfl fun _ _ _ hd hl h _ => ?_)
    exact step_index target ihk.expression hd hl (by simpa using h)
  | @pipe subject name hs hp ih =>
    exact .of_path (.pipe name hs hp) rfl (pathParses_of_step .pipe [.identifier name] 0 (ih.path hp)
      rfl rfl rfl rfl fun _ _ _ _ _ h hparen => step_pipe subject name h hparen)
  | @call subject name arguments hs hp ha ihs iha =>
    refine .of_path (.call name hs hp ha) rfl (pathParses_of_step .pipe
      (.identifier name :: .mark .leftParen :: itemTokens arguments ++ [.mark .rightParen])
      (itemsDepth arguments) (ihs.path hp) rfl (by simp [tokens]) rfl rfl fun _ _ _ hd hl h _ => ?_)
    exact step_call subject name (fun p hp => (iha p hp).expression) hd hl (by simpa using h)
  | signed sign hs ho ih => exact .of_unary rfl rfl (unaryParses_signed sign (ih.unary ho))
  | @binary operator left right precedence hprec hls hrs hlb hrb ihl ihr =>
    have hcl : left.isConditional = false := by cases left <;> simp_all [isConditional, Binds]
    have hcr : right.isConditional = false := by cases right <;> simp_all [isConditional, Binds]
    exact .of_binary (.binary hprec hls hrs hlb hrb) rfl rfl
      (binaryParses_binary hprec hlb hrb (ihl.binary hcl) (ihr.binary hcr))
  | @conditional test consequent alternate ht htc hc ha iht ihc iha =>
    have hexpr := expressionParses_conditional (ht.binds_zero htc) (iht.binary htc) ihc.expression
      iha.expression
    exact ⟨fun hp => by simp [isPath] at hp, fun hu => by simp [isOperand] at hu,
      fun hb => by simp [isConditional] at hb, hexpr⟩

theorem whole_complete {p : Phrase} (h : p.Settled g) (hdepth : p.depth + 1 ≤ limit) {s : State}
    (hs : s.Holds atEnd p.tokens) (hd : s.depth = 0) : ∃ s', whole g limit s = .ok p s' := by
  have hgives : Gives s.depth s (whole g limit) p [] := by
    unfold whole
    refine Gives.bind (gives_ahead hs) fun s₁ h₁ hd₁ => ?_
    obtain ⟨ts, ht⟩ := tokens_eq_lead p
    have hne : p.tokens.headD .eof ≠ .eof := by
      rw [ht, List.headD_cons]
      intro he
      have := opens_lead p
      rw [he] at this
      cases this
    rw [if_neg hne]
    have hexpr := (parses_of_settled h limit).expression limit s₁ [] hdepth (by omega) (by simpa using h₁)
      closes_eof
    refine Gives.bind hexpr fun s₂ h₂ hd₂ => ?_
    refine Gives.bind (gives_ahead h₂) fun s₃ h₃ hd₃ => ?_
    exact gives_pure h₃ (by omega)
  obtain ⟨s', hs', -⟩ := hgives
  exact ⟨s', hs'⟩

end PipeExpr.Parser
