import PipeExpr.Proofs.Parser.Stepwise

/-!
Grammars that give the tokens of a text the same operators. Nothing else of a grammar is looked up by
the parser, so it does the same under both; `Alike` says so together with what is left of the tokens.
-/
namespace PipeExpr.Parser
variable {α β : Type} {g g' : Grammar}

/-- Both grammars give the tokens that are left the same operators. -/
structure State.Shared (g g' : Grammar) (s : State) : Prop where
  ahead : operator? g' s.ahead = operator? g s.ahead
  later : ∀ lexeme ∈ s.later, ∀ t, lexeme.content = .ok t → operator? g' t = operator? g t

/-- From every state with tokens that are shared the second parser does what the first one does, and
leaves such a state. -/
def Alike (g g' : Grammar) (p p' : Parse α) : Prop :=
  ∀ s : State, s.Shared g g' → p' s = p s ∧ ∀ a s', p s = .ok a s' → s'.Shared g g'

section Alike
variable {p p' : Parse α}

theorem Alike.bind {f f' : α → Parse β} (hp : Alike g g' p p')
    (hf : ∀ a, Alike g g' (f a) (f' a)) : Alike g g' (p >>= f) (p' >>= f') := by
  intro s hs
  obtain ⟨heq, hresult⟩ := hp s hs
  simp only [Bind.bind, EStateM.bind, heq]
  cases h : p s with
  | error e s' => exact ⟨rfl, nofun⟩
  | ok a s' => exact hf a s' (hresult a s' h)

theorem alike_of_tokens_eq (h : ∀ s a s', p s = .ok a s' → s'.ahead = s.ahead ∧ s'.later = s.later) :
    Alike g g' p p := by
  intro s hs
  refine ⟨rfl, fun a s' hok => ?_⟩
  obtain ⟨hahead, hlater⟩ := h s a s' hok
  exact ⟨hahead ▸ hs.ahead, hlater ▸ hs.later⟩

theorem alike_ascend : Alike g g' ascend ascend :=
  alike_of_tokens_eq fun _ _ _ h => by cases h; exact ⟨rfl, rfl⟩

theorem alike_descend (limit : Nat) : Alike g g' (descend limit) (descend limit) := by
  refine alike_of_tokens_eq fun s _ _ h => ?_
  unfold descend at h
  split at h
  · cases h
  · cases h
    exact ⟨rfl, rfl⟩

theorem alike_advance : Alike g g' advance advance := by
  intro s hs
  refine ⟨rfl, fun _ s' h => ?_⟩
  unfold advance at h
  split at h
  · cases h
    exact ⟨rfl, hs.later⟩
  · next lexeme later hlater =>
    split at h
    · next token hcontent =>
      cases h
      refine ⟨hs.later lexeme (by simp [hlater]) token hcontent, fun other hother => ?_⟩
      exact hs.later other (by simp [hlater, hother])
    · cases h

theorem onLevel_alike : OnLevel fun _ p p' => Alike g g' p p' where
  bind hp hf := hp.bind hf
  pure _ := alike_of_tokens_eq fun _ _ _ h => by cases h; exact ⟨rfl, rfl⟩
  refuse _ := fun _ _ => ⟨rfl, nofun⟩
  ahead := alike_of_tokens_eq fun _ _ _ h => by cases h; exact ⟨rfl, rfl⟩
  tokensLeft := alike_of_tokens_eq fun _ _ _ h => by cases h; exact ⟨rfl, rfl⟩
  advance := alike_advance

theorem alike_operatorAhead (least : Nat) :
    Alike g g' (operatorAhead g least) (operatorAhead g' least) := by
  intro s hs
  have heq : operatorAhead g' least s = operatorAhead g least s := by
    simp only [operatorAhead, Bind.bind, EStateM.bind, Parser.ahead, hs.ahead]
  exact ⟨heq, (onLevel_alike.operatorAhead_self g least s hs).2⟩

theorem Alike.thenAscend (hp : Alike g g' p p') :
    Alike g g' (thenAscend p) (thenAscend p') := by
  intro s hs
  obtain ⟨heq, hresult⟩ := hp s hs
  unfold Parser.thenAscend
  rw [heq]
  refine ⟨rfl, ?_⟩
  cases h : p s with
  | error e s' => exact nofun
  | ok a s' =>
    rintro _ _ ⟨⟩
    have hshared := hresult a s' h
    exact ⟨hshared.ahead, hshared.later⟩

theorem stepwise_alike (g g' : Grammar) (limit : Nat) :
    Stepwise g g' limit fun _ p p' => Alike g g' p p' where
  toOnLevel := onLevel_alike
  thenAscend hp := hp.thenAscend
  tooDeep := fun _ _ => ⟨rfl, nofun⟩
  descend := alike_descend limit
  ascend := alike_ascend
  operatorAhead := alike_operatorAhead

end Alike

theorem shared_ofLexemes {lexemes : List Lexeme} {s : State}
    (h : ∀ lexeme ∈ lexemes, ∀ t, lexeme.content = .ok t → operator? g' t = operator? g t)
    (hs : State.ofLexemes lexemes = .ok s) : s.Shared g g' := by
  cases lexemes with
  | nil =>
    obtain rfl := Except.ok.inj hs
    exact ⟨rfl, h⟩
  | cons lexeme later =>
    rw [State.ofLexemes] at hs
    cases hc : lexeme.content with
    | error e =>
      rw [hc] at hs
      cases hs
    | ok token =>
      rw [hc] at hs
      obtain rfl := Except.ok.inj hs
      exact ⟨h lexeme List.mem_cons_self token hc,
        fun other hother => h other (List.mem_cons_of_mem _ hother)⟩

end PipeExpr.Parser

namespace PipeExpr
variable {g g' : Grammar} {text : String}

/-- Grammars with the same tokens for a text, and the same operators for these, read it alike, faults
and their places included. -/
theorem Expr.parse_of_shared (hlexemes : lexemes g'.symbols text = lexemes g.symbols text)
    (h : ∀ lexeme ∈ lexemes g.symbols text, ∀ t, lexeme.content = .ok t →
      Parser.operator? g' t = Parser.operator? g t) (limit : Nat) :
    Expr.parse g' limit text = Expr.parse g limit text := by
  unfold Expr.parse Phrase.parse
  rw [hlexemes]
  cases hs : Parser.State.ofLexemes (lexemes g.symbols text) with
  | error e => rfl
  | ok s =>
    dsimp only
    rw [((Parser.stepwise_alike g g' limit).whole s (Parser.shared_ofLexemes h hs)).1]

end PipeExpr
