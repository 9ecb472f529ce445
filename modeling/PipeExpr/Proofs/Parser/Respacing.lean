import PipeExpr.Proofs.Lexer.Respacing
import PipeExpr.Proofs.Parser.Stepwise
import PipeExpr.Proofs.Registry.Represented

/-!
Texts with the same tokens. The parser looks at a place only to put it into an error, so it does the same
on both, and an error of one is that of the other at another place. Blanks change places and nothing else.
-/
namespace PipeExpr

def Error.unplaced : Error → Error
  | .malformed fault _ => .malformed fault none
  | e => e

namespace Parser
variable {α β : Type} {g : Grammar} {limit : Nat}

/-- The same tokens on the same level, wherever they stand. -/
structure State.Moved (s s' : State) : Prop where
  ahead : s'.ahead = s.ahead
  later : s'.later.map Lexeme.content = s.later.map Lexeme.content
  depth : s'.depth = s.depth

/-- The same result and the same tokens left, or the same error but for its place. -/
inductive Unmoved : EStateM.Result Error State α → EStateM.Result Error State α → Prop where
  | ok (a : α) {s s' : State} : s.Moved s' → Unmoved (.ok a s) (.ok a s')
  | error {e e' : Error} {s s' : State} : e'.unplaced = e.unplaced →
      Unmoved (.error e s) (.error e' s')

def Placeless (p p' : Parse α) : Prop := ∀ s s' : State, s.Moved s' → Unmoved (p s) (p' s')

theorem Placeless.bind {p p' : Parse α} {f f' : α → Parse β} (hp : Placeless p p')
    (hf : ∀ a, Placeless (f a) (f' a)) : Placeless (p >>= f) (p' >>= f') := by
  intro s s' hs
  have hresult := hp s s' hs
  simp only [Bind.bind, EStateM.bind]
  generalize p s = r at hresult ⊢
  generalize p' s' = r' at hresult ⊢
  cases hresult with
  | ok a hmoved => exact hf a _ _ hmoved
  | error he => exact .error he

theorem Placeless.thenAscend {p p' : Parse α} (hp : Placeless p p') :
    Placeless (thenAscend p) (thenAscend p') := by
  intro s s' hs
  have hresult := hp s s' hs
  unfold Parser.thenAscend
  generalize p s = r at hresult ⊢
  generalize p' s' = r' at hresult ⊢
  cases hresult with
  | ok a hmoved => exact .ok a ⟨hmoved.ahead, hmoved.later, congrArg (· - 1) hmoved.depth⟩
  | error he => exact .error he

theorem placeless_ahead : Placeless ahead ahead := by
  intro s s' hs
  unfold ahead
  rw [hs.ahead]
  exact .ok _ hs

theorem placeless_tokensLeft : Placeless tokensLeft tokensLeft := by
  intro s s' hs
  have hlength := congrArg List.length hs.later
  rw [List.length_map, List.length_map] at hlength
  unfold tokensLeft
  rw [hlength]
  exact .ok _ hs

theorem placeless_advance : Placeless advance advance := by
  intro s s' hs
  have hlater := hs.later
  unfold advance
  cases hl : s.later with
  | nil =>
    rw [hl, List.map_nil, List.map_eq_nil_iff] at hlater
    rw [hlater]
    exact .ok () ⟨rfl, rfl, hs.depth⟩
  | cons lexeme later =>
    rw [hl, List.map_cons] at hlater
    obtain ⟨lexeme', later', hl', hcontent, hrest⟩ := List.map_eq_cons_iff.mp hlater
    rw [hl']
    dsimp only
    rw [hcontent]
    cases lexeme.content with
    | ok token => exact .ok () ⟨rfl, hrest, hs.depth⟩
    | error e => exact .error rfl

theorem placeless_descend (limit : Nat) : Placeless (descend limit) (descend limit) := by
  intro s s' hs
  unfold descend
  rw [hs.depth]
  split
  · exact .error rfl
  · exact .ok () ⟨hs.ahead, hs.later, rfl⟩

theorem onLevel_placeless : OnLevel fun _ p p' => Placeless p p' where
  bind hp hf := hp.bind hf
  pure a := fun _ _ hs => .ok a hs
  refuse _ := fun _ _ _ => .error rfl
  ahead := placeless_ahead
  tokensLeft := placeless_tokensLeft
  advance := placeless_advance

theorem stepwise_placeless (g : Grammar) (limit : Nat) :
    Stepwise g g limit fun _ p p' => Placeless p p' where
  toOnLevel := onLevel_placeless
  thenAscend hp := hp.thenAscend
  tooDeep := fun _ _ _ => .error rfl
  descend := placeless_descend limit
  ascend := fun _ _ hs => .ok () ⟨hs.ahead, hs.later, congrArg (· - 1) hs.depth⟩
  operatorAhead := onLevel_placeless.operatorAhead_self g

theorem moved_ofLexemes {ls ls' : List Lexeme}
    (h : ls'.map Lexeme.content = ls.map Lexeme.content) :
    (∃ e, State.ofLexemes ls = .error e ∧ State.ofLexemes ls' = .error e) ∨
      ∃ s s', State.ofLexemes ls = .ok s ∧ State.ofLexemes ls' = .ok s' ∧ s.Moved s' := by
  cases ls with
  | nil =>
    rw [List.map_nil, List.map_eq_nil_iff] at h
    subst h
    exact .inr ⟨_, _, rfl, rfl, rfl, rfl, rfl⟩
  | cons lexeme later =>
    obtain ⟨lexeme', later', rfl, hcontent, hlater⟩ := List.map_eq_cons_iff.mp h
    simp only [State.ofLexemes, hcontent]
    cases lexeme.content with
    | error e => exact .inl ⟨e, rfl, rfl⟩
    | ok token => exact .inr ⟨_, _, rfl, rfl, rfl, hlater, rfl⟩

end Parser

namespace Expr
variable {g : Grammar} {text text' : String}

theorem parse_unplaced_of_contents
    (h : (lexemes g.symbols text').map Lexeme.content = (lexemes g.symbols text).map Lexeme.content)
    (limit : Nat) : (Expr.parse g limit text').mapError Error.unplaced =
      (Expr.parse g limit text).mapError Error.unplaced := by
  unfold Expr.parse Phrase.parse
  obtain ⟨e, hs, hs'⟩ | ⟨s, s', hs, hs', hmoved⟩ := Parser.moved_ofLexemes h
  · rw [hs, hs']
  · have hwhole := (Parser.stepwise_placeless g limit).whole s s' hmoved
    rw [hs, hs']
    dsimp only
    generalize Parser.whole g limit s = r at hwhole ⊢
    generalize Parser.whole g limit s' = r' at hwhole ⊢
    cases hwhole with
    | ok p _ => rfl
    | error he => exact congrArg Except.error he

/-- Writing the tokens of a text apart with other blanks changes neither the tokens nor the tree, and of
an error nothing but its place. -/
theorem parse_respaced (b : Registry.Base) (calls : List Registry.Registration) {ts : List Token}
    (h : LexesTo (b.after calls).grammar.symbols text ts) {gaps : Nat → List Char}
    (hblank : ∀ i, ∀ c ∈ gaps i, c ∈ [' ', '\t', '\n', '\r'])
    (hapart : ∀ i, 0 < i → i < (sources (b.after calls).grammar.symbols text).length → gaps i ≠ []) :
    LexesTo (b.after calls).grammar.symbols
        (String.ofList (respaced gaps (sources (b.after calls).grammar.symbols text))) ts ∧
      ∀ limit, (Expr.parse (b.after calls).grammar limit
          (String.ofList (respaced gaps (sources (b.after calls).grammar.symbols text)))).mapError
            Error.unplaced =
        (Expr.parse (b.after calls).grammar limit text).mapError Error.unplaced := by
  have hsound := (Registry.built_after b calls).sound
  have hlexes := h.respaced hsound
    (fun i c hc => by simpa [Lexer.isBlank, or_assoc] using hblank i c hc) hapart
  exact ⟨hlexes, parse_unplaced_of_contents (hlexes.trans h.symm)⟩

/-- A tight disjunction, and the same with a blank at each gap. -/
theorem parse_respaced_disjunction :
    LexesTo (Registry.Base.standard.after []).grammar.symbols "a||b"
        [.identifier "a", .operator "||", .identifier "b"] ∧
      LexesTo (Registry.Base.standard.after []).grammar.symbols " a || b "
        [.identifier "a", .operator "||", .identifier "b"] := by
  have hlexes : LexesTo (Registry.Base.standard.after []).grammar.symbols "a||b"
      [.identifier "a", .operator "||", .identifier "b"] := rfl
  have hsources : sources (Registry.Base.standard.after []).grammar.symbols "a||b" =
      [['a'], ['|', '|'], ['b']] := rfl
  have hblank : ∀ i, ∀ c ∈ (fun _ : Nat => [' ']) i, c ∈ [' ', '\t', '\n', '\r'] := by simp
  have hrespaced := (parse_respaced .standard [] hlexes hblank fun _ _ _ => by simp).1
  rw [hsources] at hrespaced
  exact ⟨hlexes, hrespaced⟩

end Expr
end PipeExpr
