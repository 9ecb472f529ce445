import PipeExpr.Expr.Parser
import PipeExpr.Proofs.Lexer.Scans

/-!
What a parser's state holds: the tokens that are left, up to the end of the text or to the first
fault in it. `Meets` says what a parser does with them, whether it succeeds or not, and is proved along the
steps of the parser with `meets_bind`.
-/
namespace PipeExpr.Parser
variable {α β : Type}

/-- The state has the tokens `ts` before it, and `tail` is behind them. -/
structure State.Holds (tail : List (Except Error Token)) (s : State) (ts : List Token) : Prop where
  plain : Token.eof ∉ ts
  ends : Ends tail
  contents : Except.ok s.ahead :: s.later.map Lexeme.content = ts.map Except.ok ++ tail

section Holds
variable {tail : List (Except Error Token)} {s : State} {t : Token} {ts : List Token}

theorem State.Holds.ahead_cons (h : s.Holds tail (t :: ts)) : s.ahead = t := by
  have hc := h.contents
  simp only [List.cons_append, List.map_cons, List.cons.injEq] at hc
  exact Except.ok.inj hc.1

theorem State.Holds.nil (h : s.Holds tail []) : s.ahead = .eof ∧ tail = atEnd := by
  have hc := h.contents
  cases h.ends with
  | inl heq =>
    subst heq
    simp only [List.map_nil, List.nil_append, List.cons.injEq] at hc
    exact ⟨Except.ok.inj hc.1, rfl⟩
  | inr hfaulty =>
    obtain ⟨e, rest, rfl, -⟩ := hfaulty
    simp at hc

theorem State.Holds.exists_cons (h : s.Holds tail ts) (ha : s.ahead = t) (ht : t ≠ .eof) :
    ∃ us, ts = t :: us := by
  cases ts with
  | nil => exact absurd (ha.symm.trans h.nil.1) ht
  | cons u us => exact ⟨us, by rw [← ha, h.ahead_cons]⟩

theorem State.Holds.eq_nil (h : s.Holds tail ts) (ha : s.ahead = .eof) : ts = [] ∧ tail = atEnd := by
  cases ts with
  | nil => exact ⟨rfl, h.nil.2⟩
  | cons u us =>
    have hu : u = .eof := h.ahead_cons.symm.trans ha
    exact absurd (hu ▸ List.mem_cons_self) h.plain

theorem advance_of_holds (h : s.Holds tail (t :: ts)) :
    (∃ s', advance s = .ok () s' ∧ s'.Holds tail ts ∧ s'.depth = s.depth) ∨
      (∃ e s', advance s = .error e s' ∧ e.isMalformed = true) ∧ tail ≠ atEnd := by
  obtain ⟨ahead, place, later, depth⟩ := s
  have hc := h.contents
  have hp : Token.eof ∉ ts := fun hm => h.plain (List.mem_cons_of_mem t hm)
  simp only [List.cons_append, List.map_cons, List.cons.injEq] at hc
  obtain ⟨-, hc⟩ := hc
  cases later with
  | nil =>
    rcases h.ends with rfl | ⟨e, rest, rfl, -⟩ <;> simp at hc
  | cons lexeme later =>
    cases ts with
    | nil =>
      simp only [List.map_cons, List.map_nil, List.nil_append] at hc
      cases h.ends with
      | inl htail =>
        obtain ⟨hlexeme, hlater⟩ := List.cons.inj (hc.trans htail)
        left
        refine ⟨⟨.eof, lexeme.start, later, depth⟩, ?_, ⟨hp, h.ends, ?_⟩, rfl⟩
        · simp only [advance, hlexeme]
        · rw [htail, hlater]
          rfl
      | inr hfaulty =>
        obtain ⟨e, rest, htail, he⟩ := hfaulty
        obtain ⟨hlexeme, -⟩ := List.cons.inj (hc.trans htail)
        right
        exact ⟨⟨e, _, by simp only [advance, hlexeme]; rfl, he⟩, by simp [htail]⟩
    | cons u us =>
      simp only [List.map_cons, List.cons_append, List.cons.injEq] at hc
      left
      refine ⟨⟨u, lexeme.start, later, depth⟩, ?_, ⟨hp, h.ends, ?_⟩, rfl⟩
      · simp only [advance, hc.1]
      · rw [hc.2]
        rfl

theorem State.Holds.withDepth (h : s.Holds tail ts) (depth : Nat) :
    State.Holds tail { s with depth := depth } ts :=
  ⟨h.plain, h.ends, h.contents⟩

end Holds

/-- A result of the parser meets `Q`; an error places a fault in the text, or reports the limit
where the levels are not enough. -/
def Meets (limit : Nat) (enough : Prop) (s : State) (p : Parse α) (Q : α → State → Prop) : Prop :=
  match p s with
  | .ok a s' => Q a s'
  | .error e _ => e.isMalformed = true ∨ e = .depthExceeded limit ∧ ¬enough

section Meets
variable {limit : Nat} {enough : Prop} {s : State} {tail : List (Except Error Token)}

theorem meets_bind {p : Parse α} {f : α → Parse β} {Q : α → State → Prop} {R : β → State → Prop}
    (hp : Meets limit enough s p Q) (hf : ∀ a s', Q a s' → Meets limit enough s' (f a) R) :
    Meets limit enough s (p >>= f) R := by
  simp only [Meets, bind, EStateM.bind] at hp ⊢
  cases h : p s with
  | ok a s' =>
    rw [h] at hp
    exact hf a s' hp
  | error e s' =>
    rw [h] at hp
    exact hp

theorem meets_mono {enough' : Prop} {p : Parse α} {Q R : α → State → Prop}
    (hp : Meets limit enough' s p Q) (he : enough → enough') (hq : ∀ a s', Q a s' → R a s') :
    Meets limit enough s p R := by
  unfold Meets at hp ⊢
  cases h : p s with
  | ok a s' => rw [h] at hp; exact hq a s' hp
  | error e s' =>
    rw [h] at hp
    exact hp.imp_right fun ⟨hl, hn⟩ => ⟨hl, fun h => hn (he h)⟩

theorem meets_pure {a : α} {Q : α → State → Prop} (h : Q a s) :
    Meets limit enough s (pure a) Q := h

theorem meets_bind_of {enough' : Prop} {p : Parse α} {f : α → Parse β} {Q : α → State → Prop}
    {R : β → State → Prop} (hp : Meets limit enough' s p Q) (he : enough → enough')
    (hf : ∀ a s', Q a s' → Meets limit enough s' (f a) R) : Meets limit enough s (p >>= f) R :=
  meets_bind (meets_mono hp he fun _ _ hq => hq) hf

theorem meets_ahead_bind {f : Token → Parse β} {R : β → State → Prop}
    (h : Meets limit enough s (f s.ahead) R) : Meets limit enough s (ahead >>= f) R := h

theorem meets_refuse {fault : SyntaxFault} {Q : α → State → Prop} :
    Meets limit enough s (refuse fault) Q := Or.inl rfl

theorem meets_refuseAhead {what : Expectation} {Q : α → State → Prop} :
    Meets limit enough s (refuseAhead what) Q := Or.inl rfl

theorem meets_refuseAhead_bind {what : Expectation} {f : α → Parse β} {R : β → State → Prop} :
    Meets limit enough s (refuseAhead what >>= f) R := Or.inl rfl

theorem meets_ascend_bind {f : Unit → Parse β} {R : β → State → Prop}
    (h : Meets limit enough s.up (f ()) R) : Meets limit enough s (ascend >>= f) R := h

theorem meets_advance {t : Token} {ts : List Token} (h : s.Holds tail (t :: ts)) :
    Meets limit enough s advance fun _ s' => s'.Holds tail ts ∧ s'.depth = s.depth := by
  unfold Meets
  cases advance_of_holds h with
  | inl hread =>
    obtain ⟨s', ha, h', hd⟩ := hread
    rw [ha]
    exact ⟨h', hd⟩
  | inr hfault =>
    obtain ⟨⟨e, s', ha, he⟩, -⟩ := hfault
    rw [ha]
    exact .inl he

theorem meets_advance_bind {t : Token} {ts : List Token} {f : Unit → Parse β} {R : β → State → Prop}
    (h : s.Holds tail (t :: ts))
    (hf : ∀ s' : State, s'.Holds tail ts → s'.depth = s.depth → Meets limit enough s' (f ()) R) :
    Meets limit enough s (advance >>= f) R :=
  meets_bind (meets_advance h) fun _ s' hs => hf s' hs.1 hs.2

theorem meets_expect {mark : Mark} {what : Expectation} {ts : List Token}
    (h : s.Holds tail ts) : Meets limit enough s (expect mark what) fun _ s' =>
      ∃ us, ts = .mark mark :: us ∧ s'.Holds tail us ∧ s'.depth = s.depth := by
  unfold expect
  apply meets_ahead_bind
  split
  · next ha =>
    obtain ⟨us, rfl⟩ := h.exists_cons ha (by simp)
    exact meets_mono (meets_advance h) id fun _ s' hs => ⟨us, rfl, hs⟩
  · exact meets_refuseAhead

theorem meets_descend_bind {levels : Nat} {ts : List Token} {f : Unit → Parse β}
    {R : β → State → Prop} (h : s.Holds tail ts) (hl : s.depth + (levels + 1) = limit)
    (hf : ∀ s' : State, s'.Holds tail ts → s'.depth = s.depth + 1 → Meets limit enough s' (f ()) R) :
    Meets limit enough s (descend limit >>= f) R := by
  have hdescend : descend limit s = .ok () _ := descend_within (by omega)
  have hmeets : Meets limit enough s (descend limit) fun _ s' =>
      s'.Holds tail ts ∧ s'.depth = s.depth + 1 := by
    unfold Meets
    rw [hdescend]
    exact ⟨h.withDepth _, rfl⟩
  exact meets_bind hmeets fun _ s' hs => hf s' hs.1 hs.2

theorem meets_descend_zero {f : Unit → Parse β} {R : β → State → Prop} (hl : s.depth + 0 = limit)
    (he : ¬enough) : Meets limit enough s (descend limit >>= f) R := by
  have hdescend : descend limit s = .error _ _ := descend_beyond (by omega)
  have hmeets : Meets limit enough s (descend limit) fun _ _ => False := by
    unfold Meets
    rw [hdescend]
    exact .inr ⟨rfl, he⟩
  exact meets_bind hmeets fun _ _ hfalse => hfalse.elim

theorem meets_thenAscend {p : Parse α} {Q : α → State → Prop} (hp : Meets limit enough s p Q) :
    Meets limit enough s (thenAscend p) fun a s' => ∃ s₁, Q a s₁ ∧ s' = s₁.up := by
  unfold Meets thenAscend at *
  cases h : p s with
  | ok a s₁ =>
    rw [h] at hp
    exact ⟨s₁, hp, rfl⟩
  | error e s₁ =>
    rw [h] at hp
    exact hp

end Meets
end PipeExpr.Parser
