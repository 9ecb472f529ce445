import PipeExpr.Expr.Evaluation
import PipeExpr.Proofs.Traced.Stepwise

/-!
What a limit of depth does to a computation: it can end it early, and it changes nothing else. With
levels enough for its height, a literal comes to its value without a call.
-/
namespace PipeExpr

namespace Traced
variable {ε α β : Type} {limit : Nat} {enough : Prop}

/-- The computation is the ideal one, or it meets the limit because the levels are not enough. -/
def Reaches (limit : Nat) (enough : Prop) (ideal t : Traced ε α) : Prop :=
  t = ideal ∨ t.outcome = .error (.depthExceeded limit) ∧ ¬enough

theorem Reaches.refl (t : Traced ε α) : Reaches limit enough t t := .inl rfl

theorem reaches_fail {ideal : Traced ε α} (h : ¬enough) :
    Reaches limit enough ideal (fail (.depthExceeded limit)) := .inr ⟨rfl, h⟩

theorem Reaches.mono {enough' : Prop} {ideal t : Traced ε α} (h : Reaches limit enough' ideal t)
    (he : enough → enough') : Reaches limit enough ideal t :=
  h.imp_right fun hlimit => ⟨hlimit.1, fun hn => hlimit.2 (he hn)⟩

theorem Reaches.eq_of_enough {ideal t : Traced ε α} (h : Reaches limit enough ideal t)
    (he : enough) : t = ideal := by
  cases h with
  | inl heq => exact heq
  | inr hlimit => exact absurd he hlimit.2

theorem Reaches.eq_of_outcome {ideal t : Traced ε α} (h : Reaches limit enough ideal t)
    (ht : t.outcome ≠ .error (.depthExceeded limit)) : t = ideal := by
  cases h with
  | inl heq => exact heq
  | inr hlimit => exact absurd hlimit.1 ht

theorem Reaches.eq_of_ok {ideal t : Traced ε α} {a : α} (h : Reaches limit enough ideal t)
    (ht : t.outcome = .ok a) : ideal.outcome = .ok a := by
  have hne : t.outcome ≠ .error (.depthExceeded limit) := by
    rw [ht]
    exact nofun
  rw [← h.eq_of_outcome hne, ht]

theorem Reaches.bind {ideal t : Traced ε α} {f g : α → Traced ε β}
    (h : Reaches limit enough ideal t) (hf : ∀ a, Reaches limit enough (f a) (g a)) :
    Reaches limit enough (ideal >>= f) (t >>= g) := by
  cases h with
  | inl heq =>
    subst heq
    cases ht : t.outcome with
    | error e =>
      rw [bind_of_error ht, bind_of_error ht]
      exact .refl _
    | ok a =>
      rw [bind_of_ok ht, bind_of_ok ht]
      cases hf a with
      | inl heq =>
        rw [heq]
        exact .refl _
      | inr hlimit => exact .inr hlimit
  | inr hlimit =>
    rw [bind_of_error hlimit.1]
    exact .inr ⟨rfl, hlimit.2⟩

theorem stepwise_reaches :
    Stepwise fun α (ideal t : Traced ε α) => Reaches limit enough ideal t where
  refl := .refl
  bind := .bind

end Traced

namespace Expr
open Traced

theorem height_pos (e : Expr) : 0 < e.height := by
  cases e <;> simp only [height] <;> omega

theorem heights_le {items : List Expr} {n : Nat} :
    heights items ≤ n ↔ ∀ e ∈ items, e.height ≤ n := by
  induction items with
  | nil => simp [heights]
  | cons e rest ih => simp only [heights, Nat.max_le, ih, List.forall_mem_cons]

theorem entryHeights_le {entries : List (String × Expr)} {n : Nat} :
    entryHeights entries ≤ n ↔ ∀ entry ∈ entries, entry.2.height ≤ n := by
  induction entries with
  | nil => simp [entryHeights]
  | cons entry rest ih => simp only [entryHeights, Nat.max_le, ih, List.forall_mem_cons]

section Literal
variable {limit : Nat} {enough : Prop}

theorem reaches_literals {f : Expr → Traced Call Value} {items : List Expr} {vs : List Value}
    (h : literals? items = some vs)
    (hf : ∀ e ∈ items, ∀ v, e.literal? = some v → Reaches limit enough (done v) (f e)) :
    Reaches limit enough (done vs) (all f items) := by
  induction items generalizing vs with
  | nil =>
    obtain rfl := Option.some.inj h
    exact .refl _
  | cons e rest ih =>
    obtain ⟨he, hrest⟩ := List.forall_mem_cons.mp hf
    simp only [literals?, bind, Option.bind_eq_some_iff] at h
    obtain ⟨v, hv, ws, hws, heq⟩ := h
    obtain rfl := Option.some.inj heq
    exact (he v hv).bind (f := fun v => done ws >>= fun ws => done (v :: ws)) fun v =>
      (ih hws hrest).bind fun ws => .refl _

theorem reaches_literalEntries {f : Expr → Traced Call Value} {entries : List (String × Expr)}
    {fields : List (String × Value)} (h : literalEntries? entries = some fields)
    (hf : ∀ entry ∈ entries, ∀ v, entry.2.literal? = some v →
      Reaches limit enough (done v) (f entry.2)) :
    Reaches limit enough (done fields)
      (all (fun entry => do
        let v ← f entry.2
        done (entry.1, v)) entries) := by
  induction entries generalizing fields with
  | nil =>
    obtain rfl := Option.some.inj h
    exact .refl _
  | cons entry rest ih =>
    obtain ⟨he, hrest⟩ := List.forall_mem_cons.mp hf
    obtain ⟨key, e⟩ := entry
    simp only [literalEntries?, bind, Option.bind_eq_some_iff] at h
    obtain ⟨v, hv, ws, hws, heq⟩ := h
    obtain rfl := Option.some.inj heq
    have hfield := (he v hv).bind (f := fun v => done (key, v)) fun v => .refl _
    exact hfield.bind (f := fun field => done ws >>= fun ws => done (field :: ws)) fun field =>
      (ih hws hrest).bind fun ws => .refl _

/-- What is literal throughout is its own value, with as many levels as it is high. -/
theorem reaches_literal {registry : Registry} {context : Context} (levels : Nat) {e : Expr}
    {v : Value} (h : e.literal? = some v) :
    Reaches limit (e.height ≤ levels) (done v)
      (evaluateWithin registry context limit levels e) := by
  induction levels generalizing e v with
  | zero => exact reaches_fail (by have := e.height_pos; omega)
  | succ levels ih =>
    cases e with
    | literal w =>
      obtain rfl := Option.some.inj h
      exact .refl _
    | array items =>
      obtain ⟨vs, hvs, rfl⟩ := Option.map_eq_some_iff.mp h
      have hitems := reaches_literals hvs fun e he v hv =>
        (ih hv).mono fun hle => heights_le.mp (Nat.le_of_succ_le_succ hle) e he
      exact hitems.bind fun vs => .refl _
    | object entries =>
      obtain ⟨fields, hfields, rfl⟩ := Option.map_eq_some_iff.mp h
      have hentries := reaches_literalEntries hfields fun entry he v hv =>
        (ih hv).mono fun hle => entryHeights_le.mp (Nat.le_of_succ_le_succ hle) entry he
      exact hentries.bind fun fields => .refl _
    | _ => cases h

end Literal
end Expr
end PipeExpr
