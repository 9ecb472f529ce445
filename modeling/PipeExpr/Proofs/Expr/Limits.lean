import PipeExpr.Proofs.Expr.Parts
import PipeExpr.Proofs.Expr.Steps

/-!
Evaluations and walks under two limits. The one with fewer levels goes the way of the other, event by
event, or runs into its limit; with levels enough for the height of the expression it does not. A walk
comes to its end exactly if the expression is no higher than the limit.
-/
namespace PipeExpr

namespace Expr
open Traced

/-- Fewer levels end an evaluation early or change nothing in it, neither the result nor the calls. -/
theorem reaches_evaluateWithin (r : Registry) (context : Context) (limit limit' : Nat)
    {levels levels' : Nat} (hle : levels ≤ levels') (e : Expr) :
    Reaches limit (e.height ≤ levels) (evaluateWithin r context limit' levels' e)
      (evaluateWithin r context limit levels e) := by
  induction levels generalizing levels' e with
  | zero => exact reaches_fail (Nat.not_le_of_lt e.height_pos)
  | succ levels ih =>
    obtain ⟨levels', rfl⟩ : ∃ k, levels' = k + 1 := ⟨levels' - 1, by omega⟩
    rw [evaluateWithin_succ, evaluateWithin_succ]
    refine step_related stepwise_reaches (.refl r context e) fun part hpart => ?_
    exact (ih (Nat.le_of_succ_le_succ hle) part).mono fun h => height_le_succ.mp h part hpart

theorem reaches_walkWithin (limit limit' : Nat) {levels levels' : Nat} (hle : levels ≤ levels')
    (e : Expr) :
    Reaches limit (e.height ≤ levels) (walkWithin limit' levels' e) (walkWithin limit levels e) := by
  induction levels generalizing levels' e with
  | zero => exact reaches_fail (Nat.not_le_of_lt e.height_pos)
  | succ levels ih =>
    obtain ⟨levels', rfl⟩ : ∃ k, levels' = k + 1 := ⟨levels' - 1, by omega⟩
    rw [walkWithin_succ, walkWithin_succ]
    refine Reaches.bind (.refl _) fun _ => stepwise_reaches.each fun part hpart => ?_
    exact (ih (Nat.le_of_succ_le_succ hle) part).mono fun h => height_le_succ.mp h part hpart

theorem walkWithin_ok_iff (limit levels : Nat) (e : Expr) :
    (walkWithin limit levels e).outcome = .ok () ↔ e.height ≤ levels := by
  induction levels generalizing e with
  | zero => exact iff_of_false nofun (Nat.not_le_of_lt e.height_pos)
  | succ levels ih =>
    rw [walkWithin_succ, ok_then, ok_each, height_le_succ]
    simp only [true_and, ih]

theorem walk_ok_iff {limit : Nat} {e : Expr} :
    (e.walk limit).outcome = .ok () ↔ e.height ≤ limit := walkWithin_ok_iff limit limit e

end Expr
end PipeExpr
