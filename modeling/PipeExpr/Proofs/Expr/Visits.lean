import Mathlib.Data.List.Perm.Subperm
import PipeExpr.Expr.Evaluation
import PipeExpr.Expr.Walk

/-!
A walk foresees the calls of every evaluation. Whatever the context and whichever branches are taken,
each call stands at a node of its own that the walk visits.
-/
namespace PipeExpr

def Call.visit : Call → Visit
  | .transform name subjectAt argumentsAt _ _ => .transform name subjectAt argumentsAt
  | .operator token _ _ => .binary token

namespace Traced
variable {α β : Type}

/-- If the walk comes to its end, then each call stands at a node of its own, a pending one or one
that the walk visits. A node is pending while its parts are evaluated. -/
def Covers (pending : List Visit) (w : Traced Visit Unit) (t : Traced Call α) : Prop :=
  w.outcome = .ok () → (t.events.map Call.visit).Subperm (pending ++ w.events)

section
variable {pending : List Visit} {visit : Visit} {w : Traced Visit Unit} {g : Unit → Traced Visit Unit}
  {t : Traced Call α}

theorem covers_of_silent (h : t.events = []) : Covers pending w t := by
  intro _
  rw [h]
  exact List.nil_subperm

theorem covers_call (call : Call) (answer : Except Error α) :
    Covers [call.visit] w (emit call >>= fun _ => ofExcept answer) :=
  fun _ => (List.sublist_append_left [call.visit] w.events).subperm

theorem Covers.weaken (h : Covers [] w t) : Covers pending w t :=
  fun hw => (h hw).trans (List.sublist_append_right pending w.events).subperm

/-- A node is pending from its visit on. -/
theorem Covers.emit (h : Covers [visit] w t) : Covers [] (emit visit >>= fun _ => w) t := by
  intro hw
  obtain ⟨u, _, hrest⟩ := exists_of_bind_ok hw
  exact h hrest

theorem Covers.first (h : Covers [] w t) : Covers [] (w >>= g) t := by
  intro hw
  obtain ⟨u, hfirst, _⟩ := exists_of_bind_ok hw
  rw [bind_of_ok hfirst]
  exact (h hfirst).trans (List.sublist_append_left w.events _).subperm

theorem Covers.rest (h : Covers [] (g ()) t) : Covers [] (w >>= g) t := by
  intro hw
  obtain ⟨u, hfirst, hrest⟩ := exists_of_bind_ok hw
  rw [bind_of_ok hfirst]
  exact (h hrest).trans (List.sublist_append_right w.events _).subperm

theorem Covers.bind {f : α → Traced Call β} (hm : Covers [] w t)
    (hf : ∀ a, Covers pending (g ()) (f a)) : Covers pending (w >>= g) (t >>= f) := by
  intro hw
  obtain ⟨u, hfirst, hrest⟩ := exists_of_bind_ok hw
  have hcalls := hm hfirst
  have hswap : (w.events ++ (pending ++ (g u).events)).Perm (pending ++ (w.events ++ (g u).events)) :=
    List.perm_append_comm_assoc _ _ _
  rw [bind_of_ok hfirst]
  cases ht : t.outcome with
  | error e =>
    rw [bind_of_error ht]
    exact (hcalls.trans (List.sublist_append_left w.events _).subperm).trans hswap.subperm
  | ok a =>
    rw [bind_of_ok ht, List.map_append]
    exact (hcalls.append (hf a hrest)).trans hswap.subperm

theorem Covers.last {f : α → Traced Call β} (hm : Covers [] w t)
    (hf : ∀ a, Covers pending (done ()) (f a)) : Covers pending w (t >>= f) := by
  have hdone : w >>= done = w := andThen_done w
  rw [← hdone]
  exact hm.bind hf

end

theorem covers_all {g : α → Traced Visit Unit} {f : α → Traced Call β} {items : List α}
    (h : ∀ a ∈ items, Covers [] (g a) (f a)) : Covers [] (each g items) (all f items) := by
  induction items with
  | nil => exact covers_of_silent rfl
  | cons a rest ih =>
    obtain ⟨ha, hrest⟩ := List.forall_mem_cons.mp h
    exact ha.bind fun b => (ih hrest).last fun bs => covers_of_silent rfl

end Traced

namespace Expr
open Traced

/-- The levels of the walk and those of the evaluation need not be the same: a walk that comes to its
end has been everywhere. -/
theorem covers_evaluateWithin (r : Registry) (context : Context) (limit limit' visited levels : Nat)
    (e : Expr) :
    Covers [] (walkWithin limit visited e) (evaluateWithin r context limit' levels e) := by
  induction visited generalizing e levels with
  | zero => exact nofun
  | succ visited ih =>
    cases levels with
    | zero => exact covers_of_silent rfl
    | succ levels =>
      cases e with
      | literal v => exact covers_of_silent rfl
      | identifier name =>
        rw [evaluateWithin]
        cases context.find? name with
        | some v => exact covers_of_silent rfl
        | none => exact covers_of_silent rfl
      | member target property =>
        rw [evaluateWithin]
        cases pathValue? context (.member target property) with
        | some v => exact covers_of_silent rfl
        | none =>
          exact (ih levels target).bind fun v => (ih levels property).last fun key =>
            covers_of_silent rfl
      | not operand => exact (ih levels operand).last fun v => covers_of_silent rfl
      | negate operand => exact (ih levels operand).last fun v => covers_of_silent rfl
      | binary token left right =>
        rw [evaluateWithin]
        cases r.operator? token with
        | none => exact covers_of_silent rfl
        | some operator =>
          refine Covers.emit ((ih levels left).bind fun a => ?_)
          cases operator.operation with
          | function f => exact (ih levels right).last fun b => covers_call _ _
          | conjunction =>
            dsimp only
            split
            · exact (ih levels right).weaken
            · exact covers_of_silent rfl
          | disjunction =>
            dsimp only
            split
            · exact covers_of_silent rfl
            · exact (ih levels right).weaken
      | conditional test consequent alternate =>
        refine (ih levels test).bind fun v => ?_
        split
        · exact (ih levels consequent).first
        · exact (ih levels alternate).rest
      | transform name subject arguments =>
        rw [evaluateWithin]
        cases r.transform? name with
        | none => exact covers_of_silent rfl
        | some registered =>
          have harguments := covers_all fun argument (_ : argument ∈ arguments) => ih levels argument
          exact Covers.emit ((ih levels subject).bind fun v => harguments.last fun vs =>
            covers_call _ _)
      | array items =>
        exact (covers_all fun item _ => ih levels item).last fun vs => covers_of_silent rfl
      | object entries =>
        refine Covers.last (covers_all fun entry _ => ?_) fun fields => covers_of_silent rfl
        exact (ih levels entry.2).last fun v => covers_of_silent rfl

/-- Each call of an evaluation stands at a node of its own that the walk visits. -/
theorem calls_subperm_visits {limit : Nat} {e : Expr} (h : (e.walk limit).outcome = .ok ())
    (r : Registry) (context : Context) (limit' : Nat) :
    ((e.evaluate r context limit').events.map Call.visit).Subperm (e.walk limit).events :=
  covers_evaluateWithin r context limit limit' limit limit' e h

end Expr
end PipeExpr
