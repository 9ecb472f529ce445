import PipeExpr.Expr.Walk
import PipeExpr.Proofs.Expr.Levels
import PipeExpr.Proofs.Expr.Nodes
import PipeExpr.Proofs.Traced.Stepwise

/-!
The parts of a node from left to right. Heights, nodes and walks are those of the parts and what the
node adds to them, so facts about them need no cases for the kinds of nodes.
-/
namespace PipeExpr.Expr
open Traced

def parts : Expr → List Expr
  | .literal _ | .identifier _ => []
  | .member target property => [target, property]
  | .not operand | .negate operand => [operand]
  | .binary _ left right => [left, right]
  | .conditional test consequent alternate => [test, consequent, alternate]
  | .transform _ subject arguments => subject :: arguments
  | .array items => items
  | .object entries => entries.map Prod.snd

def visit? : Expr → Option Visit
  | .transform name subject arguments => some (.transform name subject arguments)
  | .binary operator _ _ => some (.binary operator)
  | .identifier name => some (.identifier name)
  | _ => none

theorem height_le_succ {e : Expr} {n : Nat} :
    e.height ≤ n + 1 ↔ ∀ part ∈ e.parts, part.height ≤ n := by
  cases e with
  | transform name subject arguments =>
    simp only [height, parts, Nat.succ_le_succ_iff, Nat.max_le, heights_le, List.forall_mem_cons]
  | array items => simp only [height, parts, Nat.succ_le_succ_iff, heights_le]
  | object entries =>
    simp only [height, parts, Nat.succ_le_succ_iff, entryHeights_le, List.forall_mem_map]
  | literal | identifier => simp [height, parts]
  | not | negate => simp only [height, parts, Nat.succ_le_succ_iff, List.forall_mem_singleton]
  | member | binary | conditional =>
    simp only [height, parts, Nat.succ_le_succ_iff, Nat.max_le, List.forall_mem_cons,
      List.not_mem_nil, false_implies, implies_true, and_true]

theorem height_lt_of_part {e part : Expr} (h : part ∈ e.parts) : part.height < e.height := by
  obtain ⟨n, hn⟩ : ∃ n, e.height = n + 1 := Nat.exists_eq_add_one.mpr e.height_pos
  have hle := height_le_succ.mp (Nat.le_of_eq hn) part h
  omega

/-- What passes from the parts of a node to the node holds throughout. -/
theorem induction_parts {P : Expr → Prop} (h : ∀ e, (∀ part ∈ e.parts, P part) → P e) (e : Expr) :
    P e :=
  h e fun part _ => induction_parts h part
termination_by e.height
decreasing_by exact height_lt_of_part ‹_›

theorem nodes_eq_cons (e : Expr) : e.nodes = e :: e.parts.flatMap nodes := by
  cases e with
  | transform name subject arguments =>
    rw [nodes, parts, List.flatMap_cons, itemNodes_eq_flatMap]
  | array items => rw [nodes, parts, itemNodes_eq_flatMap]
  | object entries => rw [nodes, parts, entryNodes_eq_flatMap]
  | _ => simp [nodes, parts]

theorem nodes_subset_of_part {e part : Expr} (h : part ∈ e.parts) : part.nodes ⊆ e.nodes := by
  intro node hnode
  rw [nodes_eq_cons e]
  exact List.mem_cons_of_mem e (List.mem_flatMap_of_mem h hnode)

theorem walkWithin_succ (limit levels : Nat) (e : Expr) :
    walkWithin limit (levels + 1) e =
      (⟨e.visit?.toList, .ok ()⟩ : Traced Visit Unit) >>= fun _ =>
        each (walkWithin limit levels) e.parts := by
  cases e with
  | literal | identifier | transform | array => rfl
  | not | negate =>
    rw [parts, each_singleton]
    rfl
  | member | binary =>
    rw [parts, each, each_singleton]
    rfl
  | conditional =>
    rw [parts, each, each, each_singleton]
    rfl
  | object entries =>
    rw [parts, each_map]
    rfl

end PipeExpr.Expr
