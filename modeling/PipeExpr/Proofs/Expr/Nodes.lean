import PipeExpr.Expr.Basic

/-!
The nodes of an expression, each one before its parts and these from left to right.
-/
namespace PipeExpr.Expr

mutual
def nodes : Expr → List Expr
  | .literal v => [.literal v]
  | .identifier name => [.identifier name]
  | .member target property => .member target property :: (target.nodes ++ property.nodes)
  | .not operand => .not operand :: operand.nodes
  | .negate operand => .negate operand :: operand.nodes
  | .binary operator left right => .binary operator left right :: (left.nodes ++ right.nodes)
  | .conditional test consequent alternate =>
    .conditional test consequent alternate :: (test.nodes ++ (consequent.nodes ++ alternate.nodes))
  | .transform name subject arguments =>
    .transform name subject arguments :: (subject.nodes ++ itemNodes arguments)
  | .array items => .array items :: itemNodes items
  | .object entries => .object entries :: entryNodes entries

def itemNodes : List Expr → List Expr
  | [] => []
  | e :: rest => e.nodes ++ itemNodes rest

def entryNodes : List (String × Expr) → List Expr
  | [] => []
  | (_, e) :: rest => e.nodes ++ entryNodes rest
end

theorem self_mem_nodes (e : Expr) : e ∈ e.nodes := by
  cases e <;> simp only [nodes, List.mem_cons_self]

theorem itemNodes_eq_flatMap (items : List Expr) : itemNodes items = items.flatMap nodes := by
  induction items with
  | nil => rfl
  | cons e rest ih => rw [itemNodes, ih, List.flatMap_cons]

theorem entryNodes_eq_flatMap (entries : List (String × Expr)) :
    entryNodes entries = (entries.map Prod.snd).flatMap nodes := by
  induction entries with
  | nil => rfl
  | cons entry rest ih => rw [entryNodes, ih, List.map_cons, List.flatMap_cons]

end PipeExpr.Expr
