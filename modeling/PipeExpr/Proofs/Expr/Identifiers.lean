import PipeExpr.Proofs.Expr.Preorder
import PipeExpr.Proofs.Expr.Steps
import PipeExpr.Proofs.Registry.Conduct

/-!
What an evaluation reads of its context: the values of the identifiers that a walk announces, and
nothing else.
-/
namespace PipeExpr.Expr
open Traced

theorem mem_walk_iff {limit : Nat} {e : Expr} (h : (e.walk limit).outcome = .ok ()) {visit : Visit} :
    visit ∈ (e.walk limit).events ↔ ∃ node ∈ e.nodes, node.visit? = some visit := by
  have hwithin := places_within_iff.mpr (walk_ok_iff.mp h)
  rw [walk_eq_each, each_look_within hwithin, visits_places, List.mem_filterMap]

theorem identifier_mem_walk {limit : Nat} {e : Expr} (h : (e.walk limit).outcome = .ok ())
    {name : String} (hname : .identifier name ∈ e.nodes) :
    .identifier name ∈ (e.walk limit).events :=
  (mem_walk_iff h).mpr ⟨.identifier name, hname, rfl⟩

section
variable {context context' : Context}

/-- The short cut along a path begins at an identifier of the path. -/
theorem pathValue?_congr {e : Expr}
    (h : ∀ name, .identifier name ∈ e.nodes → context.find? name = context'.find? name) :
    pathValue? context e = pathValue? context' e := by
  fun_induction pathValue? context e with
  | case1 name => exact h name (self_mem_nodes _)
  | case2 target key ih =>
    have htarget := ih fun name hname => h name (nodes_subset_of_part (by simp [parts]) hname)
    rw [pathValue?, htarget]
  | case3 e hname hmember => rw [pathValue?] <;> assumption

theorem evaluateWithin_congr (r : Registry) (limit levels : Nat) {e : Expr}
    (h : ∀ name, .identifier name ∈ e.nodes → context.find? name = context'.find? name) :
    evaluateWithin r context limit levels e = evaluateWithin r context' limit levels e := by
  induction levels generalizing e with
  | zero => rfl
  | succ levels ih =>
    rw [evaluateWithin_succ, evaluateWithin_succ]
    have hlook : LooksUpAlike r r context context' e :=
      ⟨pathValue?_congr h, fun _ _ _ _ => rfl, fun _ _ _ _ => rfl⟩
    exact step_related stepwise_eq hlook fun part hpart =>
      ih fun name hname => h name (nodes_subset_of_part hpart hname)

end

/-- Two contexts that agree on the identifiers of a walk, which has gone to its end, are the same to an
evaluation under any limit: the same result comes of it, after the same calls. -/
theorem evaluate_eq_of_agree {enough : Nat} {e : Expr} (hwalk : (e.walk enough).outcome = .ok ())
    {context context' : Context}
    (hagree : ∀ name, .identifier name ∈ (e.walk enough).events →
      context.find? name = context'.find? name) (r : Registry) (limit : Nat) :
    e.evaluate r context limit = e.evaluate r context' limit :=
  evaluateWithin_congr r limit limit fun name hname =>
    hagree name (identifier_mem_walk hwalk hname)

/-- A path to a string, which a transform from outside refuses, and an identifier that neither context
binds. What else they bind makes no difference. -/
theorem evaluate_unread_variable :
    let e : Expr := .array
      [.transform "double" (.member (.identifier "a") (.literal (.string "b"))) [], .identifier "x"]
    let context : Context := [("a", .object [("b", .string "c")]), ("z", .null)]
    let context' : Context := [("a", .object [("b", .string "c")])]
    (e.walk 4).outcome = .ok () ∧
      (∀ name, .identifier name ∈ (e.walk 4).events → context.find? name = context'.find? name) ∧
      (e.evaluate .doubling context 8).outcome =
        .error (.mismatch (.reason "double expects a number")) ∧
      e.evaluate .doubling context 8 = e.evaluate .doubling context' 8 := by
  intro e context context'
  have hwalk : (e.walk 4).outcome = .ok () := rfl
  have hagree : ∀ name, .identifier name ∈ (e.walk 4).events →
      context.find? name = context'.find? name := by
    intro name hname
    obtain rfl | rfl : name = "a" ∨ name = "x" := by
      simpa [e, Expr.walk, walkWithin_succ, visit?, parts, bind_eq, andThen, each, done] using hname
    · rfl
    · rfl
  exact ⟨hwalk, hagree, rfl, evaluate_eq_of_agree hwalk hagree .doubling 8⟩

end PipeExpr.Expr
