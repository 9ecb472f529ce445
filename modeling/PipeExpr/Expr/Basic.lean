import PipeExpr.Value.Json

/-!
Expressions, and the values of those that are literal throughout.
-/
namespace PipeExpr

inductive Expr where
  | literal (v : Value)
  | identifier (name : String)
  | member (target property : Expr)
  | not (operand : Expr)
  | negate (operand : Expr)
  | binary (operator : String) (left right : Expr)
  | conditional (test consequent alternate : Expr)
  | transform (name : String) (subject : Expr) (arguments : List Expr)
  | array (items : List Expr)
  | object (entries : List (String × Expr))

namespace Expr

instance : Inhabited Expr := ⟨.literal .null⟩

mutual
/-- The value of an expression of literals, arrays and objects only. The last entry of a key
stays. -/
def literal? : Expr → Option Value
  | .literal v => some v
  | .array items => (literals? items).map .array
  | .object entries => (literalEntries? entries).map fun fields => .object (Table.ofList fields)
  | _ => none

def literals? : List Expr → Option (List Value)
  | [] => some []
  | e :: rest => do
    let v ← e.literal?
    let vs ← literals? rest
    return v :: vs

def literalEntries? : List (String × Expr) → Option (List (String × Value))
  | [] => some []
  | (key, e) :: rest => do
    let v ← e.literal?
    let fields ← literalEntries? rest
    return (key, v) :: fields
end

mutual
def same : Expr → Expr → Bool
  | .literal v, .literal w => v.same w
  | .identifier a, .identifier b => a == b
  | .member t p, .member u q => t.same u && p.same q
  | .not e, .not f => e.same f
  | .negate e, .negate f => e.same f
  | .binary o l r, .binary p m s => o == p && l.same m && r.same s
  | .conditional t c a, .conditional u d b => t.same u && c.same d && a.same b
  | .transform n s args, .transform m t brgs => n == m && s.same t && sameItems args brgs
  | .array xs, .array ys => sameItems xs ys
  | .object xs, .object ys => sameEntries xs ys
  | _, _ => false

def sameItems : List Expr → List Expr → Bool
  | [], [] => true
  | e :: es, f :: fs => e.same f && sameItems es fs
  | _, _ => false

def sameEntries : List (String × Expr) → List (String × Expr) → Bool
  | [], [] => true
  | (k, e) :: es, (l, f) :: fs => k == l && e.same f && sameEntries es fs
  | _, _ => false
end

mutual
def height : Expr → Nat
  | .literal _ => 1
  | .identifier _ => 1
  | .member target property => max target.height property.height + 1
  | .not operand => operand.height + 1
  | .negate operand => operand.height + 1
  | .binary _ left right => max left.height right.height + 1
  | .conditional test consequent alternate =>
    max test.height (max consequent.height alternate.height) + 1
  | .transform _ subject arguments => max subject.height (heights arguments) + 1
  | .array items => heights items + 1
  | .object entries => entryHeights entries + 1

def heights : List Expr → Nat
  | [] => 0
  | e :: rest => max e.height (heights rest)

def entryHeights : List (String × Expr) → Nat
  | [] => 0
  | (_, e) :: rest => max e.height (entryHeights rest)
end

end Expr
end PipeExpr
