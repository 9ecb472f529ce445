import PipeExpr.Expr.Parser

/-!
A cache of parsed expressions. What a text parses to hangs on the operators and on the depth limit
as well, so both belong to the key.
-/
namespace PipeExpr

/-- A parsed expression. The number tells it from every other tree that a session has parsed. -/
structure Tree where
  number : Nat
  expr : Expr

abbrev Cache := Table Tree

namespace Cache

/-- The signature of the operators, the depth limit and the text, with a control character
between them. -/
def key (g : Grammar) (limit : Nat) (text : String) : String :=
  g.signature ++ "\x01" ++ toString limit ++ "\x01" ++ text

end Cache
end PipeExpr
