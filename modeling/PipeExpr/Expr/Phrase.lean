import PipeExpr.Expr.Basic
import PipeExpr.Token.Basic

/-!
Expressions as they are written: parentheses stay, and so does the way in which a name, a key or an
operator is spelled. `Phrase.expr` is the expression that a phrase stands for.
-/
namespace PipeExpr

inductive Leaf where
  | number (x : Float)
  | string (content : String)
  | keyword (k : Keyword)
  | identifier (name : String)

/-- The name of a member behind a dot. Keywords are names there. -/
inductive MemberName where
  | word (name : String)
  | keyword (k : Keyword)

inductive FieldKey where
  | word (name : String)
  | quoted (content : String)

/-- A binary operator: a symbol, or a word where an operator stands. -/
inductive OperatorName where
  | symbol (token : String)
  | word (token : String)

inductive Sign where
  | not
  | minus

inductive Phrase where
  | leaf (l : Leaf)
  | group (inner : Phrase)
  | array (items : List Phrase)
  | object (fields : List (FieldKey × Phrase))
  | dot (target : Phrase) (name : MemberName)
  | index (target key : Phrase)
  | pipe (subject : Phrase) (name : String)
  | call (subject : Phrase) (name : String) (arguments : List Phrase)
  | signed (sign : Sign) (operand : Phrase)
  | binary (operator : OperatorName) (left right : Phrase)
  | conditional (test consequent alternate : Phrase)

def Keyword.value : Keyword → Value
  | .true => .boolean Bool.true
  | .false => .boolean Bool.false
  | .null => .null

namespace Leaf

def ofToken? : Token → Option Leaf
  | .number x => some (.number x)
  | .string content => some (.string content)
  | .keyword k => some (.keyword k)
  | .identifier name => some (.identifier name)
  | _ => none

def expr : Leaf → Expr
  | .number x => .literal (.number x)
  | .string content => .literal (.string content)
  | .keyword k => .literal k.value
  | .identifier name => .identifier name

end Leaf

namespace MemberName

def ofToken? : Token → Option MemberName
  | .identifier name => some (.word name)
  | .keyword k => some (.keyword k)
  | _ => none

def text : MemberName → String
  | .word name => name
  | .keyword k => k.text

end MemberName

namespace FieldKey

def ofToken? : Token → Option FieldKey
  | .identifier name => some (.word name)
  | .string content => some (.quoted content)
  | _ => none

def text : FieldKey → String
  | .word name => name
  | .quoted content => content

end FieldKey

namespace OperatorName

def ofToken? : Token → Option OperatorName
  | .operator token => some (.symbol token)
  | .identifier token => some (.word token)
  | _ => none

def text : OperatorName → String
  | .symbol token => token
  | .word token => token

end OperatorName

namespace Sign

def ofToken? : Token → Option Sign
  | .mark .bang => some .not
  | .operator "-" => some .minus
  | _ => none

def apply : Sign → Expr → Expr
  | .not => .not
  | .minus => .negate

end Sign

namespace Phrase

instance : Inhabited Phrase := ⟨.leaf (.keyword .null)⟩

mutual
/-- What a phrase stands for: parentheses leave no trace. -/
def expr : Phrase → Expr
  | .leaf l => l.expr
  | .group inner => inner.expr
  | .array items => .array (exprs items)
  | .object fields => .object (fieldExprs fields)
  | .dot target name => .member target.expr (.literal (.string name.text))
  | .index target key => .member target.expr key.expr
  | .pipe subject name => .transform name subject.expr []
  | .call subject name arguments => .transform name subject.expr (exprs arguments)
  | .signed sign operand => sign.apply operand.expr
  | .binary operator left right => .binary operator.text left.expr right.expr
  | .conditional test consequent alternate =>
    .conditional test.expr consequent.expr alternate.expr

def exprs : List Phrase → List Expr
  | [] => []
  | p :: rest => p.expr :: exprs rest

def fieldExprs : List (FieldKey × Phrase) → List (String × Expr)
  | [] => []
  | (key, p) :: rest => (key.text, p.expr) :: fieldExprs rest
end

theorem exprs_eq_map (items : List Phrase) : exprs items = items.map expr := by
  induction items with
  | nil => rfl
  | cons p rest ih => rw [exprs, ih, List.map_cons]

theorem fieldExprs_eq_map (fields : List (FieldKey × Phrase)) :
    fieldExprs fields = fields.map fun f => (f.1.text, f.2.expr) := by
  induction fields with
  | nil => rfl
  | cons f rest ih => rw [fieldExprs, ih, List.map_cons]

end Phrase
end PipeExpr
