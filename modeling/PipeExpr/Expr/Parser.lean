import PipeExpr.Expr.Phrase
import PipeExpr.Grammar
import PipeExpr.Token.Lexer

/-!
From tokens to phrases, and so to expressions. The parser looks one token ahead and counts how deep
it is: every nested expression, operand of a sign, fold of an operator and step of a path is one
level further down, and a limit bounds the level. The recursion runs on the levels that are left.
-/
namespace PipeExpr.Parser

structure State where
  ahead : Token
  /-- Where the token ahead starts. -/
  place : Nat
  later : List Lexeme
  depth : Nat

abbrev Parse := EStateM Error State

variable {α β : Type}

theorem bind_of_ok {p : Parse α} {s s' : State} {a : α} (h : p s = .ok a s') (f : α → Parse β) :
    (p >>= f) s = f a s' := by
  change EStateM.bind p f s = f a s'
  rw [EStateM.bind, h]

theorem bind_of_error {p : Parse α} {s s' : State} {e : Error} (h : p s = .error e s')
    (f : α → Parse β) : (p >>= f) s = .error e s' := by
  change EStateM.bind p f s = .error e s'
  rw [EStateM.bind, h]

/-- Moves on to the next token; a fault of the text shows when it is reached. -/
def advance : Parse Unit := fun s =>
  match s.later with
  | [] => .ok () { s with ahead := .eof }
  | lexeme :: later =>
    match lexeme.content with
    | .ok token => .ok () { s with ahead := token, place := lexeme.start, later := later }
    | .error e => .error e s

def ahead : Parse Token := fun s => .ok s.ahead s

def refuse (fault : SyntaxFault) : Parse α := fun s => .error (.malformed fault (some s.place)) s

def refuseAhead (what : Expectation) : Parse α := do
  refuse (.expected what (← ahead))

def expect (mark : Mark) (what : Expectation) : Parse Unit := do
  if (← ahead) = .mark mark then advance else refuseAhead what

def descend (limit : Nat) : Parse Unit := fun s =>
  if limit < s.depth + 1 then .error (.depthExceeded limit) { s with depth := s.depth + 1 }
  else .ok () { s with depth := s.depth + 1 }

theorem descend_within {limit : Nat} {s : State} (h : s.depth < limit) :
    descend limit s = .ok () { s with depth := s.depth + 1 } := if_neg (Nat.not_lt.mpr h)

theorem descend_beyond {limit : Nat} {s : State} (h : limit ≤ s.depth) :
    descend limit s = .error (.depthExceeded limit) { s with depth := s.depth + 1 } :=
  if_pos (Nat.lt_succ_of_le h)

def State.up (s : State) : State := { s with depth := s.depth - 1 }

def ascend : Parse Unit := fun s => .ok () s.up

/-- Runs a parser and goes one level up, whether it succeeds or not. -/
def thenAscend (p : Parse α) : Parse α := fun s =>
  match p s with
  | .ok a s => .ok a s.up
  | .error e s => .error e s.up

/-- One item or more between commas, up to the closing mark. Every round passes a comma, so a
bound of the tokens left is not reached. -/
def items (close : Mark) (what : Expectation) (item : Parse α) : Nat → Parse (List α)
  | 0 => refuseAhead what
  | rounds + 1 => do
    let a ← item
    let token ← ahead
    if token = .mark .comma then
      advance
      let rest ← items close what item rounds
      return a :: rest
    else if token = .mark close then
      advance
      return [a]
    else refuseAhead what

def tokensLeft : Parse Nat := fun s => .ok (s.later.length + 1) s

def listOf (close : Mark) (what : Expectation) (item : Parse α) : Parse (List α) := do
  if (← ahead) = .mark close then
    advance
    return []
  else items close what item (← tokensLeft)

def propertyName : Parse MemberName := do
  match MemberName.ofToken? (← ahead) with
  | some name => return name
  | none => refuseAhead .propertyName

def transformName : Parse String := do
  match ← ahead with
  | .identifier name => return name
  | _ => refuseAhead .transformName

def objectKey : Parse FieldKey := do
  match FieldKey.ofToken? (← ahead) with
  | some key => return key
  | none => refuseAhead .objectKey

def entry (value : Parse Phrase) : Parse (FieldKey × Phrase) := do
  let key ← objectKey
  advance
  expect .colon .colonAfterKey
  let p ← value
  return (key, p)

/-- The operator that a token is in the place of one, with its precedence. A word of the grammar is
one there. -/
def operator? (g : Grammar) (token : Token) : Option (OperatorName × Nat) := do
  let operator ← OperatorName.ofToken? token
  let precedence ← g.precedence? operator.text
  return (operator, precedence)

def operatorAhead (g : Grammar) (least : Nat) : Parse (Option (OperatorName × Nat)) := do
  match operator? g (← ahead) with
  | some (operator, precedence) =>
    return if least ≤ precedence then some (operator, precedence) else none
  | none => return none

def step? : Token → Option Mark
  | .mark .dot => some .dot
  | .mark .leftBracket => some .leftBracket
  | .mark .pipe => some .pipe
  | _ => none

def tooDeep (limit : Nat) : Parse α := throw (.depthExceeded limit)

mutual
def expression (g : Grammar) (limit : Nat) : Nat → Parse Phrase
  | 0 => do
    descend limit
    tooDeep limit
  | levels + 1 => do
    descend limit
    thenAscend (conditional g limit levels)
termination_by levels => 8 * levels

def conditional (g : Grammar) (limit levels : Nat) : Parse Phrase := do
  let test ← binary g limit 0 levels
  if (← ahead) = .mark .question then
    advance
    let consequent ← expression g limit levels
    expect .colon .colonInConditional
    let alternate ← expression g limit levels
    return .conditional test consequent alternate
  else return test
termination_by 8 * levels + 7

def binary (g : Grammar) (limit least levels : Nat) : Parse Phrase := do
  let left ← unary g limit levels
  folds g limit least left levels
termination_by 8 * levels + 6

/-- What follows a left operand: each operation becomes the left operand of the next, one level
further down until the last one is read. -/
def folds (g : Grammar) (limit least : Nat) (left : Phrase) (levels : Nat) : Parse Phrase := do
  match ← operatorAhead g least with
  | none => return left
  | some (operator, precedence) =>
    advance
    descend limit
    match levels with
    | 0 => tooDeep limit
    | levels + 1 =>
      let right ← binary g limit (precedence + 1) levels
      let result ← folds g limit least (.binary operator left right) levels
      ascend
      return result
termination_by 8 * levels + 5

def unary (g : Grammar) (limit levels : Nat) : Parse Phrase := do
  match Sign.ofToken? (← ahead) with
  | none => path g limit levels
  | some sign =>
    advance
    descend limit
    match levels with
    | 0 => tooDeep limit
    | levels + 1 =>
      let operand ← thenAscend (unary g limit levels)
      return .signed sign operand
termination_by 8 * levels + 4

def path (g : Grammar) (limit levels : Nat) : Parse Phrase := do
  let start ← atom g limit levels
  steps g limit start levels
termination_by 8 * levels + 3

/-- The steps behind a node, each one level further down until the last one is read. -/
def steps (g : Grammar) (limit : Nat) (node : Phrase) (levels : Nat) : Parse Phrase := do
  match step? (← ahead) with
  | none => return node
  | some mark =>
    descend limit
    match levels with
    | 0 => tooDeep limit
    | levels + 1 =>
      advance
      let next ← step g limit node mark levels
      let result ← steps g limit next levels
      ascend
      return result
termination_by 8 * levels + 2

def step (g : Grammar) (limit : Nat) (node : Phrase) (mark : Mark) (levels : Nat) :
    Parse Phrase := do
  match mark with
  | .dot =>
    let name ← propertyName
    advance
    return .dot node name
  | .leftBracket =>
    let key ← expression g limit levels
    expect .rightBracket .bracketAfterProperty
    return .index node key
  | _ =>
    let name ← transformName
    advance
    if (← ahead) = .mark .leftParen then
      advance
      let arguments ← listOf .rightParen .argumentSeparator (expression g limit levels)
      return .call node name arguments
    else return .pipe node name
termination_by 8 * levels + 1

def atom (g : Grammar) (limit levels : Nat) : Parse Phrase := do
  match ← ahead with
  | .mark .leftParen =>
    advance
    let inner ← expression g limit levels
    expect .rightParen .closingParenthesis
    return .group inner
  | .mark .leftBracket =>
    advance
    let items ← listOf .rightBracket .itemSeparator (expression g limit levels)
    return .array items
  | .mark .leftBrace =>
    advance
    let fields ← listOf .rightBrace .fieldSeparator (entry (expression g limit levels))
    return .object fields
  | token =>
    match Leaf.ofToken? token with
    | some l =>
      advance
      return .leaf l
    | none => refuse (.unexpectedToken token)
termination_by 8 * levels + 1
end

def whole (g : Grammar) (limit : Nat) : Parse Phrase := do
  if (← ahead) = .eof then refuse .emptyExpression
  else
    let p ← expression g limit limit
    match ← ahead with
    | .eof => return p
    | token => refuse (.unexpectedToken token)

def State.ofLexemes : List Lexeme → Except Error State
  | [] => .ok ⟨.eof, 0, [], 0⟩
  | lexeme :: later => lexeme.content.map fun token => ⟨token, lexeme.start, later, 0⟩

end Parser

def Phrase.parse (g : Grammar) (limit : Nat) (text : String) : Except Error Phrase :=
  match Parser.State.ofLexemes (lexemes g.symbols text) with
  | .error e => .error e
  | .ok s =>
    match Parser.whole g limit s with
    | .ok p _ => .ok p
    | .error e _ => .error e

def Expr.parse (g : Grammar) (limit : Nat) (text : String) : Except Error Expr :=
  (Phrase.parse g limit text).map Phrase.expr

end PipeExpr
