import PipeExpr.Expr.Parser
import PipeExpr.Traced

/-!
The parser with notes of what it does to the depth: each level down, the levels that are given back, and
for each call the depth before and behind it. Operators and steps are read in loops, which count
their levels and give them back at once behind the last one.
-/
namespace PipeExpr.Parser
variable {α β : Type}

inductive Routine where
  | expression
  | conditional
  | binary
  | unary
  | path
  | list
  | object
  | atom
deriving DecidableEq, Repr

inductive Note where
  /-- One level down, to this depth. -/
  | raised (depth : Nat)
  /-- Some levels up, from this depth. -/
  | lowered (depth amount : Nat)
  /-- At this depth an item is read, of a list that was come to at the depth `list`. -/
  | item (list depth : Nat)
  | returned (routine : Routine) (entry exit : Nat) (ok : Bool)
deriving DecidableEq, Repr

structure Run (α : Type) where
  notes : List Note
  result : EStateM.Result Error State α

def stateOf : EStateM.Result Error State α → State
  | .ok _ s => s
  | .error _ s => s

def isOk : EStateM.Result Error State α → Bool
  | .ok .. => true
  | .error .. => false

def State.upBy (amount : Nat) (s : State) : State := { s with depth := s.depth - amount }

theorem State.upBy_succ (amount : Nat) (s : State) : s.upBy (amount + 1) = s.up.upBy amount := by
  rw [upBy, Nat.add_comm amount 1, ← Nat.sub_sub]
  rfl

def Noted (α : Type) := State → Run α

namespace Noted

def plain (p : Parse α) : Noted α := fun s => ⟨[], p s⟩

def andThen (p : Noted α) (f : α → Noted β) : Noted β := fun s =>
  match (p s).result with
  | .ok a s' => ⟨(p s).notes ++ (f a s').notes, (f a s').result⟩
  | .error e s' => ⟨(p s).notes, .error e s'⟩

instance : Monad Noted where
  pure a := plain (pure a)
  bind := andThen

instance : MonadLift Parse Noted := ⟨plain⟩

theorem bind_ok {p : Noted α} {s s' : State} {a : α} (h : (p s).result = .ok a s')
    (f : α → Noted β) : (p >>= f) s = ⟨(p s).notes ++ (f a s').notes, (f a s').result⟩ := by
  change andThen p f s = _
  rw [andThen, h]

theorem bind_error {p : Noted α} {s s' : State} {e : Error} (h : (p s).result = .error e s')
    (f : α → Noted β) : (p >>= f) s = ⟨(p s).notes, .error e s'⟩ := by
  change andThen p f s = _
  rw [andThen, h]

def depth : Noted Nat := fun s => ⟨[], .ok s.depth s⟩

def raise (limit : Nat) : Noted Unit := fun s => ⟨[.raised (s.depth + 1)], descend limit s⟩

def lower (amount : Nat) : Noted Unit := fun s =>
  ⟨[.lowered s.depth amount], .ok () (s.upBy amount)⟩

def thenLower (p : Noted α) : Noted α := fun s =>
  match (p s).result with
  | .ok a s' => ⟨(p s).notes ++ [.lowered s'.depth 1], .ok a s'.up⟩
  | .error e s' => ⟨(p s).notes ++ [.lowered s'.depth 1], .error e s'.up⟩

def startItem (list : Nat) : Noted Unit := fun s => ⟨[.item list s.depth], .ok () s⟩

def call (routine : Routine) (p : Noted α) : Noted α := fun s =>
  let run := p s
  ⟨run.notes ++ [.returned routine s.depth (stateOf run.result).depth (isOk run.result)], run.result⟩

def items (close : Mark) (what : Expectation) (item : Noted α) (list : Nat) : Nat → Noted (List α)
  | 0 => refuseAhead what
  | rounds + 1 => do
    startItem list
    let a ← item
    let token ← ahead
    if token = .mark .comma then
      advance
      let rest ← items close what item list rounds
      return a :: rest
    else if token = .mark close then
      advance
      return [a]
    else refuseAhead what

def listOf (routine : Routine) (close : Mark) (what : Expectation) (item : Noted α) :
    Noted (List α) :=
  call routine do
    let list ← depth
    if (← ahead) = .mark close then
      advance
      return []
    else items close what item list (← tokensLeft)

def entry (value : Noted Phrase) : Noted (FieldKey × Phrase) := do
  let key ← objectKey
  advance
  expect .colon .colonAfterKey
  let p ← value
  return (key, p)

mutual
def expression (g : Grammar) (limit : Nat) : Nat → Noted Phrase
  | 0 => call .expression do
    raise limit
    tooDeep limit
  | levels + 1 => call .expression do
    raise limit
    thenLower (conditional g limit levels)
termination_by levels => 8 * levels

def conditional (g : Grammar) (limit levels : Nat) : Noted Phrase := call .conditional do
  let test ← binary g limit 0 levels
  if (← ahead) = .mark .question then
    advance
    let consequent ← expression g limit levels
    expect .colon .colonInConditional
    let alternate ← expression g limit levels
    return .conditional test consequent alternate
  else return test
termination_by 8 * levels + 7

def binary (g : Grammar) (limit least levels : Nat) : Noted Phrase := call .binary do
  let left ← unary g limit levels
  folds g limit least left 0 levels
termination_by 8 * levels + 6

/-- The loop over the operators behind a left operand; `count` operations have been read. -/
def folds (g : Grammar) (limit least : Nat) (left : Phrase) (count levels : Nat) :
    Noted Phrase := do
  match ← operatorAhead g least with
  | none =>
    lower count
    return left
  | some (operator, precedence) =>
    advance
    raise limit
    match levels with
    | 0 => tooDeep limit
    | levels + 1 =>
      let right ← binary g limit (precedence + 1) levels
      folds g limit least (.binary operator left right) (count + 1) levels
termination_by 8 * levels + 5

def unary (g : Grammar) (limit levels : Nat) : Noted Phrase := call .unary do
  match Sign.ofToken? (← ahead) with
  | none => path g limit levels
  | some sign =>
    advance
    raise limit
    match levels with
    | 0 => tooDeep limit
    | levels + 1 =>
      let operand ← thenLower (unary g limit levels)
      return .signed sign operand
termination_by 8 * levels + 4

def path (g : Grammar) (limit levels : Nat) : Noted Phrase := call .path do
  let start ← atom g limit levels
  steps g limit start 0 levels
termination_by 8 * levels + 3

def steps (g : Grammar) (limit : Nat) (node : Phrase) (count levels : Nat) : Noted Phrase := do
  match step? (← ahead) with
  | none =>
    lower count
    return node
  | some mark =>
    raise limit
    match levels with
    | 0 => tooDeep limit
    | levels + 1 =>
      advance
      let next ← step g limit node mark levels
      steps g limit next (count + 1) levels
termination_by 8 * levels + 2

def step (g : Grammar) (limit : Nat) (node : Phrase) (mark : Mark) (levels : Nat) :
    Noted Phrase := do
  match mark with
  | .dot =>
    let name ← propertyName
    advance
    return .dot node name
  | .leftBracket =>
    let key ← expression g limit levels
    expect .rightBracket .bracketAfterProperty
    return .index node key
  | _ =>
    let name ← transformName
    advance
    if (← ahead) = .mark .leftParen then
      advance
      let arguments ← listOf .list .rightParen .argumentSeparator (expression g limit levels)
      return .call node name arguments
    else return .pipe node name
termination_by 8 * levels + 1

def atom (g : Grammar) (limit levels : Nat) : Noted Phrase := call .atom do
  match ← ahead with
  | .mark .leftParen =>
    advance
    let inner ← expression g limit levels
    expect .rightParen .closingParenthesis
    return .group inner
  | .mark .leftBracket =>
    advance
    let items ← listOf .list .rightBracket .itemSeparator (expression g limit levels)
    return .array items
  | .mark .leftBrace =>
    advance
    let fields ← listOf .object .rightBrace .fieldSeparator (entry (expression g limit levels))
    return .object fields
  | token =>
    match Leaf.ofToken? token with
    | some l =>
      advance
      return .leaf l
    | none => refuse (.unexpectedToken token)
termination_by 8 * levels + 1
end

def whole (g : Grammar) (limit : Nat) : Noted Phrase := do
  if (← ahead) = .eof then refuse .emptyExpression
  else
    let p ← expression g limit limit
    match ← ahead with
    | .eof => return p
    | token => refuse (.unexpectedToken token)

def parse (g : Grammar) (limit : Nat) (text : String) : Traced Note Phrase :=
  match State.ofLexemes (lexemes g.symbols text) with
  | .error e => .fail e
  | .ok s =>
    let run := whole g limit s
    match run.result with
    | .ok p _ => ⟨run.notes, .ok p⟩
    | .error e _ => ⟨run.notes, .error e⟩

end Noted
end PipeExpr.Parser
