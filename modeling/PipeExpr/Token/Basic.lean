import PipeExpr.Decimal.Notation
import PipeExpr.Text.Quoted

/-!
The tokens of expressions, and how messages name them.
-/
namespace PipeExpr

/-- The words that are values. -/
inductive Keyword where
  | true
  | false
  | null
deriving Repr, DecidableEq

def Keyword.text : Keyword → String
  | .true => "true"
  | .false => "false"
  | .null => "null"

def Keyword.ofText? (s : String) : Option Keyword :=
  if s = "true" then some .true
  else if s = "false" then some .false
  else if s = "null" then some .null
  else none

theorem Keyword.text_of_ofText? {s : String} {k : Keyword} (h : Keyword.ofText? s = some k) :
    s = k.text := by
  unfold Keyword.ofText? at h
  split at h
  · cases h
    assumption
  split at h
  · cases h
    assumption
  split at h
  · cases h
    assumption
  · cases h

inductive Mark where
  | bang
  | pipe
  | dot
  | comma
  | colon
  | question
  | leftParen
  | rightParen
  | leftBracket
  | rightBracket
  | leftBrace
  | rightBrace
deriving Repr, DecidableEq

def Mark.char : Mark → Char
  | .bang => '!'
  | .pipe => '|'
  | .dot => '.'
  | .comma => ','
  | .colon => ':'
  | .question => '?'
  | .leftParen => '('
  | .rightParen => ')'
  | .leftBracket => '['
  | .rightBracket => ']'
  | .leftBrace => '{'
  | .rightBrace => '}'

def Mark.ofChar? : Char → Option Mark
  | '!' => some .bang
  | '|' => some .pipe
  | '.' => some .dot
  | ',' => some .comma
  | ':' => some .colon
  | '?' => some .question
  | '(' => some .leftParen
  | ')' => some .rightParen
  | '[' => some .leftBracket
  | ']' => some .rightBracket
  | '{' => some .leftBrace
  | '}' => some .rightBrace
  | _ => none

theorem Mark.char_of_ofChar? {c : Char} {m : Mark} (h : Mark.ofChar? c = some m) : c = m.char := by
  unfold Mark.ofChar? at h
  split at h <;> cases h <;> rfl

inductive Token where
  | number (x : Float)
  | identifier (name : String)
  | string (content : String)
  | keyword (k : Keyword)
  | operator (symbol : String)
  | mark (m : Mark)
  | eof
deriving DecidableEq

namespace Token

def quoted (s : String) : String := "'" ++ s ++ "'"

def describe : Token → String
  | .number x => "number " ++ String.ofList (Decimal.plainText x)
  | .identifier name => "identifier " ++ quoted name
  | .string content => "string " ++ String.ofList (Text.shownQuoted content.toList)
  | .keyword k => quoted k.text
  | .operator symbol => "operator " ++ quoted symbol
  | .mark m => quoted (String.singleton m.char)
  | .eof => "end of expression"

def ofName (name : String) : Token :=
  match Keyword.ofText? name with
  | some k => .keyword k
  | none => .identifier name

theorem ofName_cases (name : String) :
    ofName name = .identifier name ∨ ∃ k, ofName name = .keyword k := by
  unfold ofName
  split
  · exact .inr ⟨_, rfl⟩
  · exact .inl rfl

end Token
end PipeExpr
