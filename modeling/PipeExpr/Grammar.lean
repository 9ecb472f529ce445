import PipeExpr.Table

/-!
The binary operators that a parser knows: their precedences, and the symbolic ones among them in
the order in which a lexer tries them.
-/
namespace PipeExpr

structure Grammar where
  precedences : Table Nat
  symbols : List String
deriving DecidableEq

namespace Grammar

def empty : Grammar := ⟨[], []⟩

def isWordStartByte (b : UInt8) : Bool :=
  (0x41 ≤ b && b ≤ 0x5A) || (0x61 ≤ b && b ≤ 0x7A) || b == 0x5F || b == 0x24

def isWordByte (b : UInt8) : Bool := isWordStartByte b || (0x30 ≤ b && b ≤ 0x39)

/-- An operator that is a word is read as an identifier, so it is no symbol. -/
def isWord (token : String) : Bool :=
  match token.toUTF8.data.toList with
  | [] => false
  | b :: bytes => isWordStartByte b && bytes.all isWordByte

/-- Longer symbols come first, those of one length in the order of their text. -/
def symbolBefore (a b : String) : Bool :=
  b.utf8ByteSize < a.utf8ByteSize || (a.utf8ByteSize == b.utf8ByteSize && a < b)

def insertSymbol (symbol : String) : List String → List String
  | [] => [symbol]
  | s :: rest =>
    if symbolBefore symbol s then symbol :: s :: rest else s :: insertSymbol symbol rest

/-- Adds an operator, or gives a known one another precedence. -/
def insert (token : String) (precedence : Nat) (g : Grammar) : Grammar where
  precedences := g.precedences.insert token precedence
  symbols :=
    if isWord token || g.symbols.contains token then g.symbols else insertSymbol token g.symbols

def precedence? (token : String) (g : Grammar) : Option Nat := g.precedences.find? token

/-- The tokens with their precedences, in the order of the tokens. -/
def signature (g : Grammar) : String :=
  " ".intercalate (g.precedences.map fun e => e.1 ++ toString e.2)

end Grammar
end PipeExpr
