import PipeExpr.Error
import PipeExpr.Text.Name

/-!
From text to tokens. One reading takes the blanks and the token behind them; places are counted in
bytes. A refused character is passed over byte by byte, so each further byte of it is refused too.
-/
namespace PipeExpr

def byteLength : List Char → Nat
  | [] => 0
  | c :: s => c.utf8Size + byteLength s

namespace Lexer

def isBlank (c : Char) : Bool := c == ' ' || c == '\t' || c == '\n' || c == '\r'

def startsWithDigit : List Char → Bool
  | [] => false
  | c :: _ => c.isDigit

structure Scan where
  slice : List Char
  content : Except SyntaxFault Token
  rest : List Char

def digitsOf (s : List Char) : List Char := s.takeWhile Char.isDigit

def afterDigits (s : List Char) : List Char := s.dropWhile Char.isDigit

/-- The digits and, if a point and a digit follow, the point and the digits behind it. -/
def scanNumber (s : List Char) : Scan :=
  let whole := digitsOf s
  match afterDigits s with
  | '.' :: rest =>
    if startsWithDigit rest then
      let fraction := digitsOf rest
      ⟨whole ++ '.' :: fraction, .ok (.number (Decimal.ofDigits whole fraction)), afterDigits rest⟩
    else ⟨whole, .ok (.number (Decimal.ofDigits whole [])), '.' :: rest⟩
  | rest => ⟨whole, .ok (.number (Decimal.ofDigits whole [])), rest⟩

def scanName (s : List Char) : Scan :=
  let name := s.takeWhile Text.isNamePart
  ⟨name, .ok (Token.ofName (String.ofList name)), s.dropWhile Text.isNamePart⟩

/-- The character that a backslash and a character stand for: a few letters are control characters,
all others themselves. -/
def unescape : Char → Char
  | 'n' => '\n'
  | 't' => '\t'
  | 'r' => '\r'
  | c => c

/-- A string behind its opening quote: the text as written, what it stands for, and the rest. -/
inductive Body where
  | closed (slice content rest : List Char)
  | unclosed (slice : List Char) (fault : SyntaxFault)

def Body.push (written : List Char) (c : Char) : Body → Body
  | .closed slice content rest => .closed (written ++ slice) (c :: content) rest
  | .unclosed slice fault => .unclosed (written ++ slice) fault

def scanBody (quote : Char) : List Char → Body
  | [] => .unclosed [] .openString
  | c :: s =>
    if c = quote then .closed [c] [] s
    else if c = '\\' then
      match s with
      | [] => .unclosed [c] .openEscape
      | x :: s => (scanBody quote s).push [c, x] (unescape x)
    else (scanBody quote s).push [c] c

def scanString (quote : Char) (s : List Char) : Scan :=
  match scanBody quote s with
  | .closed slice content rest => ⟨quote :: slice, .ok (.string (String.ofList content)), rest⟩
  | .unclosed slice fault => ⟨quote :: slice, .error fault, []⟩

def symbolAt? (symbols : List String) (s : List Char) : Option String :=
  symbols.find? fun symbol => symbol.toList.isPrefixOf s

def single? (c : Char) : Option Token :=
  if c = '-' then some (.operator "-") else (Mark.ofChar? c).map .mark

def scanSymbol (symbols : List String) (c : Char) (s : List Char) : Scan :=
  match symbolAt? symbols (c :: s) with
  | some symbol => ⟨symbol.toList, .ok (.operator symbol), (c :: s).drop symbol.toList.length⟩
  | none =>
    match single? c with
    | some token => ⟨[c], .ok token, s⟩
    | none => ⟨[c], .error (.unexpectedCharacter c), s⟩

def scan (symbols : List String) : List Char → Scan
  | [] => ⟨[], .ok .eof, []⟩
  | c :: s =>
    if c.isDigit || (c == '.' && startsWithDigit s) then scanNumber (c :: s)
    else if Text.isNameStart c then scanName (c :: s)
    else if c == '"' || c == '\'' then scanString c s
    else scanSymbol symbols c s

end Lexer

/-- One reading: where it starts, where the last token ends, and the token or why there is none. -/
structure Lexeme where
  start : Nat
  stop : Nat
  content : Except Error Token

structure Cursor where
  rest : List Char
  offset : Nat
  /-- The bytes of a refused character that are still to be passed over. -/
  stray : Nat
  /-- Where the last token ends. -/
  stop : Nat

namespace Cursor
open Lexer

def atStart (text : String) : Cursor := ⟨text.toList, 0, 0, 0⟩

/-- Inside a refused character only a symbol of no length is found. -/
def passStray (symbols : List String) (c : Cursor) : Lexeme × Cursor :=
  if symbols.contains "" then
    (⟨c.offset, c.offset, .ok (.operator "")⟩, { c with stop := c.offset })
  else
    (⟨c.offset, c.stop, .error (.malformed (.unexpectedCharacter '?') (some c.offset))⟩,
      { c with offset := c.offset + 1, stray := c.stray - 1 })

/-- Where the fault of a token is placed: at its start, but for an escape that the end of the text
cuts off. -/
def faultOffset (start finish : Nat) : SyntaxFault → Nat
  | .openEscape => finish
  | _ => start

def readToken (symbols : List String) (c : Cursor) : Lexeme × Cursor :=
  let start := c.offset + byteLength (c.rest.takeWhile isBlank)
  let found := scan symbols (c.rest.dropWhile isBlank)
  let finish := start + byteLength found.slice
  match found.content with
  | .ok token => (⟨start, finish, .ok token⟩, ⟨found.rest, finish, 0, finish⟩)
  | .error (.unexpectedCharacter x) =>
    (⟨start, c.stop, .error (.malformed (.unexpectedCharacter x) (some start))⟩,
      ⟨found.rest, start + 1, x.utf8Size - 1, c.stop⟩)
  | .error fault =>
    (⟨start, c.stop, .error (.malformed fault (some (faultOffset start finish fault)))⟩,
      ⟨found.rest, finish, 0, c.stop⟩)

def next (symbols : List String) (c : Cursor) : Lexeme × Cursor :=
  if c.stray = 0 then c.readToken symbols else c.passStray symbols

def readings (symbols : List String) : Nat → Cursor → List Lexeme
  | 0, _ => []
  | limit + 1, c =>
    let (lexeme, c) := c.next symbols
    match lexeme.content with
    | .ok .eof => [lexeme]
    | _ => lexeme :: readings symbols limit c

end Cursor

/-- All readings of a text. Each but the last takes a byte, so the limit is never reached when no
symbol is empty. -/
def lexemes (symbols : List String) (text : String) : List Lexeme :=
  (Cursor.atStart text).readings symbols (byteLength text.toList + 1)

end PipeExpr
