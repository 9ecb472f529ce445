import PipeExpr.Token.Lexer

/-!
The lexer on the bytes of a text. It passes over the text byte by byte and makes characters of the
bytes only where it has a whole number, name or string; there it has faults of its own.
-/
namespace PipeExpr.Bytes

/-- Why bytes are no token: a fault of the text, or bytes that fail to be a number, a name or the
content of a string. -/
inductive Fault where
  | ofText (fault : SyntaxFault)
  | numberBytes
  | number (text : String)
  | nameBytes
  | stringBytes
deriving DecidableEq

def Fault.message : Fault → String
  | .ofText fault => fault.message
  | .numberBytes => "Invalid number"
  | .number text => "Invalid number " ++ Token.quoted text
  | .nameBytes => "Invalid identifier"
  | .stringBytes => "Invalid UTF-8 in string"

def asChar (b : UInt8) : Char := Char.ofUInt8 b

def decode? (bytes : List UInt8) : Option String := String.fromUTF8? bytes.toByteArray

structure Scan where
  slice : List UInt8
  content : Except Fault Token
  rest : List UInt8

def startsWithDigit : List UInt8 → Bool
  | [] => false
  | b :: _ => (asChar b).isDigit

/-- The bytes that continue a number, with its point among those passed or not. Only a point in front
of a digit continues it. -/
def numberTail (pointed : Bool) : List UInt8 → List UInt8
  | [] => []
  | b :: bs =>
    if (asChar b).isDigit then b :: numberTail pointed bs
    else if asChar b == '.' && !pointed && startsWithDigit bs then b :: numberTail true bs
    else []

def numberToken (slice : List UInt8) : Except Fault Token :=
  match decode? slice with
  | none => .error .numberBytes
  | some text =>
    match Decimal.ofText? text.toList with
    | none => .error (.number text)
    | some x => .ok (.number x)

def scanNumber (b : UInt8) (bs : List UInt8) : Scan :=
  let tail := numberTail (asChar b == '.') bs
  ⟨b :: tail, numberToken (b :: tail), bs.drop tail.length⟩

def nameToken (slice : List UInt8) : Except Fault Token :=
  match decode? slice with
  | none => .error .nameBytes
  | some name => .ok (Token.ofName name)

def scanName (s : List UInt8) : Scan :=
  let slice := s.takeWhile fun b => Text.isNamePart (asChar b)
  ⟨slice, nameToken slice, s.drop slice.length⟩

def unescape (b : UInt8) : UInt8 :=
  match asChar b with
  | 'n' => 0x0A
  | 't' => 0x09
  | 'r' => 0x0D
  | _ => b

/-- A string behind its opening quote: the bytes as written, what they stand for, and the rest. -/
inductive Body where
  | closed (slice content rest : List UInt8)
  | unclosed (slice : List UInt8) (fault : SyntaxFault)

def Body.push (written content : List UInt8) : Body → Body
  | .closed slice content' rest => .closed (written ++ slice) (content ++ content') rest
  | .unclosed slice fault => .unclosed (written ++ slice) fault

def scanBody (quote : UInt8) : List UInt8 → Body
  | [] => .unclosed [] .openString
  | b :: bs =>
    if b = quote then .closed [b] [] bs
    else if asChar b = '\\' then
      match bs with
      | [] => .unclosed [b] .openEscape
      | x :: bs => (scanBody quote bs).push [b, x] [unescape x]
    else (scanBody quote bs).push [b] [b]

def stringToken (content : List UInt8) : Except Fault Token :=
  match decode? content with
  | none => .error .stringBytes
  | some text => .ok (.string text)

def scanString (quote : UInt8) (bs : List UInt8) : Scan :=
  match scanBody quote bs with
  | .closed slice content rest => ⟨quote :: slice, stringToken content, rest⟩
  | .unclosed slice fault => ⟨quote :: slice, .error (.ofText fault), []⟩

def symbolAt? (symbols : List String) (s : List UInt8) : Option String :=
  symbols.find? fun symbol => symbol.toUTF8.data.toList.isPrefixOf s

/-- The character that a refusal shows: the first of the text that is ahead, or `?` if it is none. -/
def shown (s : List UInt8) : Char := ((decode? s).bind fun text => text.toList.head?).getD '?'

def scanSymbol (symbols : List String) (b : UInt8) (bs : List UInt8) : Scan :=
  match symbolAt? symbols (b :: bs) with
  | some symbol =>
    let slice := symbol.toUTF8.data.toList
    ⟨slice, .ok (.operator symbol), (b :: bs).drop slice.length⟩
  | none =>
    match Lexer.single? (asChar b) with
    | some token => ⟨[b], .ok token, bs⟩
    | none => ⟨[b], .error (.ofText (.unexpectedCharacter (shown (b :: bs)))), bs⟩

def scan (symbols : List String) : List UInt8 → Scan
  | [] => ⟨[], .ok .eof, []⟩
  | b :: bs =>
    if (asChar b).isDigit || (asChar b == '.' && startsWithDigit bs) then scanNumber b bs
    else if Text.isNameStart (asChar b) then scanName (b :: bs)
    else if asChar b == '"' || asChar b == '\'' then scanString b bs
    else scanSymbol symbols b bs

/-- One reading: where it starts, where the last token ends, and the token, or why there is none and
the place that is given for it. -/
structure Reading where
  start : Nat
  stop : Nat
  content : Except (Fault × Nat) Token

structure Cursor where
  rest : List UInt8
  offset : Nat
  stop : Nat

namespace Cursor

def atStart (text : String) : Cursor := ⟨text.toUTF8.data.toList, 0, 0⟩

def isBlank (b : UInt8) : Bool := Lexer.isBlank (asChar b)

def faultOffset (start finish : Nat) : Fault → Nat
  | .ofText fault => PipeExpr.Cursor.faultOffset start finish fault
  | _ => start

def next (symbols : List String) (c : Cursor) : Reading × Cursor :=
  let start := c.offset + (c.rest.takeWhile isBlank).length
  let found := scan symbols (c.rest.dropWhile isBlank)
  let finish := start + found.slice.length
  match found.content with
  | .ok token => (⟨start, finish, .ok token⟩, ⟨found.rest, finish, finish⟩)
  | .error fault =>
    (⟨start, c.stop, .error (fault, faultOffset start finish fault)⟩,
      ⟨found.rest, finish, c.stop⟩)

def readings (symbols : List String) : Nat → Cursor → List Reading
  | 0, _ => []
  | limit + 1, c =>
    let (reading, c) := c.next symbols
    match reading.content with
    | .ok .eof => [reading]
    | _ => reading :: readings symbols limit c

end Cursor

/-- The reading as one of the text, unless the bytes failed to be one. -/
def Reading.lexeme? (r : Reading) : Option Lexeme :=
  match r.content with
  | .ok token => some ⟨r.start, r.stop, .ok token⟩
  | .error (.ofText fault, offset) => some ⟨r.start, r.stop, .error (.malformed fault (some offset))⟩
  | .error _ => none

def readings (symbols : List String) (text : String) : List Reading :=
  (Cursor.atStart text).readings symbols (text.utf8ByteSize + 1)

end PipeExpr.Bytes
