import PipeExpr.Text.Classes

/-!
Text between double quotes: as a JSON string, and as a message shows it. The JSON form escapes the
quote, the backslash and the control characters below U+0020, and nothing else.
-/
namespace PipeExpr.Text

def hexDigits (n : Nat) : List Char := Nat.toDigits 16 n

def jsonLetter? : Char → Option Char
  | '"' => some '"'
  | '\\' => some '\\'
  | '\x08' => some 'b'
  | '\t' => some 't'
  | '\n' => some 'n'
  | '\x0c' => some 'f'
  | '\r' => some 'r'
  | _ => none

def jsonChar (c : Char) : List Char :=
  match jsonLetter? c with
  | some l => ['\\', l]
  | none =>
    if c.toNat < 0x10 then '\\' :: 'u' :: '0' :: '0' :: '0' :: hexDigits c.toNat
    else if c.toNat < 0x20 then '\\' :: 'u' :: '0' :: '0' :: hexDigits c.toNat
    else [c]

def jsonEscaped : List Char → List Char
  | [] => []
  | c :: rest => jsonChar c ++ jsonEscaped rest

def jsonQuoted (s : List Char) : List Char := '"' :: jsonEscaped s ++ ['"']

/-- A character inside a message: what would not show is named by its code point. -/
def shownChar (c : Char) : List Char :=
  match c with
  | '"' => ['\\', '"']
  | '\\' => ['\\', '\\']
  | '\t' => ['\\', 't']
  | '\n' => ['\\', 'n']
  | '\r' => ['\\', 'r']
  | '\x00' => ['\\', '0']
  | c => if isShown c then [c] else '\\' :: 'u' :: '\x7b' :: hexDigits c.toNat ++ ['\x7d']

def shownQuoted (s : List Char) : List Char := '"' :: s.flatMap shownChar ++ ['"']

@[simp] theorem jsonEscaped_cons (c : Char) (s : List Char) :
    jsonEscaped (c :: s) = jsonChar c ++ jsonEscaped s := rfl

end PipeExpr.Text
