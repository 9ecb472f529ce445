import PipeExpr.Table
import PipeExpr.Text.Quoted
import PipeExpr.Decimal.Notation

/-!
JSON documents and their text. Integers and decimals are kept apart, so a document is written back
with the kind of number it was read with. Objects are tables: keys ascend and occur once.
-/
namespace PipeExpr

inductive Json where
  | null
  | boolean (b : Bool)
  | integer (n : Int)
  | decimal (x : Float)
  | string (s : String)
  | array (items : List Json)
  | object (fields : List (String × Json))

namespace Json

instance : Inhabited Json := ⟨.null⟩

def boolChars (b : Bool) : List Char := if b then "true".toList else "false".toList

def stringChars (s : String) : List Char := Text.jsonQuoted s.toList

mutual
def chars : Json → List Char
  | .null => "null".toList
  | .boolean b => boolChars b
  | .integer n => Decimal.intText n
  | .decimal x => Decimal.jsonText x
  | .string s => stringChars s
  | .array items => '[' :: itemChars items ++ [']']
  | .object fields => '{' :: fieldChars fields ++ ['}']

def itemChars : List Json → List Char
  | [] => []
  | [item] => item.chars
  | item :: rest => item.chars ++ ',' :: itemChars rest

def fieldChars : List (String × Json) → List Char
  | [] => []
  | [(key, item)] => stringChars key ++ ':' :: item.chars
  | (key, item) :: rest => stringChars key ++ ':' :: item.chars ++ ',' :: fieldChars rest
end

def text (j : Json) : String := String.ofList j.chars

def newline (level : Nat) : List Char := '\n' :: List.replicate (2 * level) ' '

mutual
/-- The text with one item a line, indented by two spaces a level. -/
def indentedChars (level : Nat) : Json → List Char
  | .array [] => ['[', ']']
  | .array items => '[' :: indentedItems (level + 1) items ++ newline level ++ [']']
  | .object [] => ['{', '}']
  | .object fields => '{' :: indentedFields (level + 1) fields ++ newline level ++ ['}']
  | .null => "null".toList
  | .boolean b => boolChars b
  | .integer n => Decimal.intText n
  | .decimal x => Decimal.jsonText x
  | .string s => stringChars s

def indentedItems (level : Nat) : List Json → List Char
  | [] => []
  | [item] => newline level ++ indentedChars level item
  | item :: rest => newline level ++ indentedChars level item ++ ',' :: indentedItems level rest

def indentedFields (level : Nat) : List (String × Json) → List Char
  | [] => []
  | [(key, item)] => newline level ++ stringChars key ++ ':' :: ' ' :: indentedChars level item
  | (key, item) :: rest =>
    newline level ++ stringChars key ++ ':' :: ' ' :: indentedChars level item
      ++ ',' :: indentedFields level rest
end

def indentedText (j : Json) : String := String.ofList (indentedChars 0 j)

end Json
end PipeExpr
