import PipeExpr.Token.Basic
import PipeExpr.Value.Basic

/-!
Everything that can go wrong, by cause, and the message of each cause. A function that is registered
from outside may answer with any kind of error and a text of its own, so each kind that is told by its
cause has a `reason` too.
-/
namespace PipeExpr

inductive Expectation where
  | colonInConditional
  | bracketAfterProperty
  | closingParenthesis
  | colonAfterKey
  | propertyName
  | transformName
  | argumentSeparator
  | itemSeparator
  | objectKey
  | fieldSeparator
deriving Repr, DecidableEq

namespace Expectation

def text : Expectation → String
  | .colonInConditional => "':' in conditional expression"
  | .bracketAfterProperty => "']' after property expression"
  | .closingParenthesis => "')'"
  | .colonAfterKey => "':' after object key"
  | .propertyName => "property name after '.'"
  | .transformName => "transform name after '|'"
  | .argumentSeparator => "')' or ',' in transform arguments"
  | .itemSeparator => "',' or ']' in array literal"
  | .objectKey => "object key"
  | .fieldSeparator => "',' or '\x7d' in object literal"

/-- A single mark was expected, and the message says what stands there instead. -/
def namesFound : Expectation → Bool
  | .colonInConditional | .bracketAfterProperty | .closingParenthesis | .colonAfterKey => true
  | _ => false

end Expectation

inductive SyntaxFault where
  | unexpectedCharacter (c : Char)
  | openString
  | openEscape
  | emptyExpression
  | unexpectedToken (found : Token)
  | expected (what : Expectation) (found : Token)
  | reason (text : String)
deriving DecidableEq

def SyntaxFault.message : SyntaxFault → String
  | .unexpectedCharacter c => "Unexpected character " ++ Token.quoted (String.singleton c)
  | .openString => "Unterminated string literal"
  | .openEscape => "Unterminated escape in string"
  | .emptyExpression => "Empty expression"
  | .unexpectedToken found => "Unexpected " ++ found.describe
  | .expected what found =>
    "Expected " ++ what.text ++ if what.namesFound then ", found " ++ found.describe else ""
  | .reason text => text

/-- Why values do not fit what is done with them. -/
inductive Mismatch where
  | negation (kind : Kind)
  | property (shown : String) (kind : Kind)
  | operands (operator : String) (left right : Kind)
  | comparison (operator : String) (left right : Kind)
  | search (needle haystack : Kind)
  | intersection (kind : Kind)
  | transform (name expects got : String)
  | uncountable (kind : Kind)
  | reason (text : String)
deriving Repr, DecidableEq

def Mismatch.message : Mismatch → String
  | .negation kind => "Cannot negate " ++ kind.name
  | .property shown kind => "Cannot read property " ++ shown ++ " of " ++ kind.name
  | .operands operator left right =>
    "Operator " ++ Token.quoted operator ++ " expects numbers, got " ++ left.name ++ " and "
      ++ right.name
  | .comparison operator left right =>
    "Cannot compare " ++ left.name ++ " " ++ operator ++ " " ++ right.name
  | .search needle haystack =>
    "Operator 'in' cannot look for " ++ needle.name ++ " in " ++ haystack.name
  | .intersection kind => "Operator 'intersects' expects arrays, got " ++ kind.name
  | .transform name expects got =>
    "Transform " ++ Token.quoted name ++ " expects " ++ expects ++ ", got " ++ got
  | .uncountable kind => "Transform 'count' cannot count a " ++ kind.name
  | .reason text => text

/-- Why an evaluation cannot go on although the values fit. -/
inductive Failure where
  | divisionByZero
  | moduloByZero
  | noMapKey
  | invalidJson
  | contextNotObject (document : String)
  | answersNotObject
  | invalidVariable (argument : String)
  | reason (text : String)
deriving Repr, DecidableEq

def Failure.message : Failure → String
  | .divisionByZero => "Division by zero"
  | .moduloByZero => "Modulo by zero"
  | .noMapKey => "Transform 'mapby' needs at least one key"
  | .invalidJson => "Invalid JSON"
  | .contextNotObject document => "Context must be a JSON object, got " ++ document
  | .answersNotObject => "--answers must be a JSON object"
  | .invalidVariable argument =>
    "Invalid variable " ++ Token.quoted argument ++ ". Use name=value"
  | .reason text => text

inductive SettingFault where
  | emptyTransformName
  | badTransformName (name : String)
  | emptyOperator
  | badOperator (token : String)
  | zeroPrecedence (token : String)
  | depthNotNumber (raw : String)
  | depthZero
  | unreadableFile (path : String)
  | invalidFile (path : String)
  | reason (text : String)
deriving Repr, DecidableEq

def SettingFault.message : SettingFault → String
  | .emptyTransformName => "Transform name cannot be empty"
  | .badTransformName name => "Transform name " ++ Token.quoted name ++ " is not a valid identifier"
  | .emptyOperator => "Operator token cannot be empty"
  | .badOperator token => Token.quoted token ++ " cannot be used as a binary operator"
  | .zeroPrecedence token =>
    "Operator " ++ Token.quoted token ++ " needs a precedence above 0"
  | .depthNotNumber raw => "JEXL_MAX_DEPTH must be a positive integer, got " ++ Token.quoted raw
  | .depthZero => "max_depth must be at least 1"
  | .unreadableFile path => "Cannot read " ++ path
  | .invalidFile path => "Invalid config in " ++ path
  | .reason text => text

inductive Error where
  /-- `offset` counts the bytes before the place where the fault shows, if that is known. -/
  | malformed (fault : SyntaxFault) (offset : Option Nat)
  | unknownTransform (name : String)
  | unknownOperator (token : String)
  | undefinedIdentifier (name : String)
  | mismatch (cause : Mismatch)
  | failed (cause : Failure)
  | depthExceeded (limit : Nat)
  | questionNotFound (slug : String)
  | invalidTraversal (path : String)
  | setting (fault : SettingFault)
deriving DecidableEq

namespace Error

def placeText : Option Nat → String
  | some offset => " at position " ++ toString offset
  | none => ""

def message : Error → String
  | .malformed fault offset => fault.message ++ placeText offset
  | .unknownTransform name => "Transform " ++ Token.quoted name ++ " is not defined"
  | .unknownOperator token => "Binary operator " ++ Token.quoted token ++ " is not defined"
  | .undefinedIdentifier name => "Identifier " ++ Token.quoted name ++ " is not defined"
  | .mismatch cause => "Type mismatch: " ++ cause.message
  | .failed cause => "Evaluation failed: " ++ cause.message
  | .depthExceeded limit =>
    "Expression nesting exceeds the maximum depth of " ++ toString limit
  | .questionNotFound slug => "Question could not be found: " ++ slug
  | .invalidTraversal path => "Invalid answer traversal: " ++ path
  | .setting fault => "Configuration error: " ++ fault.message

def position? : Error → Option Nat
  | .malformed _ offset => offset
  | _ => none

def isMalformed : Error → Bool
  | .malformed .. => true
  | _ => false

/-- An error of the answers that an expression asks for, and not of the expression. -/
def isDomain : Error → Bool
  | .questionNotFound _ | .invalidTraversal _ => true
  | _ => false

end Error
end PipeExpr
