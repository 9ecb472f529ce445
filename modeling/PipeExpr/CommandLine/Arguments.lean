/-!
Arguments of a command: options with values, and one operand at most, told apart from left to right.
The first argument that does not fit decides. What is read here knows nothing of what the options
are for.
-/
namespace PipeExpr.CommandLine

/-- Why arguments are not taken: they are wrong, or ask for a text instead. -/
inductive Stop where
  | misuse
  | help
  | version
deriving Repr, DecidableEq

structure OptionSpec where
  name : String
  letter : Option Char := none
  takesValue : Bool := true
  repeatable : Bool := false
  accepts : String → Bool := fun _ => true
  stop : Option Stop := none

structure Arguments where
  options : List (String × String)
  operand : Option String
deriving Repr, DecidableEq

inductive Shape where
  /-- Two hyphens alone: no options from here on. -/
  | terminator
  | long (name : String) (value : Option String)
  | short (letter : Char) (value : Option String)
  | operand
deriving Repr, DecidableEq

def splitEquals : List Char → List Char × Option (List Char)
  | [] => ([], none)
  | '=' :: rest => ([], some rest)
  | c :: rest =>
    let (name, value) := splitEquals rest
    (c :: name, value)

/-- A value that follows the letter of an option at once; an equals sign may stand between. -/
def attached : List Char → Option String
  | [] => none
  | '=' :: rest => some (String.ofList rest)
  | rest => some (String.ofList rest)

def shape (argument : String) : Shape :=
  match argument.toList with
  | ['-', '-'] => .terminator
  | '-' :: '-' :: rest =>
    let (name, value) := splitEquals rest
    .long (String.ofList name) (value.map String.ofList)
  | '-' :: letter :: rest => .short letter (attached rest)
  | _ => .operand

namespace Arguments

def empty : Arguments := ⟨[], none⟩

def values (name : String) (a : Arguments) : List String :=
  (a.options.filter fun e => e.1 == name).map Prod.snd

def value? (name : String) (a : Arguments) : Option String := (a.values name).head?

def has (name : String) (a : Arguments) : Bool := !(a.values name).isEmpty

/-- Adds an option, unless it is there already and cannot be repeated, or its value is refused. -/
def addOption (spec : OptionSpec) (value : String) (a : Arguments) : Except Stop Arguments :=
  if (a.has spec.name && !spec.repeatable) || !spec.accepts value then .error .misuse
  else .ok { a with options := a.options ++ [(spec.name, value)] }

def addOperand (a : Arguments) (operand : String) : Except Stop Arguments :=
  if a.operand.isSome then .error .misuse else .ok { a with operand := some operand }

end Arguments

def findOption (specs : List OptionSpec) (names : OptionSpec → Bool) : Except Stop OptionSpec :=
  match specs.find? names with
  | some spec => .ok spec
  | none => .error .misuse

def option? (specs : List OptionSpec) (argument : String) :
    Except Stop (Option (OptionSpec × Option String)) := do
  match shape argument with
  | .long name value =>
    let spec ← findOption specs fun spec => spec.name == name
    if value.isSome && !spec.takesValue then throw .misuse
    return some (spec, value)
  | .short letter value =>
    let spec ← findOption specs fun spec => spec.letter == some letter
    return some (spec, value)
  | _ => return none

/-- Reads arguments up to their end, or up to the operand if that ends them; what follows it comes
second. -/
def read (specs : List OptionSpec) (operandEnds : Bool) : List String → Arguments →
    Except Stop (Arguments × List String)
  | [], a => .ok (a, [])
  | argument :: rest, a =>
    if shape argument = .terminator then
      if operandEnds && !rest.isEmpty then .error .misuse
      else (rest.foldlM Arguments.addOperand a).map (·, [])
    else do
      match ← option? specs argument with
      | none =>
        let a ← a.addOperand argument
        if operandEnds then return (a, rest) else read specs operandEnds rest a
      | some (spec, attached) =>
        match spec.stop, spec.takesValue, attached, rest with
        | some stop, _, _, _ => throw stop
        | none, true, some value, rest => read specs operandEnds rest (← a.addOption spec value)
        | none, true, none, value :: rest =>
          if shape value = .operand then read specs operandEnds rest (← a.addOption spec value)
          else throw .misuse
        | none, false, none, rest => read specs operandEnds rest (← a.addOption spec "")
        | _, _, _, _ => throw .misuse

end PipeExpr.CommandLine
