import PipeExpr.CommandLine.Arguments
import PipeExpr.Settings.Reader

/-!
What a command line asks for: the settings, the domain of the expression, and the command.
-/
namespace PipeExpr.CommandLine

/-- What an expression is about, which decides the transforms and operators that it may use. -/
inductive Domain where
  | core
  | form
  | flow
  | group
deriving Repr, DecidableEq

def Domain.ofName? : String → Option Domain
  | "core" => some .core
  | "form" => some .form
  | "flow" => some .flow
  | "group" => some .group
  | _ => none

structure Inputs where
  context : Option String
  bindings : List String
  answers : Option String
  form : String
deriving Repr, DecidableEq

inductive Command where
  | eval (inputs : Inputs) (asJson : Bool)
  | validate
  | subjects (transforms : List String)
deriving Repr, DecidableEq

structure Invocation where
  config : Option String
  maxDepth : Option Nat
  domain : Domain
  command : Command
  expression : String
deriving Repr, DecidableEq

/-- The options that every command has; they can also stand in front of the command. -/
def globalOptions : List OptionSpec :=
  [{ name := "help", letter := some 'h', takesValue := false, stop := some .help },
   { name := "config", accepts := fun path => !path.isEmpty },
   { name := "max-depth", accepts := fun raw => (Settings.natural? raw.toList).isSome },
   { name := "domain", accepts := fun name => (Domain.ofName? name).isSome }]

def versionOption : OptionSpec :=
  { name := "version", letter := some 'V', takesValue := false, stop := some .version }

def evalOptions : List OptionSpec :=
  [{ name := "context", letter := some 'c' },
   { name := "var", repeatable := true },
   { name := "answers" },
   { name := "form" },
   { name := "output-json", takesValue := false }]

def subjectsOptions : List OptionSpec :=
  [{ name := "transform", letter := some 't', repeatable := true }]

def commandOptions : String → Option (List OptionSpec)
  | "eval" => some evalOptions
  | "validate" => some []
  | "subjects" => some subjectsOptions
  | _ => none

def Command.ofArguments (name : String) (a : Arguments) : Command :=
  match name with
  | "eval" =>
    .eval
      { context := a.value? "context"
        bindings := a.values "var"
        answers := a.value? "answers"
        form := (a.value? "form").getD "form" }
      (a.has "output-json")
  | "subjects" => .subjects (a.values "transform")
  | _ => .validate

def helpFor : List String → Stop
  | [] => .help
  | [name] => if name = "help" || (commandOptions name).isSome then .help else .misuse
  | _ => .misuse

namespace Invocation

/-- An option given with the command counts more than the same one in front of it. -/
def ofParts (name : String) (front behind : Arguments) (expression : String) : Invocation :=
  let global (option : String) : Option String := (behind.value? option).or (front.value? option)
  { config := global "config"
    maxDepth := (global "max-depth").bind fun raw => Settings.natural? raw.toList
    domain := ((global "domain").bind Domain.ofName?).getD .core
    command := .ofArguments name behind
    expression := expression }

def ofArguments (arguments : List String) : Except Stop Invocation := do
  let (front, rest) ← read (versionOption :: globalOptions) true arguments .empty
  match front.operand with
  | none => throw .misuse
  | some "help" => throw (helpFor rest)
  | some name =>
    match commandOptions name with
    | none => throw .misuse
    | some options =>
      let (behind, _) ← read (globalOptions ++ options) false rest .empty
      match behind.operand with
      | some expression => return ofParts name front behind expression
      | none => throw .misuse

end Invocation
end PipeExpr.CommandLine
