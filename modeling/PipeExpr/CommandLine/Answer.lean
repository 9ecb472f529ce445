import PipeExpr.CommandLine.Invocation
import PipeExpr.Form.Engine
import PipeExpr.Workflow.Engine

/-!
The answer of a command: what it finds out, and from that the texts that it prints and its exit
code.
-/
namespace PipeExpr.CommandLine

inductive Answer where
  | value (v : Value)
  | findings (found : List Finding)
  | subjects (vs : List Value)
  | failure (error : Error)
  /-- The settings are no good. -/
  | refusal (error : Error)

/-- What a command leaves: an exit code, and what it prints. -/
structure Response where
  code : Nat
  output : String
  error : String
deriving Repr, DecidableEq

/-- The registry of a domain; `document` is what form expressions are about. -/
def Domain.registry (document : Document) : Domain → Registry
  | .core => .standard
  | .form => .form document
  | .flow => .flow
  | .group => .group

def parseJson (raw : String) : Except Error Json :=
  match Json.read? raw with
  | some json => .ok json
  | none => .error (.failed .invalidJson)

def unquoted? (raw : List Char) : Option (List Char) :=
  match raw with
  | '\'' :: rest => if rest.getLast? = some '\'' then some rest.dropLast else none
  | _ => none

/-- The value of a variable: a text in single quotes, else a JSON document, else the text as it
stands. -/
def assignedValue (raw : String) : Value :=
  match unquoted? raw.toList with
  | some text => .string (String.ofList text)
  | none =>
    match Json.read? raw with
    | some json => .ofJson json
    | none => .string raw

def assignment (argument : String) : Except Error (String × Value) :=
  match splitEquals argument.toList with
  | (name, some raw) => .ok (String.ofList name, assignedValue (String.ofList raw))
  | (_, none) => .error (.failed (.invalidVariable argument))

namespace Inputs

def document (inputs : Inputs) : Except Error Document :=
  match inputs.answers with
  | none => .ok (.ofForm inputs.form)
  | some raw => do
    match Value.ofJson (← parseJson raw) with
    | .object answers => return (Document.ofForm inputs.form).answerForm inputs.form answers
    | _ => throw (.failed .answersNotObject)

/-- The identifiers of an expression: those of the document if it is about one, then the context,
then the variables, each over the ones before. -/
def identifiers (inputs : Inputs) (domain : Domain) (document : Document) :
    Except Error Context := do
  let start := if domain = .form then document.context else []
  let given ← match inputs.context with
    | none => pure []
    | some raw => Context.ofJson (← parseJson raw)
  let bound ← inputs.bindings.mapM assignment
  return (Table.insertAll given start).insertAll bound

end Inputs

namespace Invocation

/-- The settings: of the file if one is named, else of the environment. A depth on the command line
comes before both. -/
def settings (invocation : Invocation) (file : String → Option String)
    (environment : String → Option String) : Except Error Settings := do
  let settings ← match invocation.config with
    | some path => Settings.ofFile path (file path)
    | none => Settings.ofEnvironment environment
  return match invocation.maxDepth with
    | some depth => { settings with maxDepth := depth }
    | none => settings

def step (invocation : Invocation) (settings : Settings) : Step Answer := do
  match invocation.command with
  | .eval inputs _ =>
    let document ← Step.ofExcept inputs.document
    let context ← Step.ofExcept (inputs.identifiers invocation.domain document)
    let engine : Engine := ⟨invocation.domain.registry document, settings⟩
    return .value (← engine.evaluate invocation.expression context)
  | .validate =>
    let engine : Engine := ⟨invocation.domain.registry .blank, settings⟩
    return .findings (← engine.validate invocation.expression)
  | .subjects transforms =>
    let engine : Engine := ⟨invocation.domain.registry .blank, settings⟩
    return .subjects (← engine.subjects invocation.expression transforms)

def answer (invocation : Invocation) (file : String → Option String)
    (environment : String → Option String) : Answer :=
  match invocation.settings file environment with
  | .error e => .refusal e
  | .ok settings =>
    match invocation.step settings .start with
    | .ok answer _ => answer
    | .error e _ => .failure e

end Invocation

namespace Response

def line (text : String) : String := text ++ "\n"

def ofError (code : Nat) (e : Error) : Response := ⟨code, "", line ("Error: " ++ e.message)⟩

def report (elapsed : String) (v : Value) : Json :=
  .object
    [("execution_time", .string elapsed), ("result", v.toJson), ("type", .string v.kind.name)]

def ofValue (elapsed : String) (asJson : Bool) (v : Value) : Response :=
  ⟨0, line (if asJson then (report elapsed v).indentedText else v.text), ""⟩

def ofFindings (found : List Finding) : Response :=
  if found.isEmpty then ⟨0, line "OK", ""⟩
  else ⟨3, String.join (found.map fun f => line f.message), ""⟩

def ofAnswer (elapsed : String) (command : Command) : Answer → Response
  | .value v =>
    match command with
    | .eval _ asJson => ofValue elapsed asJson v
    | _ => ofValue elapsed false v
  | .findings found => ofFindings found
  | .subjects vs => ⟨0, line (Json.array (vs.map Value.toJson)).text, ""⟩
  | .failure e => ofError 2 e
  | .refusal e => ofError 1 e

def usage : String :=
  line "Usage: jexl [--config <FILE>] [--max-depth <N>] [--domain core|form|flow|group] <COMMAND>"
    ++ line ""
    ++ line "Commands:"
    ++ line "  eval <EXPRESSION> [-c <JSON>] [--var <NAME=VALUE>] [--answers <JSON>]"
    ++ line "       [--form <SLUG>] [--output-json]"
    ++ line "  validate <EXPRESSION>"
    ++ line "  subjects <EXPRESSION> [-t <TRANSFORM>]"

def ofStop : Stop → Response
  | .misuse => ⟨2, "", usage⟩
  | .help => ⟨0, usage, ""⟩
  | .version => ⟨0, line "jexl 0.1.0", ""⟩

end Response

/-- The response to a command line. `file` reads a file, `environment` a variable of the
environment; `elapsed` is the time that a report shows. -/
def respond (arguments : List String) (file : String → Option String)
    (environment : String → Option String) (elapsed : String) : Response :=
  match Invocation.ofArguments arguments with
  | .error stop => .ofStop stop
  | .ok invocation =>
    .ofAnswer elapsed invocation.command (invocation.answer file environment)

end PipeExpr.CommandLine
