import PipeExpr.Analysis.Extraction
import PipeExpr.Analysis.Validation
import PipeExpr.Json.Reader
import PipeExpr.Registry.Standard
import PipeExpr.Session.Basic
import PipeExpr.Settings.Basic

/-!
Engines: a registry and settings. An engine parses, evaluates and analyzes expressions in a session.
-/
namespace PipeExpr

structure Engine where
  registry : Registry
  settings : Settings := {}

/-- The fields of a JSON object as the values of identifiers; null stands for no fields. -/
def Context.ofJson : Json → Except Error Context
  | .null => .ok []
  | .object fields => .ok (Value.ofFields fields)
  | document => .error (.failed (.contextNotObject document.text))

namespace Engine
variable {α : Type}

def standard : Engine := { registry := .standard }

def parse (engine : Engine) (text : String) : Step Tree :=
  let parse := if engine.settings.cache then Step.parseCached else Step.parseFresh
  parse engine.registry.grammar engine.settings.maxDepth text

def evaluateTree (engine : Engine) (e : Expr) (context : Context) : Step Value := do
  Step.record .trace ("evaluating " ++ e.text)
  Step.ofEvaluation engine.registry (e.evaluate engine.registry context engine.settings.maxDepth)

def evaluate (engine : Engine) (text : String) (context : Context) : Step Value := do
  let tree ← engine.parse text
  engine.evaluateTree tree.expr context

def evaluateJson (engine : Engine) (text : String) (document : Json) : Step Json := do
  let context ← Step.ofExcept (Context.ofJson document)
  let v ← engine.evaluate text context
  return v.toJson

def evaluateUnderText (engine : Engine) (text document : String) : Step Value := do
  match Json.read? document with
  | none => throw (.failed .invalidJson)
  | some json =>
    let context ← Step.ofExcept (Context.ofJson json)
    engine.evaluate text context

def analyze (engine : Engine) (text : String) (analysis : List Visit → α) : Step α := do
  let tree ← engine.parse text
  let walk := tree.expr.walk engine.settings.maxDepth
  Step.ofExcept walk.outcome
  return analysis walk.events

/-- The findings of an expression. An expression that cannot be analyzed has one finding. -/
def validate (engine : Engine) (text : String) (allowed : Allowance := .all) :
    Step (List Finding) := do
  let findings ←
    tryCatch (engine.analyze text (Visit.findings engine.registry allowed))
      fun e => return [.unreadable e]
  unless findings.isEmpty do
    Step.record .warn ("expression " ++ Token.quoted text ++ " has " ++ toString findings.length
      ++ " validation finding(s)")
  return findings

/-- The literal subjects of the named transforms, or of all of them if none is named. -/
def subjects (engine : Engine) (text : String) (names : List String) : Step (List Value) :=
  engine.analyze text (Visit.subjects names)

end Engine
end PipeExpr
