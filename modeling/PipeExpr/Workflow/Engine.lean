import PipeExpr.Session.Engine
import PipeExpr.Workflow.CaseInfo

/-!
Expressions that route work: flow expressions name the next tasks with `task` and `tasks`, group
expressions name the groups that get the work with `groups`. `routes` tells every slug that such an
expression can name, without evaluating it.
-/
namespace PipeExpr

namespace Transform

def task (subject : Value) (_ : List Value) : Except Error Value :=
  if subject.string?.isSome then .ok subject
  else .error (unfit "task" "a task slug" subject.text)

def slugList (name : String) (subject : Value) (_ : List Value) : Except Error Value :=
  if subject.strings?.isSome then .ok subject
  else .error (unfit name "an array of slugs" subject.text)

end Transform

namespace Registry

def flow : Registry :=
  Registry.standard
    |>.insertTransform "task" (.silent Transform.task) (some .stringLiteral)
    |>.insertTransform "tasks" (.silent (Transform.slugList "tasks")) (some .stringArrayLiteral)

def group : Registry :=
  Registry.standard
    |>.insertTransform "groups" (.silent (Transform.slugList "groups")) (some .stringArrayLiteral)

end Registry

/-- The slugs in a value: a string, or the strings of an array. -/
def Value.slugs : Value → List String
  | .string s => [s]
  | .array items => items.filterMap string?
  | _ => []

namespace Engine

def flow (settings : Settings := {}) : Engine := ⟨.flow, settings⟩

def group (settings : Settings := {}) : Engine := ⟨.group, settings⟩

def evaluateCase (engine : Engine) (text : String) (info : CaseInfo) : Step Value :=
  engine.evaluate text info.context

/-- The slugs in the literal subjects of the named transforms, in order and each once. -/
def routes (engine : Engine) (names : List String) (text : String) : Step (List String) :=
  engine.analyze text fun visits =>
    let slugs := (Visit.subjects names visits).flatMap Value.slugs
    (Table.ofList (slugs.map fun s => (s, ()))).keys

def tasks (engine : Engine) (text : String) : Step (List String) :=
  engine.routes ["task", "tasks"] text

def groups (engine : Engine) (text : String) : Step (List String) := engine.routes ["groups"] text

end Engine
end PipeExpr
