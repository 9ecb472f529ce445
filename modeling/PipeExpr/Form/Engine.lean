import PipeExpr.Form.Document
import PipeExpr.Session.Engine

/-!
Expressions about documents. They look up answers with the transform `answer`, pick fields of rows
with `mapby` and compare lists with the operator `intersects`.
-/
namespace PipeExpr

/-- Looks up an answer. The first argument stands in for an answer that is null. -/
def Document.answerTransform (d : Document) : Transform :=
  .silent fun subject arguments => do
    match subject.string? with
    | none => throw (Transform.unfit "answer" "a question slug" subject.text)
    | some slug =>
      match ← d.resolve slug, arguments with
      | .null, default :: _ => return default
      | v, _ => return v

def Registry.form (d : Document) : Registry :=
  Registry.standard
    |>.insertTransform "answer" d.answerTransform (some .stringLiteral)
    |>.insertTransform "mapby" (.silent Transform.mapby) none
    |>.insertOperator "intersects" 20 (.function Operation.intersects)

def Engine.answerSlugs (engine : Engine) (text : String) : Step (List String) :=
  engine.analyze text fun visits => (Visit.subjects ["answer"] visits).filterMap Value.string?

namespace Document

def engine (d : Document) (settings : Settings := {}) : Engine := ⟨.form d, settings⟩

/-- Evaluates an expression about a document; `extra` identifiers go before its own. -/
def evaluate (d : Document) (settings : Settings) (text : String) (extra : Context := []) :
    Step Value :=
  (d.engine settings).evaluate text (d.context.insertAll extra)

end Document
end PipeExpr
