import PipeExpr.Expr.Evaluation
import PipeExpr.Session.Cache

/-!
A session: what engines share and leave behind. Trees are kept in a cache, and the records and the
calls of registered functions are kept in order, also those before an error.
-/
namespace PipeExpr

structure Session where
  cache : Cache
  /-- How many trees have been parsed. -/
  trees : Nat
  records : List LogRecord
  calls : List Call

def Session.start : Session := ⟨[], 0, [], []⟩

abbrev Step := EStateM Error Session

namespace Step
variable {α : Type}

def ofExcept : Except Error α → Step α
  | .ok a => pure a
  | .error e => throw e

def record (level : LogLevel) (message : String) : Step Unit :=
  modify fun s => { s with records := s.records ++ [⟨level, message⟩] }

def ofEvaluation (r : Registry) (t : Traced Call α) : Step α := do
  modify fun s =>
    { s with calls := s.calls ++ t.events, records := s.records ++ t.events.flatMap r.records }
  ofExcept t.outcome

def number (e : Expr) : Step Tree := do
  let s ← get
  set { s with trees := s.trees + 1 }
  return ⟨s.trees, e⟩

def parseFresh (g : Grammar) (limit : Nat) (text : String) : Step Tree := do
  number (← ofExcept (Expr.parse g limit text))

/-- Takes a tree from the cache, or parses the text and keeps its tree. Errors are not kept. -/
def parseCached (g : Grammar) (limit : Nat) (text : String) : Step Tree := do
  let key := Cache.key g limit text
  match Table.find? key (← get).cache with
  | some tree => return tree
  | none =>
    record .debug ("AST cache miss for expression: " ++ text)
    let tree ← parseFresh g limit text
    modify fun s => { s with cache := s.cache.insert key tree }
    return tree

def clearCache : Step Unit := modify fun s => { s with cache := [] }

end Step
end PipeExpr
