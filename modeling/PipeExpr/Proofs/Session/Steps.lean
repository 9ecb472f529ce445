import PipeExpr.Session.Engine

/-!
What the steps of a session come to, and what they leave behind. A parse takes a tree from the cache,
or reads the text; whatever follows it starts from the tree and the session that it leaves.
-/
namespace PipeExpr

namespace Step
variable {α β : Type} {g : Grammar} {limit : Nat} {text : String} {s : Session}

theorem bind_ok {x : Step α} {f : α → Step β} {a : α} {s' : Session} (h : x s = .ok a s') :
    (x >>= f) s = f a s' := by
  change EStateM.bind x f s = f a s'
  rw [EStateM.bind, h]

theorem bind_error {x : Step α} {f : α → Step β} {e : Error} {s' : Session} (h : x s = .error e s') :
    (x >>= f) s = .error e s' := by
  change EStateM.bind x f s = .error e s'
  rw [EStateM.bind, h]

theorem tryCatch_ok {x : Step α} {a : α} {s' : Session} (h : x s = .ok a s')
    (handle : Error → Step α) : (tryCatch x handle : Step α) s = .ok a s' := by
  have hsame : (tryCatch x handle : Step α) s = (tryCatch (fun _ => x s : Step α) handle : Step α) s :=
    rfl
  rw [hsame, h]
  rfl

theorem tryCatch_error {x : Step α} {e : Error} {s' : Session} (h : x s = .error e s')
    (handle : Error → Step α) : (tryCatch x handle : Step α) s = handle e s' := by
  have hsame : (tryCatch x handle : Step α) s = (tryCatch (fun _ => x s : Step α) handle : Step α) s :=
    rfl
  rw [hsame, h]
  rfl

theorem parseFresh_ok {e : Expr} (h : Expr.parse g limit text = .ok e) :
    parseFresh g limit text s = .ok ⟨s.trees, e⟩ { s with trees := s.trees + 1 } := by
  unfold parseFresh
  rw [h]
  rfl

theorem parseFresh_error {e : Error} (h : Expr.parse g limit text = .error e) :
    parseFresh g limit text s = .error e s := by
  unfold parseFresh
  rw [h]
  rfl

theorem parseCached_hit {tree : Tree}
    (h : Table.find? (Cache.key g limit text) s.cache = some tree) :
    parseCached g limit text s = .ok tree s := by
  have hget : (get : Step Session) s = .ok s s := rfl
  rw [parseCached, bind_ok hget, h]
  rfl

theorem parseCached_miss (h : Table.find? (Cache.key g limit text) s.cache = none) :
    parseCached g limit text s =
      match parseFresh g limit text
          { s with records := s.records ++ [⟨.debug, "AST cache miss for expression: " ++ text⟩] } with
      | .ok tree s' =>
        .ok tree { s' with cache := s'.cache.insert (Cache.key g limit text) tree }
      | .error e s' => .error e s' := by
  have hget : (get : Step Session) s = .ok s s := rfl
  have hrecord : record .debug ("AST cache miss for expression: " ++ text) s = .ok ()
    { s with records := s.records ++ [⟨.debug, "AST cache miss for expression: " ++ text⟩] } := rfl
  rw [parseCached, bind_ok hget, h]
  refine (bind_ok hrecord).trans ?_
  cases hfresh : parseFresh g limit text
      { s with records := s.records ++ [⟨.debug, "AST cache miss for expression: " ++ text⟩] } with
  | ok tree s' => exact bind_ok hfresh
  | error e s' => exact bind_error hfresh

def outcome (step : Step α) (s : Session) : Except Error α :=
  match step s with
  | .ok a _ => .ok a
  | .error e _ => .error e

def after (step : Step α) (s : Session) : Session :=
  match step s with
  | .ok _ s' => s'
  | .error _ s' => s'

theorem outcome_error {step : Step α} {e : Error} {s' : Session} (h : step s = .error e s') :
    step.outcome s = .error e := by
  rw [outcome, h]

end Step

namespace Engine
variable {engine : Engine} {text : String} {s : Session}

def reading (engine : Engine) (text : String) : Except Error Expr :=
  Expr.parse engine.registry.grammar engine.settings.maxDepth text

def key (engine : Engine) (text : String) : String :=
  Cache.key engine.registry.grammar engine.settings.maxDepth text

/-- A parse takes what the cache has, or reads the text and keeps the tree, or fails and keeps
nothing. -/
theorem parse_cases (engine : Engine) (text : String) (s : Session) :
    (∃ tree, engine.settings.cache = true ∧ Table.find? (engine.key text) s.cache = some tree ∧
      engine.parse text s = .ok tree s) ∨
    (∃ e s', engine.reading text = .ok e ∧ engine.parse text s = .ok ⟨s.trees, e⟩ s' ∧
      (s'.cache = if engine.settings.cache then s.cache.insert (engine.key text) ⟨s.trees, e⟩
        else s.cache) ∧ s'.trees = s.trees + 1 ∧
      (engine.settings.cache = true → Table.find? (engine.key text) s.cache = none)) ∨
    ∃ e s', engine.reading text = .error e ∧ engine.parse text s = .error e s' ∧
      s'.cache = s.cache ∧ s'.trees = s.trees := by
  unfold parse
  cases hcache : engine.settings.cache with
  | false =>
    right
    cases hreading : engine.reading text with
    | ok e => exact .inl ⟨e, _, rfl, Step.parseFresh_ok hreading, rfl, rfl, nofun⟩
    | error e => exact .inr ⟨e, _, rfl, Step.parseFresh_error hreading, rfl, rfl⟩
  | true =>
    cases hfound : Table.find? (engine.key text) s.cache with
    | some tree => exact .inl ⟨tree, rfl, rfl, Step.parseCached_hit hfound⟩
    | none =>
      have hmiss := Step.parseCached_miss hfound
      right
      cases hreading : engine.reading text with
      | ok e =>
        rw [Step.parseFresh_ok hreading] at hmiss
        exact .inl ⟨e, _, rfl, hmiss, rfl, rfl, fun _ => rfl⟩
      | error e =>
        rw [Step.parseFresh_error hreading] at hmiss
        exact .inr ⟨e, _, rfl, hmiss, rfl, rfl⟩

end Engine
end PipeExpr
