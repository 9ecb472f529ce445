import PipeExpr.Error

/-!
Computations that leave a trace: the events in order, and a result or the error that ended it. The
events before an error are kept.
-/
namespace PipeExpr

structure Traced (ε α : Type) where
  events : List ε
  outcome : Except Error α

namespace Traced
variable {ε α β : Type}

def done (a : α) : Traced ε α := ⟨[], .ok a⟩

def fail (e : Error) : Traced ε α := ⟨[], .error e⟩

def ofExcept (r : Except Error α) : Traced ε α := ⟨[], r⟩

def emit (event : ε) : Traced ε Unit := ⟨[event], .ok ()⟩

def andThen (m : Traced ε α) (f : α → Traced ε β) : Traced ε β :=
  match m.outcome with
  | .ok a =>
    let rest := f a
    ⟨m.events ++ rest.events, rest.outcome⟩
  | .error e => ⟨m.events, .error e⟩

instance : Monad (Traced ε) where
  pure := done
  bind := andThen

theorem bind_eq (m : Traced ε α) (f : α → Traced ε β) : m >>= f = m.andThen f := rfl

theorem bind_of_ok {m : Traced ε α} {a : α} (h : m.outcome = .ok a) (f : α → Traced ε β) :
    m >>= f = ⟨m.events ++ (f a).events, (f a).outcome⟩ := by
  rw [bind_eq, andThen, h]

theorem bind_of_error {m : Traced ε α} {e : Error} (h : m.outcome = .error e)
    (f : α → Traced ε β) : m >>= f = ⟨m.events, .error e⟩ := by
  rw [bind_eq, andThen, h]

theorem exists_of_bind_ok {m : Traced ε α} {f : α → Traced ε β} {b : β}
    (h : (m >>= f).outcome = .ok b) : ∃ a, m.outcome = .ok a ∧ (f a).outcome = .ok b := by
  cases hm : m.outcome with
  | error e =>
    rw [bind_of_error hm] at h
    cases h
  | ok a =>
    rw [bind_of_ok hm] at h
    exact ⟨a, rfl, h⟩

theorem andThen_done (m : Traced ε α) : m.andThen done = m := by
  obtain ⟨events, outcome⟩ := m
  cases outcome <;> simp [andThen, done]

theorem andThen_assoc {γ : Type} (m : Traced ε α) (f : α → Traced ε β) (g : β → Traced ε γ) :
    (m.andThen f).andThen g = m.andThen fun a => (f a).andThen g := by
  obtain ⟨events, outcome⟩ := m
  cases outcome with
  | error e => rfl
  | ok a =>
    cases h : (f a).outcome <;> simp [andThen, h]

instance : LawfulMonad (Traced ε) :=
  LawfulMonad.mk' (Traced ε) (fun m => andThen_done m) (fun _ _ => rfl) andThen_assoc

def all (f : α → Traced ε β) : List α → Traced ε (List β)
  | [] => done []
  | a :: rest => do
    let b ← f a
    let bs ← all f rest
    return b :: bs

def each (f : α → Traced ε Unit) : List α → Traced ε Unit
  | [] => done ()
  | a :: rest => do
    f a
    each f rest

end Traced
end PipeExpr
