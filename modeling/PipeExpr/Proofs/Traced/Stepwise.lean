import PipeExpr.Traced

/-!
Traced computations step by step: relations that hold of two computations if they hold at every step,
and what the lists of steps come to.
-/
namespace PipeExpr.Traced
variable {ε α β : Type}

/-- A relation that every computation is in with itself, and that goes from the steps to the whole. -/
structure Stepwise (R : (α : Type) → Traced ε α → Traced ε α → Prop) : Prop where
  refl : ∀ {α : Type} (t : Traced ε α), R α t t
  bind : ∀ {α β : Type} {t u : Traced ε α} {f g : α → Traced ε β}, R α t u →
    (∀ a, R β (f a) (g a)) → R β (t >>= f) (u >>= g)

theorem stepwise_eq : Stepwise fun α (t u : Traced ε α) => t = u where
  refl _ := rfl
  bind := by
    rintro α β t _ f g rfl h
    rw [funext h]

section Stepwise
variable {R : (α : Type) → Traced ε α → Traced ε α → Prop}

theorem Stepwise.all (hR : Stepwise R) {f g : α → Traced ε β} {items : List α}
    (h : ∀ a ∈ items, R β (f a) (g a)) : R (List β) (all f items) (all g items) := by
  induction items with
  | nil => exact hR.refl _
  | cons a rest ih =>
    obtain ⟨ha, hrest⟩ := List.forall_mem_cons.mp h
    exact hR.bind ha fun b => hR.bind (ih hrest) fun bs => hR.refl _

theorem Stepwise.each (hR : Stepwise R) {f g : α → Traced ε Unit} {items : List α}
    (h : ∀ a ∈ items, R Unit (f a) (g a)) : R Unit (each f items) (each g items) := by
  induction items with
  | nil => exact hR.refl _
  | cons a rest ih =>
    obtain ⟨ha, hrest⟩ := List.forall_mem_cons.mp h
    exact hR.bind ha fun _ => ih hrest

end Stepwise

section Each
variable {f : α → Traced ε Unit}

theorem each_singleton (a : α) : each f [a] = f a := bind_pure (f a)

theorem each_append (items items' : List α) :
    each f (items ++ items') = each f items >>= fun _ => each f items' := by
  induction items with
  | nil => rfl
  | cons a rest ih => rw [List.cons_append, each, each, ih, bind_assoc]

theorem each_map (g : β → α) (items : List β) :
    each f (items.map g) = each (fun item => f (g item)) items := by
  induction items with
  | nil => rfl
  | cons item rest ih => rw [List.map_cons, each, each, ih]

theorem each_flatMap (g : β → List α) (items : List β) :
    each f (items.flatMap g) = each (fun item => each f (g item)) items := by
  induction items with
  | nil => rfl
  | cons item rest ih => rw [List.flatMap_cons, each_append, each, ih]

theorem ok_then {m w : Traced ε Unit} :
    (m >>= fun _ => w).outcome = .ok () ↔ m.outcome = .ok () ∧ w.outcome = .ok () := by
  constructor
  · intro h
    obtain ⟨_, hm, hw⟩ := exists_of_bind_ok h
    exact ⟨hm, hw⟩
  · intro h
    rw [bind_of_ok h.1]
    exact h.2

theorem ok_each {items : List α} :
    (each f items).outcome = .ok () ↔ ∀ a ∈ items, (f a).outcome = .ok () := by
  induction items with
  | nil => simp [each, done]
  | cons a rest ih => rw [each, ok_then, ih, List.forall_mem_cons]

end Each
end PipeExpr.Traced
