import Mathlib.Data.List.Forall2
import PipeExpr.Proofs.Expr.Parts

/-!
Folding. An expression is its own value where nothing but literals, arrays and objects is in it. What it
folds to is what every evaluation with levels enough comes to, without a call; of several entries with
one key the last one counts.
-/
namespace PipeExpr.Expr
open Traced

def isData : Expr → Bool
  | .literal _ | .array _ | .object _ => true
  | _ => false

theorem literals?_eq_some {items : List Expr} {vs : List Value} :
    literals? items = some vs ↔ List.Forall₂ (fun e v => e.literal? = some v) items vs := by
  induction items generalizing vs with
  | nil => simp [literals?, eq_comm]
  | cons e rest ih =>
    simp only [literals?, bind, Option.bind_eq_some_iff, pure, ih, List.forall₂_cons_left_iff]
    constructor
    · rintro ⟨v, hv, ws, hws, heq⟩
      exact ⟨v, ws, hv, hws, (Option.some.inj heq).symm⟩
    · rintro ⟨v, ws, hv, hws, rfl⟩
      exact ⟨v, hv, ws, hws, rfl⟩

theorem literalEntries?_eq_some {entries : List (String × Expr)} {fields : List (String × Value)} :
    literalEntries? entries = some fields ↔
      List.Forall₂ (fun entry field => field.1 = entry.1 ∧ entry.2.literal? = some field.2)
        entries fields := by
  induction entries generalizing fields with
  | nil => simp [literalEntries?, eq_comm]
  | cons entry rest ih =>
    obtain ⟨key, e⟩ := entry
    simp only [literalEntries?, bind, Option.bind_eq_some_iff, pure, ih, List.forall₂_cons_left_iff]
    constructor
    · rintro ⟨v, hv, fs, hfs, heq⟩
      exact ⟨(key, v), fs, ⟨rfl, hv⟩, hfs, (Option.some.inj heq).symm⟩
    · rintro ⟨⟨_, v⟩, fs, ⟨rfl, hv⟩, hfs, rfl⟩
      exact ⟨v, hv, fs, hfs, rfl⟩

theorem literals?_isSome {items : List Expr} :
    (literals? items).isSome = true ↔ ∀ e ∈ items, e.literal?.isSome = true := by
  induction items with
  | nil => simp [literals?]
  | cons e rest ih =>
    rw [List.forall_mem_cons, ← ih, literals?]
    cases e.literal? with
    | none => simp
    | some v => cases literals? rest <;> simp

theorem literalEntries?_isSome {entries : List (String × Expr)} :
    (literalEntries? entries).isSome = true ↔ ∀ entry ∈ entries, entry.2.literal?.isSome = true := by
  induction entries with
  | nil => simp [literalEntries?]
  | cons entry rest ih =>
    obtain ⟨key, e⟩ := entry
    rw [List.forall_mem_cons, ← ih, literalEntries?]
    cases e.literal? with
    | none => simp
    | some v => cases literalEntries? rest <;> simp

theorem literal?_isSome_iff_parts {e : Expr} :
    e.literal?.isSome = true ↔ e.isData = true ∧ ∀ part ∈ e.parts, part.literal?.isSome = true := by
  cases e with
  | literal v => simp [literal?, isData, parts]
  | array items => simp [literal?, isData, parts, literals?_isSome]
  | object entries =>
    simp only [literal?, Option.isSome_map, literalEntries?_isSome, isData, parts,
      List.forall_mem_map, true_and]
  | _ => simp [literal?, isData]

theorem literal?_isSome_iff (e : Expr) :
    e.literal?.isSome = true ↔ ∀ node ∈ e.nodes, node.isData = true := by
  induction e using induction_parts with
  | h e ih =>
    rw [literal?_isSome_iff_parts, nodes_eq_cons, List.forall_mem_cons, List.forall_mem_flatMap]
    exact and_congr_right fun _ => forall₂_congr ih

theorem evaluate_of_literal {e : Expr} {v : Value} (h : e.literal? = some v) (r : Registry)
    (context : Context) {limit : Nat} (hlimit : e.height ≤ limit) :
    e.evaluate r context limit = done v :=
  (reaches_literal limit h).eq_of_enough hlimit

theorem lookup_of_literalEntries {entries : List (String × Expr)} {fields : List (String × Value)}
    (h : List.Forall₂ (fun entry field => field.1 = entry.1 ∧ entry.2.literal? = some field.2)
      entries fields) (key : String) :
    fields.lookup key = (entries.lookup key).bind literal? := by
  induction h with
  | nil => rfl
  | @cons entry field _ _ hfield _ ih =>
    rw [List.lookup_cons, List.lookup_cons, hfield.1]
    cases key == entry.1 with
    | true => exact hfield.2.symm
    | false => exact ih

theorem find?_of_literal {entries : List (String × Expr)} {v : Value}
    (h : (Expr.object entries).literal? = some v) : ∃ fields : Table Value, v = .object fields ∧
      fields.Ordered ∧ ∀ key, fields.find? key = (entries.reverse.lookup key).bind literal? := by
  obtain ⟨fields, hfields, rfl⟩ := Option.map_eq_some_iff.mp h
  refine ⟨Table.ofList fields, rfl, Table.ordered_ofList fields, ?_⟩
  intro key
  have hreversed := List.forall₂_reverse_iff.mpr (literalEntries?_eq_some.mp hfields)
  rw [Table.find?_ofList, lookup_of_literalEntries hreversed]

/-- Folding is evaluation. It gives a value exactly if nothing but literals, arrays and objects is in
the expression, and this value is what it comes to with as many levels as it is high, whatever is
registered and bound and without a call. Of the entries with one key the last one counts. -/
theorem literal_is_value (e : Expr) :
    (e.literal?.isSome = true ↔ ∀ node ∈ e.nodes, node.isData = true) ∧
    (∀ v, e.literal? = some v → ∀ r context limit, e.height ≤ limit →
      (e.evaluate r context limit).outcome = .ok v ∧ (e.evaluate r context limit).events = []) ∧
    ∀ entries v, e = .object entries → e.literal? = some v → ∃ fields : Table Value,
      v = .object fields ∧ fields.Ordered ∧
        ∀ key, fields.find? key = (entries.reverse.lookup key).bind literal? := by
  refine ⟨literal?_isSome_iff e, ?_, ?_⟩
  · intro v hv r context limit hlimit
    rw [evaluate_of_literal hv r context hlimit]
    exact ⟨rfl, rfl⟩
  · rintro entries v rfl hv
    exact find?_of_literal hv

/-- Of the two entries with the key `b` only the second one stays. -/
theorem literal_is_value_repeated :
    let e : Expr := .object [("b", .array [.literal .null, .literal (.boolean true)]),
      ("a", .literal (.string "x")), ("b", .literal (.boolean false))]
    let v : Value := .object [("a", .string "x"), ("b", .boolean false)]
    e.literal? = some v ∧ e.height = 3 ∧ (e.evaluate .empty [] 3).outcome = .ok v ∧
      (e.evaluate .empty [] 3).events = [] ∧
      Table.find? "b" [("a", Value.string "x"), ("b", .boolean false)] = some (.boolean false) := by
  intro e v
  have hv : e.literal? = some v := rfl
  have hheight : e.height = 3 := rfl
  obtain ⟨houtcome, hevents⟩ := (literal_is_value e).2.1 v hv .empty [] 3 (Nat.le_of_eq hheight)
  obtain ⟨fields, hfields, -, hfind⟩ := (literal_is_value e).2.2 _ v rfl hv
  obtain rfl := Value.object.inj hfields
  exact ⟨hv, hheight, houtcome, hevents, hfind "b"⟩

end PipeExpr.Expr
