import PipeExpr.Proofs.Registry.Built

/-!
The operators of a registry are kept in three places that are written one by one: with what they do,
as the precedences of the grammar, and, those that are no words, as its sorted symbols. A refused call
writes none of them (`Registration.perform_eq`), so calls lead to built registries only; these have the
three in step (`Built.represented`), and their grammar is told by the precedences (`Built.grammar_eq`).
-/
namespace PipeExpr.Registry

inductive Base where
  | empty
  | operatorsOnly
  | standard
  | form (d : Document)
  | flow
  | group

def Base.registry : Base → Registry
  | .empty => .empty
  | .operatorsOnly => .operatorsOnly
  | .standard => .standard
  | .form d => .form d
  | .flow => .flow
  | .group => .group

/-- A call that registers something, whether the registry admits it or not. -/
inductive Registration where
  | transform (name : String) (t : Transform)
  | validatedTransform (name : String) (rule : SubjectRule) (t : Transform)
  | operator (token : String) (precedence : Nat) (f : Value → Value → Except Error Value)

namespace Registration

def register : Registration → Registry → Except Error Registry
  | .transform name t, r => r.registerTransform name t
  | .validatedTransform name rule t, r => r.registerValidatedTransform name rule t
  | .operator token n f, r => r.registerOperator token n f

/-- The call on a registry that is changed in place, one write after the other: what a refused call
has written stays. -/
def perform : Registration → EStateM Error Registry Unit
  | .transform name t => do
    MonadExcept.ofExcept (checkTransformName name)
    modify fun r => { r with transforms := r.transforms.insert name ⟨t, none⟩ }
  | .validatedTransform name rule t => do
    MonadExcept.ofExcept (checkTransformName name)
    modify fun r => { r with transforms := r.transforms.insert name ⟨t, some rule⟩ }
  | .operator token n f => do
    MonadExcept.ofExcept (checkOperatorToken token)
    if n = 0 then throw (.setting (.zeroPrecedence token))
    modify fun r => { r with grammar := r.grammar.insert token n }
    modify fun r => { r with operators := r.operators.insert token ⟨n, .function f⟩ }

def after (call : Registration) (r : Registry) : Registry :=
  match call.perform r with
  | .ok _ s => s
  | .error _ s => s

/-- All checks come before the first write. -/
theorem perform_eq (call : Registration) (r : Registry) :
    call.perform r = match call.register r with
      | .ok s => .ok () s
      | .error e => .error e r := by
  cases call with
  | transform name t =>
    simp only [perform, register, registerTransform]
    cases checkTransformName name with
    | error e => rfl
    | ok _ => rfl
  | validatedTransform name rule t =>
    simp only [perform, register, registerValidatedTransform]
    cases checkTransformName name with
    | error e => rfl
    | ok _ => rfl
  | operator token n f =>
    simp only [perform, register, registerOperator]
    cases checkOperatorToken token with
    | error e => rfl
    | ok _ =>
      by_cases hn : n = 0
      · simp only [if_pos hn]
        rfl
      · simp only [if_neg hn]
        rfl

theorem after_of_ok {call : Registration} {r s : Registry} (h : call.register r = .ok s) :
    call.after r = s := by
  rw [after, perform_eq, h]

theorem after_of_error {call : Registration} {r : Registry} {e : Error}
    (h : call.register r = .error e) : call.after r = r := by
  rw [after, perform_eq, h]

end Registration

def afterAll (calls : List Registration) (r : Registry) : Registry :=
  calls.foldl (fun r call => call.after r) r

def Base.after (b : Base) (calls : List Registration) : Registry := b.registry.afterAll calls

theorem built_base (b : Base) : b.registry.Built := by
  cases b with
  | empty => exact .empty
  | operatorsOnly => exact .operatorsOnly
  | standard => exact .standard
  | form d => exact built_form d
  | flow => exact built_flow
  | group => exact built_group

theorem Built.after {r : Registry} (h : r.Built) (call : Registration) : (call.after r).Built := by
  cases hcall : call.register r with
  | error e =>
    rw [Registration.after_of_error hcall]
    exact h
  | ok s =>
    rw [Registration.after_of_ok hcall]
    cases call with
    | transform name t => exact .transform h hcall
    | validatedTransform name rule t => exact .validatedTransform h hcall
    | operator token n f => exact .operator h hcall

theorem Built.afterAll {r : Registry} (h : r.Built) (calls : List Registration) :
    (r.afterAll calls).Built := by
  induction calls generalizing r with
  | nil => exact h
  | cons call rest ih => exact ih (h.after call)

theorem built_after (b : Base) (calls : List Registration) : (b.after calls).Built :=
  (built_base b).afterAll calls

/-- The grammar has the precedences of the operators, entry by entry, and each is at least one. -/
structure Mirrored (r : Registry) : Prop where
  precedences_eq : r.grammar.precedences = r.operators.mapValues Operator.precedence
  positive : ∀ e ∈ r.operators, 1 ≤ e.2.precedence

theorem mirrored_empty : empty.Mirrored where
  precedences_eq := rfl
  positive := by simp [empty]

section Mirrored
variable {r : Registry}

theorem Mirrored.insertTransform (h : r.Mirrored) (name : String) (t : Transform)
    (rule : Option SubjectRule) : (r.insertTransform name t rule).Mirrored where
  precedences_eq := h.precedences_eq
  positive := h.positive

theorem Mirrored.insertOperator (h : r.Mirrored) (token : String) {n : Nat} (hn : 1 ≤ n)
    (operation : Operation) : (r.insertOperator token n operation).Mirrored where
  precedences_eq := by
    simp only [Registry.insertOperator, Grammar.insert]
    rw [Table.mapValues_insert, h.precedences_eq]
  positive := by
    intro e he
    cases Table.mem_insert he with
    | inl heq =>
      rw [heq]
      exact hn
    | inr he => exact h.positive e he

theorem mirrored_operatorsOnly : operatorsOnly.Mirrored := by
  have hpositive : ∀ o ∈ standardOperators, 1 ≤ o.2.1 := by simp [standardOperators]
  exact List.foldlRecOn standardOperators _ mirrored_empty fun r h o ho =>
    h.insertOperator o.1 (hpositive o ho) o.2.2

theorem mirrored_standard : standard.Mirrored :=
  List.foldlRecOn standardTransforms _ mirrored_operatorsOnly fun _ h t _ =>
    h.insertTransform t.1 t.2 none

theorem Built.mirrored (h : r.Built) : r.Mirrored := by
  induction h with
  | empty => exact mirrored_empty
  | operatorsOnly => exact mirrored_operatorsOnly
  | standard => exact mirrored_standard
  | transform _ hr ih =>
    obtain ⟨-, rfl⟩ := registerTransform_eq_ok.mp hr
    exact ih.insertTransform _ _ _
  | validatedTransform _ hr ih =>
    obtain ⟨-, rfl⟩ := registerValidatedTransform_eq_ok.mp hr
    exact ih.insertTransform _ _ _
  | operator _ hr ih =>
    obtain ⟨-, hn, rfl⟩ := registerOperator_eq_ok.mp hr
    exact ih.insertOperator _ (Nat.one_le_iff_ne_zero.mpr hn) _

theorem Mirrored.precedence?_eq (h : r.Mirrored) (token : String) :
    r.grammar.precedence? token = (r.operator? token).map Operator.precedence := by
  rw [Grammar.precedence?, h.precedences_eq, Table.find?_mapValues]
  rfl

end Mirrored

/-- What the three places say of each other. -/
structure Represented (r : Registry) : Prop extends Mirrored r where
  precedence?_eq : ∀ token,
    r.grammar.precedence? token = (r.operator? token).map Operator.precedence
  mem_symbols : ∀ token, token ∈ r.grammar.symbols ↔
    r.hasOperator token = true ∧ Text.isName token.toList = false
  nodup_symbols : r.grammar.symbols.Nodup
  sorted_symbols : r.grammar.symbols.Pairwise fun a b =>
    b.utf8ByteSize < a.utf8ByteSize ∨ a.utf8ByteSize = b.utf8ByteSize ∧ a < b
  symbol_ne : ∀ symbol ∈ r.grammar.symbols,
    symbol ≠ "" ∧ symbol ≠ "|" ∧ (symbol.toList.head? = some '!' → symbol = "!=")

theorem Built.mem_symbols {r : Registry} (h : r.Built) (token : String) :
    token ∈ r.grammar.symbols ↔ r.hasOperator token = true ∧ Text.isName token.toList = false := by
  have hknown : (r.grammar.precedence? token).isSome = r.hasOperator token := by
    rw [h.mirrored.precedence?_eq, Option.isSome_map]
    rfl
  rw [h.sound.mem_symbols, hknown, Grammar.isWord_eq_isName]

theorem symbol_ne_of_admitted {symbol : String} (hcheck : checkOperatorToken symbol = .ok ())
    (hword : Grammar.isWord symbol = false) :
    symbol ≠ "" ∧ symbol ≠ "|" ∧ (symbol.toList.head? = some '!' → symbol = "!=") := by
  obtain ⟨hempty, hw | ⟨hhides, hpipe, -⟩⟩ := Grammar.checkOperatorToken_eq_ok.mp hcheck
  · rw [hword] at hw
    cases hw
  · refine ⟨hempty, hpipe, fun hbang => ?_⟩
    simpa [hidesNegation, hbang] using hhides

theorem Built.represented {r : Registry} (h : r.Built) : r.Represented where
  toMirrored := h.mirrored
  precedence?_eq := h.mirrored.precedence?_eq
  mem_symbols := h.mem_symbols
  nodup_symbols := h.sound.nodup_symbols
  sorted_symbols := h.sound.sorted.imp Grammar.symbolBefore_iff.mp
  symbol_ne symbol hs := by
    obtain ⟨hknown, hword⟩ := (h.sound.mem_symbols symbol).mp hs
    obtain ⟨n, hn⟩ := Option.isSome_iff_exists.mp hknown
    exact symbol_ne_of_admitted (h.sound.admitted symbol n hn) hword

/-- Which calls led to the operators makes no difference to the grammar. -/
theorem Built.grammar_eq {r r' : Registry} (h : r.Built) (h' : r'.Built)
    (hsame : ∀ token, (r.operator? token).map Operator.precedence =
      (r'.operator? token).map Operator.precedence) : r.grammar = r'.grammar := by
  refine h.sound.eq_of_precedence? h'.sound fun token => ?_
  rw [h.mirrored.precedence?_eq, h'.mirrored.precedence?_eq, hsame]

/-- The three places are in step after any calls, a refused call leaves the registry as it was, and
the grammar depends on nothing but the precedences that the operators ended up with. -/
theorem represented_after (b b' : Base) (calls calls' : List Registration) :
    (b.after calls).Represented ∧
      (∀ call : Registration,
        (∃ r, call.register (b.after calls) = .ok r ∧ call.perform (b.after calls) = .ok () r) ∨
        (∃ e, call.register (b.after calls) = .error e ∧
          call.perform (b.after calls) = .error e (b.after calls))) ∧
      ((∀ token, ((b.after calls).operator? token).map Operator.precedence =
          ((b'.after calls').operator? token).map Operator.precedence) →
        (b.after calls).grammar = (b'.after calls').grammar) := by
  refine ⟨(built_after b calls).represented, ?_, (built_after b calls).grammar_eq (built_after b' calls')⟩
  intro call
  rw [call.perform_eq]
  cases call.register (b.after calls) with
  | ok r => exact .inl ⟨r, rfl, rfl⟩
  | error e => exact .inr ⟨e, rfl, rfl⟩

/-- `intersects` registered and replaced, and between the two a symbol that is refused. -/
def intersectsReplaced : List Registration :=
  [.operator "intersects" 5 Operation.equal,
   .operator "!~" 20 Operation.equal,
   .operator "intersects" 20 Operation.intersects]

theorem represented_after_intersects :
    (∀ token, ((Base.operatorsOnly.after intersectsReplaced).operator? token).map
        Operator.precedence = (((Base.form .blank).after []).operator? token).map
          Operator.precedence) ∧
      (Base.operatorsOnly.after intersectsReplaced).grammar =
        ((Base.form .blank).after []).grammar := by
  have hentries : (Base.operatorsOnly.after intersectsReplaced).operators.mapValues
      Operator.precedence = ((Base.form .blank).after []).operators.mapValues
        Operator.precedence := rfl
  have hsame : ∀ token, ((Base.operatorsOnly.after intersectsReplaced).operator? token).map
      Operator.precedence = (((Base.form .blank).after []).operator? token).map
        Operator.precedence := by
    intro token
    rw [operator?, operator?, ← Table.find?_mapValues, ← Table.find?_mapValues, hentries]
  exact ⟨hsame, (represented_after .operatorsOnly (.form .blank) intersectsReplaced []).2.2 hsame⟩

end PipeExpr.Registry
