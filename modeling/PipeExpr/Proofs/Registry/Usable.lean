import PipeExpr.Proofs.Parser.Names
import PipeExpr.Proofs.Registry.Represented

/-!
What a registered name can be used for. An operator is meant to stand between two operands and a
transform behind a pipe. A registry admits the keywords too, and these are never read as names.
-/
namespace PipeExpr.Registry

namespace Registration

def name : Registration → String
  | .transform name _ => name
  | .validatedTransform name _ _ => name
  | .operator token _ _ => token

/-- A text with the name in its place. -/
def usage : Registration → String
  | .transform name _ => "x|" ++ name
  | .validatedTransform name _ _ => "x|" ++ name
  | .operator token _ _ => "x " ++ token ++ " y"

def reading : Registration → Expr
  | .transform name _ => .transform name (.identifier "x") []
  | .validatedTransform name _ _ => .transform name (.identifier "x") []
  | .operator token _ _ => .binary token (.identifier "x") (.identifier "y")

/-- The name is that of a transform or an operator in the expression, whichever it is registered as. -/
def UsedIn (e : Expr) : Registration → Prop
  | .transform name _ => ∃ subject arguments, .transform name subject arguments ∈ e.nodes
  | .validatedTransform name _ _ => ∃ subject arguments, .transform name subject arguments ∈ e.nodes
  | .operator token _ _ => ∃ left right, .binary token left right ∈ e.nodes

theorem usedIn_reading (call : Registration) : call.UsedIn call.reading := by
  cases call with
  | transform name t => exact ⟨_, _, Expr.self_mem_nodes _⟩
  | validatedTransform name rule t => exact ⟨_, _, Expr.self_mem_nodes _⟩
  | operator token n f => exact ⟨_, _, Expr.self_mem_nodes _⟩

end Registration

theorem isName_of_checkTransformName {name : String} (h : checkTransformName name = .ok ()) :
    Text.isName name.toList = true := by
  unfold checkTransformName at h
  split at h
  · cases h
  · split at h
    · next hword => rwa [Grammar.isWord_eq_isName] at hword
    · cases h

section
variable {r r' : Registry} {call : Registration} {limit : Nat}

theorem Built.parse_usage (hr : r.Built) (h : call.register r = .ok r')
    (hkeyword : Keyword.ofText? call.name = none) (hlimit : 2 ≤ limit) :
    Expr.parse r'.grammar limit call.usage = .ok call.reading := by
  cases call with
  | transform name t =>
    obtain ⟨hcheck, rfl⟩ := registerTransform_eq_ok.mp h
    exact Expr.parse_piped hr.sound (isName_of_checkTransformName hcheck) hkeyword hlimit
  | validatedTransform name rule t =>
    obtain ⟨hcheck, rfl⟩ := registerValidatedTransform_eq_ok.mp h
    exact Expr.parse_piped hr.sound (isName_of_checkTransformName hcheck) hkeyword hlimit
  | operator token n f =>
    have hsound := (Built.operator hr h).sound
    obtain ⟨-, -, rfl⟩ := registerOperator_eq_ok.mp h
    refine Expr.parse_betweenNames hsound ?_ hkeyword hlimit
    rw [insertOperator, Grammar.precedence?_insert, if_pos rfl, Option.isSome_some]

theorem Built.keyword_of_parse (hr : r.Built) {text : String} {e : Expr}
    (h : Expr.parse r.grammar limit text = .ok e) (hused : call.UsedIn e) :
    Keyword.ofText? call.name = none := by
  cases call with
  | transform name t =>
    obtain ⟨subject, arguments, hnode⟩ := hused
    exact Expr.transform_not_keyword_of_parse hr.sound h hnode
  | validatedTransform name rule t =>
    obtain ⟨subject, arguments, hnode⟩ := hused
    exact Expr.transform_not_keyword_of_parse hr.sound h hnode
  | operator token n f =>
    obtain ⟨left, right, hnode⟩ := hused
    exact Expr.operator_not_keyword_of_parse hr.sound h hnode

end

/-- An admitted name is read in its place under every limit of at least two levels exactly if it is no
keyword. A keyword is admitted and can be used nowhere. -/
theorem usable_iff (b : Base) (calls : List Registration) (call : Registration) (r : Registry)
    (h : call.register (b.after calls) = .ok r) :
    ((∀ limit, 2 ≤ limit → Expr.parse r.grammar limit call.usage = .ok call.reading) ↔
        Keyword.ofText? call.name = none) ∧
      (Keyword.ofText? call.name ≠ none → ∀ limit text e,
        Expr.parse r.grammar limit text = .ok e → ¬call.UsedIn e) := by
  have hbuilt := built_after b calls
  have hbuilt' : r.Built := Registration.after_of_ok h ▸ hbuilt.after call
  refine ⟨⟨?_, ?_⟩, ?_⟩
  · intro hreads
    exact hbuilt'.keyword_of_parse (hreads 2 (Nat.le_refl 2)) call.usedIn_reading
  · intro hkeyword limit hlimit
    exact hbuilt.parse_usage h hkeyword hlimit
  · intro hkeyword limit text e hparse hused
    exact hkeyword (hbuilt'.keyword_of_parse hparse hused)

theorem usable_matching : ∃ r,
    Registration.register (.operator "~=" 20 Operation.equal) (Base.standard.after []) = .ok r ∧
      ∀ limit, 2 ≤ limit → Expr.parse r.grammar limit "x ~= y" =
        .ok (.binary "~=" (.identifier "x") (.identifier "y")) := by
  have h : Registration.register (.operator "~=" 20 Operation.equal) (Base.standard.after []) =
      .ok ((Base.standard.after []).insertOperator "~=" 20 (.function Operation.equal)) :=
    registerOperator_eq_ok.mpr ⟨rfl, by decide, rfl⟩
  exact ⟨_, h, (usable_iff .standard [] _ _ h).1.mpr rfl⟩

/-- The transform `true` and the operator `null` are admitted, and neither is read in its place. -/
theorem keywords_not_usable :
    (∃ r, Registration.register (.transform "true" (.silent fun v _ => .ok v)) .standard = .ok r ∧
      ∀ limit, Expr.parse r.grammar limit "x|true" ≠
        .ok (.transform "true" (.identifier "x") [])) ∧
    ∃ r, Registration.register (.operator "null" 20 fun a b => .ok (.array [a, b])) .standard =
        .ok r ∧
      ∀ limit, Expr.parse r.grammar limit "x null y" ≠
        .ok (.binary "null" (.identifier "x") (.identifier "y")) := by
  constructor
  · have hadmitted : standard.registerTransform "true" (.silent fun v _ => .ok v) =
        .ok (standard.insertTransform "true" (.silent fun v _ => .ok v) none) :=
      registerTransform_eq_ok.mpr ⟨rfl, rfl⟩
    refine ⟨_, hadmitted, ?_⟩
    intro limit h
    have hkeyword := Expr.transform_not_keyword_of_parse Built.standard.sound h
      (Expr.self_mem_nodes _)
    cases hkeyword
  · have hadmitted : standard.registerOperator "null" 20 (fun a b => .ok (.array [a, b])) =
        .ok (standard.insertOperator "null" 20 (.function fun a b => .ok (.array [a, b]))) :=
      registerOperator_eq_ok.mpr ⟨rfl, by decide, rfl⟩
    refine ⟨_, hadmitted, ?_⟩
    intro limit h
    have hkeyword := Expr.operator_not_keyword_of_parse (Built.operator .standard hadmitted).sound h
      (Expr.self_mem_nodes _)
    cases hkeyword

end PipeExpr.Registry
