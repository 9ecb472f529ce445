import PipeExpr.Expr.Evaluation
import PipeExpr.Form.Engine
import PipeExpr.Workflow.Engine

/-!
What registered functions answer. Those of the library fail only on values that do not fit, and
`answer` on paths that lead to no answer. So none of them answers with an error that can be told from
an expression and the names in its context, before any value is known.
-/
namespace PipeExpr

/-- The error is one of the text, of its names or of its depth. -/
def Error.isForeseeable : Error → Bool
  | .malformed .. | .unknownTransform _ | .unknownOperator _ | .undefinedIdentifier _
  | .depthExceeded _ => true
  | _ => false

/-- The values do not fit, or cannot be gone on with. -/
def Error.isOfValues : Error → Bool
  | .mismatch _ | .failed _ => true
  | _ => false

theorem Error.not_isForeseeable_of_isOfValues {e : Error} (h : e.isOfValues = true) :
    e.isForeseeable = false := by
  cases e with
  | mismatch | failed => rfl
  | _ => cases h

theorem Error.not_isForeseeable_of_isDomain {e : Error} (h : e.isDomain = true) :
    e.isForeseeable = false := by
  cases e with
  | questionNotFound | invalidTraversal => rfl
  | _ => cases h

theorem Error.not_isDomain_of_isOfValues {e : Error} (h : e.isOfValues = true) :
    e.isDomain = false := by
  cases e with
  | mismatch | failed => rfl
  | _ => cases h

/-- A result, or an error that only values can cause. -/
def Unforeseen {α : Type} (r : Except Error α) : Prop :=
  ∀ e, r = .error e → e.isForeseeable = false

def FailsWith {α : Type} (P : Error → Prop) (r : Except Error α) : Prop := ∀ e, r = .error e → P e

abbrev FailsOnValues {α : Type} (r : Except Error α) : Prop := FailsWith (·.isOfValues = true) r

section FailsWith
variable {α β : Type} {P Q : Error → Prop}

theorem failsWith_ok (a : α) : FailsWith P (.ok a) := by
  intro e he
  cases he

theorem failsWith_error {e : Error} (h : P e) : FailsWith P (.error e : Except Error α) := by
  intro e' he
  cases he
  exact h

theorem FailsWith.mono {r : Except Error α} (h : FailsWith P r) (hpq : ∀ e, P e → Q e) :
    FailsWith Q r :=
  fun e he => hpq e (h e he)

theorem FailsWith.bind {r : Except Error α} {f : α → Except Error β} (h : FailsWith P r)
    (hf : ∀ a, FailsWith P (f a)) : FailsWith P (r >>= f) := by
  cases r with
  | error e => exact failsWith_error (h e rfl)
  | ok a => exact hf a

theorem FailsWith.map {r : Except Error α} (h : FailsWith P r) (f : α → β) :
    FailsWith P (r.map f) := by
  cases r with
  | error e => exact failsWith_error (h e rfl)
  | ok a => exact failsWith_ok (f a)

end FailsWith

theorem Expr.failsWith_negated (v : Value) :
    FailsWith (fun e => ∃ kind, e = .mismatch (.negation kind)) (negated v) := by
  cases v with
  | number x => exact failsWith_ok _
  | _ => exact failsWith_error ⟨_, rfl⟩

theorem Value.failsWith_member (v key : Value) :
    FailsWith (fun e => ∃ shown kind, e = .mismatch (.property shown kind)) (v.member key) := by
  unfold member
  split
  case h_4 => exact failsWith_error ⟨_, _, rfl⟩
  all_goals exact failsWith_ok _

namespace Operation

theorem failsOnValues_operands (operator : String) (a b : Value) :
    FailsOnValues (operands operator a b) := by
  unfold operands
  split
  · exact failsWith_ok _
  · exact failsWith_error rfl

theorem failsOnValues_add (a b : Value) : FailsOnValues (add a b) := by
  unfold add
  split
  · exact failsWith_ok _
  · exact (failsOnValues_operands "+" _ _).map _

theorem failsOnValues_quotient (operator : String) (cause : Failure) (f : Float → Float → Float)
    (a b : Value) : FailsOnValues (do
      let (x, y) ← operands operator a b
      if y == 0.0 then throw (.failed cause)
      return Value.number (f x y)) := by
  refine (failsOnValues_operands operator a b).bind ?_
  intro numbers
  obtain ⟨x, y⟩ := numbers
  dsimp only
  split
  · exact (failsWith_error (rfl : (Error.failed cause).isOfValues = true)).bind fun _ =>
      failsWith_ok _
  · exact failsWith_ok _

theorem failsOnValues_compare (operator : String) (holds : Ordering → Bool) (a b : Value) :
    FailsOnValues (compare operator holds a b) := by
  unfold compare
  split
  · exact failsWith_ok _
  · exact failsWith_error rfl

theorem failsOnValues_contains (a b : Value) : FailsOnValues (contains a b) := by
  unfold contains
  split
  case h_5 => exact failsWith_error rfl
  all_goals exact failsWith_ok _

theorem failsOnValues_arrayItems (v : Value) : FailsOnValues (arrayItems v) := by
  unfold arrayItems
  split
  case h_3 => exact failsWith_error rfl
  all_goals exact failsWith_ok _

theorem failsOnValues_intersects (a b : Value) : FailsOnValues (intersects a b) := by
  unfold intersects
  refine (failsOnValues_arrayItems a).bind ?_
  intro xs
  refine (failsOnValues_arrayItems b).bind ?_
  intro ys
  exact failsWith_ok _

end Operation

namespace Transform

theorem failsOnValues_numberItems (name : String) (items : List Value) :
    FailsOnValues (numberItems name items) := by
  induction items with
  | nil => exact failsWith_ok _
  | cons v rest ih =>
    unfold numberItems
    split
    · exact failsWith_ok _
    · next h => cases h; exact ih
    · next h => cases h; exact ih.map _
    · exact failsWith_error rfl

theorem failsOnValues_numbers? (name : String) (v : Value) : FailsOnValues (numbers? name v) := by
  unfold numbers?
  split
  · exact failsWith_ok _
  · exact (failsOnValues_numberItems name _).map _
  · exact failsWith_error rfl

theorem failsOnValues_mapNumber (name : String) (f : Float → Float) (v : Value) :
    FailsOnValues (mapNumber name f v) := by
  have hnumber : FailsOnValues (number? name v) := by
    unfold number?
    split
    case h_3 => exact failsWith_error rfl
    all_goals exact failsWith_ok _
  exact hnumber.map _

theorem failsOnValues_round (subject : Value) (arguments : List Value) :
    FailsOnValues (round subject arguments) := by
  have hdigits : FailsOnValues (digitCount arguments) := by
    unfold digitCount
    split
    · exact failsWith_ok _
    · split
      · exact failsWith_ok _
      · exact failsWith_error rfl
  exact hdigits.bind fun k => failsOnValues_mapNumber "round" _ subject

theorem failsOnValues_count (subject : Value) (arguments : List Value) :
    FailsOnValues (count subject arguments) := by
  have hsize : FailsOnValues (size subject) := by
    unfold size
    split
    case h_5 => exact failsWith_error rfl
    all_goals exact failsWith_ok _
  exact hsize.map _

theorem failsOnValues_mapKeys (arguments : List Value) : FailsOnValues (mapKeys arguments) := by
  induction arguments with
  | nil => exact failsWith_ok _
  | cons v rest ih =>
    unfold mapKeys
    split
    · exact failsWith_ok _
    · next h => cases h; exact ih.map _
    · exact failsWith_error rfl

theorem failsOnValues_mapby (subject : Value) (arguments : List Value) :
    FailsOnValues (mapby subject arguments) := by
  unfold mapby
  split
  · exact failsWith_ok _
  · refine (failsOnValues_mapKeys arguments).bind ?_
    intro keys
    split
    · exact failsWith_error rfl
    · exact failsWith_ok _
    · exact failsWith_ok _
  · exact failsWith_error rfl

theorem failsOnValues_task (subject : Value) (arguments : List Value) :
    FailsOnValues (task subject arguments) := by
  unfold task
  split
  · exact failsWith_ok _
  · exact failsWith_error rfl

theorem failsOnValues_slugList (name : String) (subject : Value) (arguments : List Value) :
    FailsOnValues (slugList name subject arguments) := by
  unfold slugList
  split
  · exact failsWith_ok _
  · exact failsWith_error rfl

end Transform

namespace Document

theorem resolveHere_isDomain (d : Document) (slug : String) (path : List String) :
    FailsWith (·.isDomain = true) (d.resolveHere slug path) := by
  unfold resolveHere
  split
  · exact failsWith_error rfl
  · split
    · exact failsWith_ok _
    · exact failsWith_error rfl

theorem resolve_isDomain (d : Document) (slug : String) :
    FailsWith (·.isDomain = true) (d.resolve slug) := by
  unfold resolve
  split
  · split
    · exact resolveHere_isDomain _ _ _
    · exact failsWith_error rfl
  · exact resolveHere_isDomain _ _ _
  · exact resolveHere_isDomain _ _ _

theorem unforeseen_answer (d : Document) (subject : Value) (arguments : List Value) :
    Unforeseen (d.answerTransform.apply subject arguments) := by
  unfold answerTransform Transform.silent
  dsimp only
  split
  · exact failsWith_error rfl
  · have hresolve := (d.resolve_isDomain ‹String›).mono fun _ => Error.not_isForeseeable_of_isDomain
    refine hresolve.bind ?_
    intro v
    split
    · exact failsWith_ok _
    · exact failsWith_ok _

/-- The call asks for an answer, and gets an error. -/
def Misses (d : Document) (e : Error) : Call → Prop
  | .transform name _ _ subject arguments =>
    name = "answer" ∧ d.answerTransform.apply subject arguments = .error e
  | .operator .. => False

end Document

namespace Registry

/-- What a call was answered, if its function is registered. -/
def answer? (r : Registry) : Call → Option (Except Error Value)
  | .transform name _ _ subject arguments =>
    (r.transform? name).map (·.transform.apply subject arguments)
  | .operator token left right =>
    match r.operator? token with
    | some ⟨_, .function f⟩ => some (f left right)
    | _ => none

/-- No registered function answers with a foreseeable error. -/
def WellBehaved (r : Registry) : Prop :=
  ∀ call answer, r.answer? call = some answer → Unforeseen answer

/-- A call that is answered with an error is one for which the error is of a kind. -/
def FailsWith (P : Call → Error → Prop) (r : Registry) : Prop :=
  ∀ call e, r.answer? call = some (.error e) → P call e

section FailsWith
variable {P Q : Call → Error → Prop} {r : Registry}

theorem failsWith_empty : empty.FailsWith P := by
  intro call e h
  cases call <;> cases h

theorem FailsWith.mono (h : r.FailsWith P) (hpq : ∀ call e, P call e → Q call e) : r.FailsWith Q :=
  fun call e he => hpq call e (h call e he)

theorem FailsWith.wellBehaved (h : r.FailsWith fun _ e => e.isForeseeable = false) :
    r.WellBehaved := by
  intro call answer hanswer e he
  subst he
  exact h call e hanswer

theorem FailsWith.insertTransform (h : r.FailsWith P) (name : String) {t : Transform}
    (ht : ∀ subjectAt argumentsAt subject arguments,
      PipeExpr.FailsWith (P (.transform name subjectAt argumentsAt subject arguments))
        (t.apply subject arguments))
    (rule : Option SubjectRule) : (r.insertTransform name t rule).FailsWith P := by
  intro call e hanswer
  cases call with
  | operator token left right => exact h (.operator token left right) e hanswer
  | transform other subjectAt argumentsAt subject arguments =>
    rw [answer?, transform?_insertTransform] at hanswer
    by_cases hname : other = name
    · rw [if_pos hname] at hanswer
      subst hname
      exact ht subjectAt argumentsAt subject arguments e (Option.some.inj hanswer)
    · rw [if_neg hname] at hanswer
      exact h (.transform other subjectAt argumentsAt subject arguments) e hanswer

theorem FailsWith.insertOperator (h : r.FailsWith P) (token : String) (n : Nat)
    {operation : Operation}
    (ho : ∀ f, operation = .function f → ∀ a b,
      PipeExpr.FailsWith (P (.operator token a b)) (f a b)) :
    (r.insertOperator token n operation).FailsWith P := by
  intro call e hanswer
  cases call with
  | transform name subjectAt argumentsAt subject arguments =>
    exact h (.transform name subjectAt argumentsAt subject arguments) e hanswer
  | operator other left right =>
    rw [answer?, operator?_insertOperator] at hanswer
    by_cases htoken : other = token
    · rw [if_pos htoken] at hanswer
      subst htoken
      cases operation with
      | function f => exact ho f rfl left right e (Option.some.inj hanswer)
      | conjunction => cases hanswer
      | disjunction => cases hanswer
    · rw [if_neg htoken] at hanswer
      exact h (.operator other left right) e hanswer

end FailsWith

theorem failsOnValues_standardOperators : ∀ o ∈ standardOperators,
    ∀ f, o.2.2 = .function f → ∀ a b, FailsOnValues (f a b) := by
  simp only [standardOperators, List.forall_mem_cons, reduceCtorEq, false_implies, implies_true,
    true_and, Operation.function.injEq, forall_eq']
  refine ⟨fun _ _ => failsWith_ok _, fun _ _ => failsWith_ok _,
    Operation.failsOnValues_compare "<" _, Operation.failsOnValues_compare "<=" _,
    Operation.failsOnValues_compare ">" _, Operation.failsOnValues_compare ">=" _,
    Operation.failsOnValues_contains, Operation.failsOnValues_add,
    fun _ _ => (Operation.failsOnValues_operands "-" _ _).map _,
    fun _ _ => (Operation.failsOnValues_operands "*" _ _).map _,
    Operation.failsOnValues_quotient "/" .divisionByZero _,
    Operation.failsOnValues_quotient "//" .divisionByZero fun x y => (x / y).floor,
    Operation.failsOnValues_quotient "%" .moduloByZero fun x y => x - y * (x / y).floor,
    fun _ _ => (Operation.failsOnValues_operands "^" _ _).map _, ?_⟩
  simp

theorem failsOnValues_standardTransforms : ∀ t ∈ standardTransforms,
    ∀ subject arguments, FailsOnValues (t.2.apply subject arguments) := by
  simp only [standardTransforms, List.forall_mem_cons]
  refine ⟨fun _ _ => failsWith_ok _, fun v _ => (Transform.failsOnValues_numbers? "min" v).map _,
    fun v _ => (Transform.failsOnValues_numbers? "max" v).map _,
    fun v _ => (Transform.failsOnValues_numbers? "sum" v).map _, Transform.failsOnValues_round,
    fun v _ => Transform.failsOnValues_mapNumber "ceil" _ v,
    fun v _ => Transform.failsOnValues_mapNumber "floor" _ v, Transform.failsOnValues_count,
    fun _ _ => failsWith_ok _, ?_⟩
  simp

theorem failsWith_standard : standard.FailsWith fun _ e => e.isOfValues = true := by
  have hoperators : operatorsOnly.FailsWith fun _ e => e.isOfValues = true :=
    List.foldlRecOn standardOperators _ failsWith_empty fun _ hr o ho =>
      hr.insertOperator o.1 o.2.1 (failsOnValues_standardOperators o ho)
  exact List.foldlRecOn standardTransforms _ hoperators fun _ hr t ht =>
    hr.insertTransform t.1 (fun _ _ => failsOnValues_standardTransforms t ht) none

theorem failsWith_form (d : Document) :
    (form d).FailsWith fun call e => e.isOfValues = true ∨ d.Misses e call := by
  have hstandard := failsWith_standard.mono fun call e he =>
    (Or.inl he : e.isOfValues = true ∨ d.Misses e call)
  have hanswer := hstandard.insertTransform "answer"
    (fun _ _ _ _ e he => .inr ⟨rfl, he⟩) (some .stringLiteral)
  have hmapby := hanswer.insertTransform (t := .silent Transform.mapby) "mapby"
    (fun _ _ subject arguments => (Transform.failsOnValues_mapby subject arguments).mono
      fun _ => .inl) none
  refine hmapby.insertOperator "intersects" 20 ?_
  rintro _ ⟨⟩ a b
  exact (Operation.failsOnValues_intersects a b).mono fun _ => .inl

theorem failsWith_slugList {r : Registry} (h : r.FailsWith fun _ e => e.isOfValues = true)
    (name : String) :
    (r.insertTransform name (.silent (Transform.slugList name)) (some .stringArrayLiteral)).FailsWith
      fun _ e => e.isOfValues = true :=
  h.insertTransform name (fun _ _ => Transform.failsOnValues_slugList name) _

theorem failsWith_flow : flow.FailsWith fun _ e => e.isOfValues = true :=
  failsWith_slugList (failsWith_standard.insertTransform (t := .silent Transform.task) "task"
    (fun _ _ => Transform.failsOnValues_task) _) "tasks"

theorem failsWith_group : group.FailsWith fun _ e => e.isOfValues = true :=
  failsWith_slugList failsWith_standard "groups"

theorem wellBehaved_of_failsOnValues {r : Registry}
    (h : r.FailsWith fun _ e => e.isOfValues = true) : r.WellBehaved :=
  (h.mono fun _ _ => Error.not_isForeseeable_of_isOfValues).wellBehaved

theorem wellBehaved_standard : standard.WellBehaved :=
  wellBehaved_of_failsOnValues failsWith_standard

theorem wellBehaved_form (d : Document) : (form d).WellBehaved := by
  refine ((failsWith_form d).mono ?_).wellBehaved
  intro call e h
  cases h with
  | inl hvalues => exact Error.not_isForeseeable_of_isOfValues hvalues
  | inr hmisses =>
    cases call with
    | operator => exact hmisses.elim
    | transform name subjectAt argumentsAt subject arguments =>
      exact d.unforeseen_answer subject arguments e hmisses.2

theorem wellBehaved_flow : flow.WellBehaved := wellBehaved_of_failsOnValues failsWith_flow

theorem wellBehaved_group : group.WellBehaved := wellBehaved_of_failsOnValues failsWith_group

end Registry

section Outside

/-- A transform from outside, which refuses in words of its own. -/
def Transform.double : Transform := .silent fun subject _ =>
  match subject with
  | .number x => .ok (.number (x * 2))
  | _ => .error (.mismatch (.reason "double expects a number"))

theorem Transform.failsOnValues_double (subject : Value) (arguments : List Value) :
    FailsOnValues (Transform.double.apply subject arguments) := by
  unfold Transform.double Transform.silent
  dsimp only
  split
  · exact failsWith_ok _
  · exact failsWith_error rfl

namespace Registry

def doubling : Registry := standard.insertTransform "double" .double none

theorem wellBehaved_doubling : doubling.WellBehaved :=
  wellBehaved_of_failsOnValues
    (failsWith_standard.insertTransform "double" (fun _ _ => Transform.failsOnValues_double) none)

end Registry
end Outside
end PipeExpr
