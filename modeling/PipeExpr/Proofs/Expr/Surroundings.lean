import PipeExpr.Proofs.Expr.Limits
import PipeExpr.Proofs.Expr.Steps
import PipeExpr.Proofs.Registry.Conduct

/-!
Expressions in a surrounding. What cannot be told apart by evaluating it, and is looked into by no path,
cannot be told apart in any surrounding. So the branch of a decision that is not taken is unnoticed
wherever the decision stands.
-/
namespace PipeExpr

/-- What is called with what, wherever it is written. -/
inductive Application where
  | transform (name : String) (subject : Value) (arguments : List Value)
  | operator (token : String) (left right : Value)

def Call.application : Call → Application
  | .transform name _ _ subject arguments => .transform name subject arguments
  | .operator token left right => .operator token left right

namespace Traced
variable {α β : Type}

/-- The same outcome after the same calls. -/
def Matches (t u : Traced Call α) : Prop :=
  t.outcome = u.outcome ∧ t.events.map Call.application = u.events.map Call.application

theorem stepwise_matches : Stepwise fun α (t u : Traced Call α) => Matches t u where
  refl _ := ⟨rfl, rfl⟩
  bind := by
    rintro α β t u f g ⟨houtcome, hevents⟩ h
    cases ht : t.outcome with
    | error e =>
      rw [bind_of_error ht, bind_of_error (houtcome.symm.trans ht)]
      exact ⟨rfl, hevents⟩
    | ok a =>
      rw [bind_of_ok ht, bind_of_ok (houtcome.symm.trans ht)]
      obtain ⟨houtcome', hevents'⟩ := h a
      exact ⟨houtcome', by rw [List.map_append, List.map_append, hevents, hevents']⟩

/-- A call does not tell where it is written. -/
theorem matches_transform {name : String} {subjectAt subjectAt' : Expr}
    {argumentsAt argumentsAt' : List Expr} {subject : Value} {arguments : List Value}
    {answer : Except Error Value} :
    Matches (emit (.transform name subjectAt argumentsAt subject arguments) >>= fun _ =>
        ofExcept answer)
      (emit (.transform name subjectAt' argumentsAt' subject arguments) >>= fun _ =>
        ofExcept answer) := ⟨rfl, rfl⟩

theorem bind_congr_of_ok {ε : Type} {t : Traced ε α} {f g : α → Traced ε β}
    (h : ∀ a, t.outcome = .ok a → f a = g a) : t >>= f = t >>= g := by
  cases ht : t.outcome with
  | error e => rw [bind_of_error ht, bind_of_error ht]
  | ok a => rw [bind_of_ok ht, bind_of_ok ht, h a ht]

end Traced

/-- A node with a hole in the place of one of its parts. -/
inductive Frame where
  | inTarget (property : Expr)
  | inProperty (target : Expr)
  | inNot
  | inNegate
  | inLeft (token : String) (right : Expr)
  | inRight (token : String) (left : Expr)
  | inTest (consequent alternate : Expr)
  | inConsequent (test alternate : Expr)
  | inAlternate (test consequent : Expr)
  | inSubject (name : String) (arguments : List Expr)
  | inArgument (name : String) (subject : Expr) (before after : List Expr)
  | inItem (before after : List Expr)
  | inEntry (before : List (String × Expr)) (key : String) (after : List (String × Expr))

def Frame.fill (e : Expr) : Frame → Expr
  | .inTarget property => .member e property
  | .inProperty target => .member target e
  | .inNot => .not e
  | .inNegate => .negate e
  | .inLeft token right => .binary token e right
  | .inRight token left => .binary token left e
  | .inTest consequent alternate => .conditional e consequent alternate
  | .inConsequent test alternate => .conditional test e alternate
  | .inAlternate test consequent => .conditional test consequent e
  | .inSubject name arguments => .transform name e arguments
  | .inArgument name subject before after => .transform name subject (before ++ e :: after)
  | .inItem before after => .array (before ++ e :: after)
  | .inEntry before key after => .object (before ++ (key, e) :: after)

/-- An expression with a hole: the nodes around the hole, from the inside to the outside. -/
abbrev Surrounding := List Frame

def Surrounding.fill (e : Expr) : Surrounding → Expr
  | [] => e
  | frame :: outer => fill (frame.fill e) outer

theorem Surrounding.fill_append (e : Expr) (inner outer : Surrounding) :
    Surrounding.fill e (inner ++ outer) = Surrounding.fill (Surrounding.fill e inner) outer := by
  induction inner generalizing e with
  | nil => rfl
  | cons frame rest ih => exact ih (frame.fill e)

namespace Expr
open Traced

theorem exists_frame {e part : Expr} (h : part ∈ e.parts) : ∃ frame : Frame, frame.fill part = e := by
  cases e with
  | literal | identifier => cases h
  | not => exact ⟨.inNot, by rw [Frame.fill, List.mem_singleton.mp h]⟩
  | negate => exact ⟨.inNegate, by rw [Frame.fill, List.mem_singleton.mp h]⟩
  | member target property =>
    obtain rfl | rfl : part = target ∨ part = property := by simpa [parts] using h
    · exact ⟨.inTarget property, rfl⟩
    · exact ⟨.inProperty target, rfl⟩
  | binary token left right =>
    obtain rfl | rfl : part = left ∨ part = right := by simpa [parts] using h
    · exact ⟨.inLeft token right, rfl⟩
    · exact ⟨.inRight token left, rfl⟩
  | conditional test consequent alternate =>
    obtain rfl | rfl | rfl : part = test ∨ part = consequent ∨ part = alternate := by
      simpa [parts] using h
    · exact ⟨.inTest consequent alternate, rfl⟩
    · exact ⟨.inConsequent test alternate, rfl⟩
    · exact ⟨.inAlternate test consequent, rfl⟩
  | transform name subject arguments =>
    cases List.mem_cons.mp h with
    | inl hsubject => exact ⟨.inSubject name arguments, by rw [Frame.fill, hsubject]⟩
    | inr hargument =>
      obtain ⟨before, after, rfl⟩ := List.append_of_mem hargument
      exact ⟨.inArgument name subject before after, rfl⟩
  | array items =>
    obtain ⟨before, after, rfl⟩ := List.append_of_mem h
    exact ⟨.inItem before after, rfl⟩
  | object entries =>
    obtain ⟨⟨key, e⟩, hentry, rfl⟩ := List.mem_map.mp h
    obtain ⟨before, after, rfl⟩ := List.append_of_mem hentry
    exact ⟨.inEntry before key after, rfl⟩

theorem exists_surrounding {e node : Expr} (h : node ∈ e.nodes) :
    ∃ c : Surrounding, c.fill node = e := by
  induction e using induction_parts with
  | h e ih =>
    rw [nodes_eq_cons] at h
    cases List.mem_cons.mp h with
    | inl hself => exact ⟨[], hself⟩
    | inr hinside =>
      obtain ⟨part, hpart, hnode⟩ := List.mem_flatMap.mp hinside
      obtain ⟨inner, hinner⟩ := ih part hpart hnode
      obtain ⟨frame, hframe⟩ := exists_frame hpart
      refine ⟨inner ++ [frame], ?_⟩
      rw [Surrounding.fill_append, hinner]
      exact hframe

/-- No path goes through the expression. -/
structure Detached (context : Context) (e : Expr) : Prop where
  pathValue?_eq : pathValue? context e = none
  not_literal : ∀ v, e ≠ .literal v

theorem Detached.target {context : Context} {e : Expr} (h : Detached context e) (property : Expr) :
    pathValue? context (.member e property) = none := by
  cases property with
  | literal key => rw [pathValue?, h.pathValue?_eq, Option.bind_none]
  | _ => rfl

theorem Detached.property {context : Context} {e : Expr} (h : Detached context e) (target : Expr) :
    pathValue? context (.member target e) = none := by
  cases e with
  | literal v => exact absurd rfl (h.not_literal v)
  | _ => rfl

theorem Detached.frame {context : Context} {e : Expr} (h : Detached context e) (frame : Frame) :
    Detached context (frame.fill e) := by
  cases frame with
  | inTarget property => exact ⟨h.target property, nofun⟩
  | inProperty target => exact ⟨h.property target, nofun⟩
  | _ => exact ⟨rfl, nofun⟩

/-- Neither an evaluation nor a path can tell two expressions apart. With the same levels they come to
the same, however many these are, so it does not matter how deep they stand. -/
structure Interchangeable (r : Registry) (context : Context) (limit : Nat) (e e' : Expr) : Prop where
  isMatch : ∀ levels, Matches (evaluateWithin r context limit levels e)
    (evaluateWithin r context limit levels e')
  left : Detached context e
  right : Detached context e'

section
variable {r : Registry} {context : Context} {limit : Nat} {e e' : Expr}

theorem matches_around {α β : Type} {f : α → Traced Call β} {a a' : α} (h : Matches (f a) (f a'))
    (before after : List α) :
    Matches (all f (before ++ a :: after)) (all f (before ++ a' :: after)) := by
  have hS := stepwise_matches
  induction before with
  | nil => exact hS.bind h fun b => hS.refl _
  | cons b rest ih => exact hS.bind (hS.refl _) fun v => hS.bind ih fun vs => hS.refl _

theorem matches_frame {levels : Nat} (h : Interchangeable r context limit e e') (frame : Frame) :
    Matches (evaluateWithin r context limit levels (frame.fill e))
      (evaluateWithin r context limit levels (frame.fill e')) := by
  have hS := stepwise_matches
  cases levels with
  | zero => exact hS.refl _
  | succ levels =>
    have hpart := h.isMatch levels
    cases frame with
    -- A path is looked for before the parts of a member are evaluated, and there is none.
    | inTarget property =>
      rw [Frame.fill, Frame.fill, evaluateWithin, evaluateWithin, h.left.target, h.right.target]
      exact hS.bind hpart fun v => hS.refl _
    | inProperty target =>
      rw [Frame.fill, Frame.fill, evaluateWithin, evaluateWithin, h.left.property, h.right.property]
      exact hS.bind (hS.refl _) fun v => hS.bind hpart fun key => hS.refl _
    | inNot => exact hS.bind hpart fun v => hS.refl _
    | inNegate => exact hS.bind hpart fun v => hS.refl _
    | inLeft token right =>
      rw [Frame.fill, Frame.fill, evaluateWithin, evaluateWithin]
      cases r.operator? token with
      | none => exact hS.refl _
      | some operator => exact hS.bind hpart fun a => hS.refl _
    | inRight token left =>
      rw [Frame.fill, Frame.fill, evaluateWithin, evaluateWithin]
      cases r.operator? token with
      | none => exact hS.refl _
      | some operator =>
        refine hS.bind (hS.refl _) fun a => ?_
        cases operator.operation with
        | function f => exact hS.bind hpart fun b => hS.refl _
        | conjunction =>
          dsimp only
          split
          · exact hpart
          · exact hS.refl _
        | disjunction =>
          dsimp only
          split
          · exact hS.refl _
          · exact hpart
    | inTest consequent alternate => exact hS.bind hpart fun v => hS.refl _
    | inConsequent test alternate =>
      refine hS.bind (hS.refl _) fun v => ?_
      split
      · exact hpart
      · exact hS.refl _
    | inAlternate test consequent =>
      refine hS.bind (hS.refl _) fun v => ?_
      split
      · exact hS.refl _
      · exact hpart
    | inSubject name arguments =>
      rw [Frame.fill, Frame.fill, evaluateWithin, evaluateWithin]
      cases r.transform? name with
      | none => exact hS.refl _
      | some registered =>
        exact hS.bind hpart fun v => hS.bind (hS.refl _) fun vs => matches_transform
    | inArgument name subject before after =>
      rw [Frame.fill, Frame.fill, evaluateWithin, evaluateWithin]
      cases r.transform? name with
      | none => exact hS.refl _
      | some registered =>
        exact hS.bind (hS.refl _) fun v => hS.bind (matches_around hpart before after) fun vs =>
          matches_transform
    | inItem before after =>
      exact hS.bind (matches_around hpart before after) fun vs => hS.refl _
    | inEntry before key after =>
      have hentry := hS.bind hpart fun v => hS.refl (done (key, v))
      exact hS.bind (matches_around hentry before after) fun fields => hS.refl _

theorem Interchangeable.of_eq
    (h : ∀ levels, evaluateWithin r context limit (levels + 1) e =
      evaluateWithin r context limit (levels + 1) e')
    (hl : Detached context e) (hr : Detached context e') :
    Interchangeable r context limit e e' := by
  refine ⟨fun levels => ?_, hl, hr⟩
  cases levels with
  | zero => exact stepwise_matches.refl _
  | succ levels =>
    rw [h levels]
    exact stepwise_matches.refl _

theorem Interchangeable.frame (h : Interchangeable r context limit e e') (frame : Frame) :
    Interchangeable r context limit (frame.fill e) (frame.fill e') :=
  ⟨fun _ => matches_frame h frame, h.left.frame frame, h.right.frame frame⟩

theorem Interchangeable.surround (h : Interchangeable r context limit e e') (c : Surrounding) :
    Interchangeable r context limit (c.fill e) (c.fill e') := by
  induction c generalizing e e' with
  | nil => exact h
  | cons frame outer ih => exact ih (h.frame frame)

end

section Decided
variable {r : Registry} {context : Context} {limit : Nat} {t : Expr} {v : Value}

theorem eq_of_levels {levels levels' : Nat} {w : Value}
    (hv : (evaluateWithin r context limit levels t).outcome = .ok v)
    (hw : (evaluateWithin r context limit levels' t).outcome = .ok w) : w = v := by
  cases Nat.le_total levels levels' with
  | inl hle =>
    have hv' := (reaches_evaluateWithin r context limit limit hle t).eq_of_ok hv
    exact Except.ok.inj (hw.symm.trans hv')
  | inr hle =>
    have hw' := (reaches_evaluateWithin r context limit limit hle t).eq_of_ok hw
    exact Except.ok.inj (hw'.symm.trans hv)

variable (r context limit t v) in
/-- The expression comes to the value, or to none, with any levels. -/
def ComesTo : Prop :=
  ∀ levels w, (evaluateWithin r context limit levels t).outcome = .ok w → w = v

section
variable (ht : ComesTo r context limit t v) (a b b' : Expr)
include ht

theorem ComesTo.consequent (hv : v.truthy = true) :
    Interchangeable r context limit (.conditional t a b) (.conditional t a b') := by
  refine .of_eq (fun levels => bind_congr_of_ok fun w hw => ?_) ⟨rfl, nofun⟩ ⟨rfl, nofun⟩
  rw [ht levels w hw, if_pos hv, if_pos hv]

theorem ComesTo.alternate (hv : v.truthy = false) :
    Interchangeable r context limit (.conditional t b a) (.conditional t b' a) := by
  refine .of_eq (fun levels => bind_congr_of_ok fun w hw => ?_) ⟨rfl, nofun⟩ ⟨rfl, nofun⟩
  have hfalse : ¬v.truthy = true := Bool.eq_false_iff.mp hv
  rw [ht levels w hw, if_neg hfalse, if_neg hfalse]

theorem ComesTo.disjunction (hv : v.truthy = true) {token : String} {n : Nat}
    (htoken : r.operator? token = some ⟨n, .disjunction⟩) :
    Interchangeable r context limit (.binary token t b) (.binary token t b') := by
  refine .of_eq (fun levels => ?_) ⟨rfl, nofun⟩ ⟨rfl, nofun⟩
  rw [evaluateWithin, evaluateWithin, htoken]
  refine bind_congr_of_ok fun w hw => ?_
  dsimp only
  rw [ht levels w hw, if_pos hv, if_pos hv]

theorem ComesTo.conjunction (hv : v.truthy = false) {token : String} {n : Nat}
    (htoken : r.operator? token = some ⟨n, .conjunction⟩) :
    Interchangeable r context limit (.binary token t b) (.binary token t b') := by
  refine .of_eq (fun levels => ?_) ⟨rfl, nofun⟩ ⟨rfl, nofun⟩
  have hfalse : ¬v.truthy = true := Bool.eq_false_iff.mp hv
  rw [evaluateWithin, evaluateWithin, htoken]
  refine bind_congr_of_ok fun w hw => ?_
  dsimp only
  rw [ht levels w hw, if_neg hfalse, if_neg hfalse]

end
end Decided

def EvaluatesAlike (r : Registry) (context : Context) (limit : Nat) (e e' : Expr) : Prop :=
  Matches (e.evaluate r context limit) (e'.evaluate r context limit)

end Expr

/-- The operators `&&` and `||` evaluate their right operands only where the left ones do not decide. -/
structure Registry.ShortCircuits (r : Registry) : Prop where
  conjunction : ∃ n, r.operator? "&&" = some ⟨n, .conjunction⟩
  disjunction : ∃ n, r.operator? "||" = some ⟨n, .disjunction⟩

theorem Registry.shortCircuits_standard : standard.ShortCircuits := ⟨⟨10, rfl⟩, ⟨10, rfl⟩⟩

theorem Registry.ShortCircuits.insertTransform {r : Registry} (h : r.ShortCircuits) (name : String)
    (t : Transform) (rule : Option SubjectRule) : (r.insertTransform name t rule).ShortCircuits :=
  ⟨h.conjunction, h.disjunction⟩

namespace Surrounding
open PipeExpr.Expr

/-- What a decision does not need is unnoticed wherever the decision stands, whatever is written there.
`t` decides if it comes to its value with any number of levels, those that are left in its place or
others. -/
theorem untaken_unnoticed {r : Registry} (hr : r.ShortCircuits) {context : Context}
    {limit levels : Nat} {t : Expr} {v : Value}
    (ht : (evaluateWithin r context limit levels t).outcome = .ok v) (c : Surrounding)
    (a b b' : Expr) :
    (v.truthy = true →
      EvaluatesAlike r context limit (c.fill (.conditional t a b)) (c.fill (.conditional t a b')) ∧
      EvaluatesAlike r context limit (c.fill (.binary "||" t b)) (c.fill (.binary "||" t b'))) ∧
    (v.truthy = false →
      EvaluatesAlike r context limit (c.fill (.conditional t b a)) (c.fill (.conditional t b' a)) ∧
      EvaluatesAlike r context limit (c.fill (.binary "&&" t b)) (c.fill (.binary "&&" t b'))) := by
  have hcomes : ComesTo r context limit t v := fun _ _ => eq_of_levels ht
  obtain ⟨⟨n, hand⟩, ⟨m, hor⟩⟩ := hr
  constructor
  · intro hv
    exact ⟨((hcomes.consequent a b b' hv).surround c).isMatch limit,
      ((hcomes.disjunction b b' hv hor).surround c).isMatch limit⟩
  · intro hv
    exact ⟨((hcomes.alternate a b b' hv).surround c).isMatch limit,
      ((hcomes.conjunction b b' hv hand).surround c).isMatch limit⟩

/-- The limit leaves one level for what decides, and the branch that is not taken goes below it to an
unknown transform. Around it a transform from outside refuses the list. -/
theorem untaken_unknown_deep :
    let yes : Expr := .literal (.string "a")
    let no : Expr := .literal (.string "")
    let other : Expr := .literal .null
    let deep : Expr := .not (.not (.transform "nowhere" (.identifier "gone") []))
    let c : Surrounding := [.inItem [] [other], .inSubject "double" []]
    Registry.doubling.ShortCircuits ∧ Registry.doubling.hasTransform "nowhere" = false ∧
      (evaluateWithin .doubling [] 4 1 yes).outcome = .ok (.string "a") ∧
      (evaluateWithin .doubling [] 4 1 no).outcome = .ok (.string "") ∧
      (c.fill (.conditional yes other deep)).height = 7 ∧
      ((c.fill (.conditional yes other other)).evaluate .doubling [] 4).outcome =
        .error (.mismatch (.reason "double expects a number")) ∧
      EvaluatesAlike .doubling [] 4 (c.fill (.conditional yes other other))
        (c.fill (.conditional yes other deep)) ∧
      EvaluatesAlike .doubling [] 4 (c.fill (.binary "&&" no other))
        (c.fill (.binary "&&" no deep)) := by
  intro yes no other deep c
  have hr : Registry.doubling.ShortCircuits :=
    Registry.shortCircuits_standard.insertTransform "double" .double none
  have hyes : (evaluateWithin .doubling [] 4 1 yes).outcome = .ok (.string "a") := rfl
  have hno : (evaluateWithin .doubling [] 4 1 no).outcome = .ok (.string "") := rfl
  have htaken := (untaken_unnoticed hr hyes c other other deep).1 rfl
  have hnot := (untaken_unnoticed hr hno c other other deep).2 rfl
  exact ⟨hr, rfl, hyes, hno, rfl, rfl, htaken.1, hnot.2⟩

end Surrounding
end PipeExpr
