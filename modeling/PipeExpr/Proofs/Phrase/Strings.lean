import Mathlib.Data.List.Flatten
import PipeExpr.Analysis.Extraction
import PipeExpr.Proofs.Expr.Parts
import PipeExpr.Proofs.Phrase.Tokens

/-!
The strings that transforms are applied to stand in a text in the order in which a walk comes to them. A
walk visits a transform before its subject, which is written first; but a subject that is a string
holds no other transform, so the order of the strings is not touched.
-/
namespace PipeExpr
variable {g : Grammar} {names : List String} {e : Expr}

namespace Token

def content? : Token → Option String
  | .string content => some content
  | _ => none

def contents (ts : List Token) : List String := ts.filterMap content?

@[simp] theorem contents_nil : contents [] = [] := rfl

@[simp] theorem contents_append (ts us : List Token) :
    contents (ts ++ us) = contents ts ++ contents us := List.filterMap_append

@[simp] theorem contents_mark (m : Mark) (ts : List Token) : contents (.mark m :: ts) = contents ts :=
  rfl

@[simp] theorem contents_identifier (name : String) (ts : List Token) :
    contents (.identifier name :: ts) = contents ts := rfl

theorem contents_cons (t : Token) (ts : List Token) :
    contents (t :: ts) = t.content?.toList ++ contents ts := by
  rw [contents, List.filterMap_cons]
  cases t.content? <;> rfl

theorem contents_separated {α : Type} (spell : α → List Token) (as : List α) :
    contents (separated spell as) = as.flatMap fun a => contents (spell a) := by
  induction as with
  | nil => rfl
  | cons a rest ih =>
    cases rest with
    | nil => simp [separated]
    | cons b rest => simp only [separated, contents_append, contents_mark, ih, List.flatMap_cons]

end Token

namespace Expr

/-- The string that one of the named transforms is applied to at a node. -/
def stringSubject? (names : List String) (node : Expr) : Option String :=
  node.visit?.bind fun visit => (visit.subject? names).bind Value.string?

def stringSubjects (names : List String) (e : Expr) : List String :=
  e.nodes.filterMap (stringSubject? names)

theorem stringSubjects_eq (names : List String) (e : Expr) : e.stringSubjects names =
    (e.stringSubject? names).toList ++ e.parts.flatMap (stringSubjects names) := by
  have hparts : (e.parts.flatMap nodes).filterMap (stringSubject? names) =
      e.parts.flatMap (stringSubjects names) := List.filterMap_flatMap
  rw [stringSubjects, nodes_eq_cons, List.filterMap_cons, hparts]
  cases e.stringSubject? names <;> rfl

theorem stringSubjects_of_parts (h : e.stringSubject? names = none) :
    e.stringSubjects names = e.parts.flatMap (stringSubjects names) := by
  rw [stringSubjects_eq, h, Option.toList_none, List.nil_append]

theorem eq_literal_of_string {s : String} (h : e.literal? = some (.string s)) :
    e = .literal (.string s) := by
  cases e with
  | literal v => rw [Option.some.inj h]
  | array items => simp [literal?] at h
  | object entries => simp [literal?] at h
  | _ => cases h

theorem stringSubject?_transform {name s : String} {subject : Expr} {arguments : List Expr}
    (h : (transform name subject arguments).stringSubject? names = some s) :
    subject = .literal (.string s) := by
  obtain ⟨visit, hvisit, hsubject⟩ := Option.bind_eq_some_iff.mp h
  obtain rfl := Option.some.inj hvisit
  obtain ⟨v, hv, hs⟩ := Option.bind_eq_some_iff.mp hsubject
  obtain rfl := Value.string?_eq_some.mp hs
  rw [Visit.subject?] at hv
  split at hv
  · exact eq_literal_of_string hv
  · cases hv

end Expr

namespace Phrase
open PipeExpr.Expr (stringSubjects stringSubject? stringSubjects_eq
  stringSubjects_of_parts)

/-- A phrase that stands for a string is that string, with parentheses around it. -/
theorem Fits.contents_of_string {p : Phrase} (h : p.Fits g) {s : String}
    (hp : p.expr = .literal (.string s)) : Token.contents p.tokens = [s] := by
  induction h with
  | leaf l =>
    cases l with
    | string content =>
      obtain rfl := Value.string.inj (Expr.literal.inj hp)
      rfl
    | keyword k => cases k <;> cases hp
    | _ => cases hp
  | group _ ih => simpa [tokens] using ih hp
  | signed sign => cases sign <;> cases hp
  | _ => cases hp

theorem items_in_order {items : List Phrase}
    (h : ∀ p ∈ items, (p.expr.stringSubjects names).Sublist (Token.contents p.tokens)) :
    ((exprs items).flatMap (stringSubjects names)).Sublist (Token.contents (itemTokens items)) := by
  rw [exprs_eq_map, List.flatMap_map, itemTokens_eq, Token.contents_separated]
  exact List.Sublist.flatMap_right items h

theorem fields_in_order {fields : List (FieldKey × Phrase)}
    (h : ∀ f ∈ fields, (f.2.expr.stringSubjects names).Sublist (Token.contents f.2.tokens)) :
    (((fieldExprs fields).map Prod.snd).flatMap (stringSubjects names)).Sublist
      (Token.contents (fieldTokens fields)) := by
  rw [fieldExprs_eq_map, List.map_map, List.flatMap_map, fieldTokens_eq, Token.contents_separated]
  refine List.Sublist.flatMap_right fields fun f hf => ?_
  rw [entryTokens, Token.contents_cons, Token.contents_mark]
  exact (h f hf).trans (List.sublist_append_right _ _)

/-- With its subject a transform visits no string before its time. -/
theorem Fits.subject_in_order {subject : Phrase} (h : subject.Fits g)
    (hin : (subject.expr.stringSubjects names).Sublist (Token.contents subject.tokens))
    (name : String) (arguments : List Expr) :
    ((stringSubject? names (.transform name subject.expr arguments)).toList ++
      subject.expr.stringSubjects names).Sublist (Token.contents subject.tokens) := by
  cases hs : stringSubject? names (.transform name subject.expr arguments) with
  | none => exact hin
  | some s =>
    have hsubject := Expr.stringSubject?_transform hs
    rw [h.contents_of_string hsubject, hsubject]
    exact List.Sublist.refl _

/-- The strings that transforms are applied to are among those that a phrase is written with, in the order
in which they are written. -/
theorem Fits.subjects_in_order {p : Phrase} (h : p.Fits g) (names : List String) :
    (p.expr.stringSubjects names).Sublist (Token.contents p.tokens) := by
  induction h with
  | leaf l => cases l <;> exact List.nil_sublist _
  | group _ ih => simpa [tokens, expr] using ih
  | array _ ih =>
    rw [expr, stringSubjects_of_parts rfl]
    simpa [tokens, Expr.parts] using items_in_order ih
  | object _ ih =>
    rw [expr, stringSubjects_of_parts rfl]
    simpa [tokens, Expr.parts] using fields_in_order ih
  | dot name _ ih =>
    rw [expr, stringSubjects_of_parts rfl]
    have hname : (Expr.literal (.string name.text)).stringSubjects names = [] := rfl
    simpa [tokens, Expr.parts, hname] using ih.trans (List.sublist_append_left _ _)
  | index _ _ iht ihk =>
    rw [expr, stringSubjects_of_parts rfl]
    simpa [tokens, Expr.parts] using iht.append ihk
  | pipe name hsubject ih =>
    rw [expr, stringSubjects_eq]
    simpa [tokens, Expr.parts] using hsubject.subject_in_order ih name []
  | @call subject name arguments hsubject _ ihs iha =>
    rw [expr, stringSubjects_eq]
    have hin := hsubject.subject_in_order ihs name (exprs arguments)
    simpa [tokens, Expr.parts] using hin.append (items_in_order iha)
  | signed sign _ ih =>
    have hsign : Token.content? sign.token = none := by cases sign <;> rfl
    cases sign with
    | not =>
      rw [expr, Sign.apply, stringSubjects_of_parts rfl]
      simpa [tokens, Expr.parts, Token.contents_cons, hsign] using ih
    | minus =>
      rw [expr, Sign.apply, stringSubjects_of_parts rfl]
      simpa [tokens, Expr.parts, Token.contents_cons, hsign] using ih
  | @binary operator _ _ _ _ _ _ ihl ihr =>
    have hoperator : Token.content? operator.token = none := by cases operator <;> rfl
    rw [expr, stringSubjects_of_parts rfl]
    simpa [tokens, Expr.parts, Token.contents_cons, hoperator] using ihl.append ihr
  | conditional _ _ _ iht ihc iha =>
    rw [expr, stringSubjects_of_parts rfl]
    simpa [tokens, Expr.parts] using iht.append (ihc.append iha)

end Phrase
end PipeExpr
