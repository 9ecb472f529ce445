import PipeExpr.Proofs.Form.Traversal
import PipeExpr.Proofs.Text.ByteOrder

/-!
What a document finds after any course of steps that build it. A question of a form has the answer that
was written to it last (`stored?_built`), and the search for a question without a form goes through
the document's own form first and then through the others in the order of their bytes.
-/
namespace PipeExpr.Document
variable {d : Document} {form question : String}

inductive Change
  | answer (question : String) (v : Value)
  | formAnswers (form : String) (answers : List (String × Value))
  | formMeta (v : Value)
  | parent (around : Document)
  | root (top : Document)

namespace Change

def make (d : Document) : Change → Document
  | .answer question v => d.answer question v
  | .formAnswers form answers => d.answerForm form answers
  | .formMeta v => { d with formMeta := v }
  | .parent around => { d with parent := some around }
  | .root top => { d with rootLink := some top }

/-- The answers that a step writes to a document of the form `own`, in this order. -/
def writes (own : String) : Change → List ((String × String) × Value)
  | .answer question v => [((own, question), v)]
  | .formAnswers form answers => answers.map fun e => ((form, e.1), e.2)
  | .formMeta _ | .parent _ | .root _ => []

end Change

def built (form : String) (changes : List Change) : Document :=
  changes.foldl Change.make (ofForm form)

/-- What the steps wrote last to a question of a form. -/
def latest? (own : String) (changes : List Change) (form question : String) : Option Value :=
  (changes.flatMap (Change.writes own)).reverse.lookup (form, question)

def stored? (d : Document) (form question : String) : Option Value :=
  (d.forms.find? form).bind (Table.find? question)

theorem lookup_map_own (answers : List (String × Value)) (own form question : String) :
    (answers.map fun e => ((own, e.1), e.2)).lookup (form, question) =
      if form = own then answers.lookup question else none := by
  induction answers with
  | nil => simp
  | cons e rest ih =>
    have hkey : ((form, question) == (own, e.1)) = (form == own && question == e.1) := rfl
    rw [List.map_cons, List.lookup_cons, List.lookup_cons, ih, hkey]
    by_cases hform : form = own
    · simp [hform]
    · rw [if_neg hform, if_neg hform, beq_eq_false_iff_ne.mpr hform, Bool.false_and]

theorem stored?_answerForm (d : Document) (own : String) (answers : List (String × Value))
    (form question : String) : (d.answerForm own answers).stored? form question =
      (if form = own then answers.reverse.lookup question else none).or (d.stored? form question) := by
  rw [stored?, answerForm, Table.find?_insert]
  by_cases hform : form = own
  · subst hform
    rw [if_pos rfl, if_pos rfl, Option.bind_some, Table.find?_insertAll, stored?]
    cases d.forms.find? form <;> rfl
  · rw [if_neg hform, if_neg hform, Option.none_or, stored?]

theorem stored?_make (c : Change) (d : Document) (form question : String) :
    (c.make d).stored? form question =
      ((c.writes d.form).reverse.lookup (form, question)).or (d.stored? form question) := by
  cases c with
  | answer asked v =>
    exact (stored?_answerForm d d.form [(asked, v)] form question).trans
      (congrArg (Option.or · _) (lookup_map_own [(asked, v)] d.form form question).symm)
  | formAnswers own answers =>
    have hmap : (Change.writes d.form (.formAnswers own answers)).reverse =
        answers.reverse.map fun e => ((own, e.1), e.2) := List.map_reverse.symm
    rw [hmap, lookup_map_own]
    exact stored?_answerForm d own answers form question
  | formMeta v => rfl
  | parent around => rfl
  | root top => rfl

theorem form_make (c : Change) (d : Document) : (c.make d).form = d.form := by
  cases c <;> rfl

theorem ordered_make (c : Change) (h : d.forms.Ordered) : (c.make d).forms.Ordered := by
  cases c with
  | answer question v => exact Table.ordered_insert h
  | formAnswers form answers => exact Table.ordered_insert h
  | formMeta v => exact h
  | parent around => exact h
  | root top => exact h

theorem stored?_foldl (changes : List Change) (d : Document) (form question : String) :
    (changes.foldl Change.make d).stored? form question =
      (latest? d.form changes form question).or (d.stored? form question) := by
  induction changes generalizing d with
  | nil => rfl
  | cons c rest ih =>
    rw [List.foldl_cons, ih, stored?_make, form_make, latest?, latest?, List.flatMap_cons,
      List.reverse_append, List.lookup_append, Option.or_assoc]

theorem stored?_built (own : String) (changes : List Change) (form question : String) :
    (built own changes).stored? form question = latest? own changes form question := by
  have hempty : (ofForm own).stored? form question = none := by
    unfold stored? ofForm Table.find?
    split <;> rfl
  rw [built, stored?_foldl, hempty, Option.or_none]
  rfl

theorem form_built (own : String) (changes : List Change) : (built own changes).form = own := by
  refine List.foldlRecOn (motive := fun d : Document => d.form = own) changes _ rfl ?_
  intro d hd c _
  rw [form_make, hd]

theorem ordered_built (own : String) (changes : List Change) :
    (built own changes).forms.Ordered := by
  refine List.foldlRecOn (motive := fun d : Document => d.forms.Ordered) changes _ ?_ ?_
  · exact List.pairwise_singleton _ _
  · intro d hd c _
    exact ordered_make c hd

/-- The first find in a table in order is the one of the smallest key. -/
theorem exists_least_of_findSome? {α β : Type} {t : Table α} (ht : t.Ordered) {b : β}
    {find : String × α → Option β} (h : t.findSome? find = some b) :
    ∃ first ∈ t, find first = some b ∧ ∀ e ∈ t, (find e).isSome → ¬e.1 < first.1 := by
  obtain ⟨before, first, behind, rfl, hfirst, hbefore⟩ := List.findSome?_eq_some_iff.mp h
  refine ⟨first, by simp, hfirst, fun e he hfind hlt => ?_⟩
  obtain hmem | hmem := List.mem_append.mp he
  · rw [hbefore e hmem] at hfind
    cases hfind
  obtain rfl | hmem := List.mem_cons.mp hmem
  · exact String.lt_irrefl _ hlt
  · have hbehind := (List.pairwise_append.mp ht).2.1
    exact String.lt_asymm hlt ((List.pairwise_cons.mp hbehind).1 e hmem)

theorem mem_others (hown : d.stored? d.form question = none) {v : Value}
    (h : d.stored? form question = some v) :
    ∃ answers, (form, answers) ∈ d.forms.filter (fun e => e.1 != d.form) ∧
      Table.find? question answers = some v := by
  obtain ⟨answers, hform, hanswer⟩ := Option.bind_eq_some_iff.mp h
  have hne : form ≠ d.form := by
    rintro rfl
    rw [hown] at h
    cases h
  exact ⟨answers, List.mem_filter.mpr ⟨Table.mem_of_find? hform, bne_iff_ne.mpr hne⟩, hanswer⟩

/-- The search for a question finds the answer of the own form, and otherwise that of the first form, in
the order of the forms, that has one. -/
theorem question?_cases (hd : d.forms.Ordered) (hquestion : question ≠ "") :
    (∃ v, d.stored? d.form question = some v ∧ d.question? question = some v) ∨
    d.stored? d.form question = none ∧
      ((∃ first v, d.stored? first question = some v ∧ d.question? question = some v ∧
        ∀ other, (d.stored? other question).isSome → ¬other < first) ∨
      (∀ other, d.stored? other question = none) ∧ d.question? question = none) := by
  have hempty : question.isEmpty = false := by
    rw [Bool.eq_false_iff, ne_eq, String.isEmpty_iff]
    exact hquestion
  have hsearch : d.question? question = (d.stored? d.form question).or
      ((d.forms.filter fun e => e.1 != d.form).findSome? fun e => Table.find? question e.2) := by
    rw [question?, hempty, if_neg Bool.false_ne_true]
    rfl
  cases hown : d.stored? d.form question with
  | some v =>
    rw [hown, Option.some_or] at hsearch
    exact .inl ⟨v, rfl, hsearch⟩
  | none =>
    rw [hown, Option.none_or] at hsearch
    refine .inr ⟨rfl, ?_⟩
    cases hfound : d.question? question with
    | none =>
      refine .inr ⟨fun other => Option.eq_none_iff_forall_ne_some.mpr fun v hother => ?_, rfl⟩
      obtain ⟨answers, hmem, hanswer⟩ := mem_others hown hother
      have hnone := List.findSome?_eq_none_iff.mp (hsearch.symm.trans hfound) _ hmem
      rw [hanswer] at hnone
      cases hnone
    | some v =>
      obtain ⟨first, hmem, hfirst, hleast⟩ :=
        exists_least_of_findSome? (List.Pairwise.filter _ hd) (hsearch.symm.trans hfound)
      refine .inl ⟨first.1, v, ?_, rfl, fun other hother => ?_⟩
      · rw [stored?, Table.find?_of_mem hd (List.mem_filter.mp hmem).1]
        exact hfirst
      · obtain ⟨w, hw⟩ := Option.isSome_iff_exists.mp hother
        obtain ⟨answers, hmem', hanswer⟩ := mem_others hown hw
        exact hleast _ hmem' (by rw [hanswer]; rfl)

theorem resolve_of_route {slug segment : String} {rest : List String}
    (hroute : route slug = segment :: rest) (hparent : segment ≠ "parent") (hroot : segment ≠ "root") :
    d.resolve slug = match d.lookup? (segment :: rest) with
      | some v => .ok v
      | none => .error (.questionNotFound slug) := by
  have hhop : isHop segment = false := by
    rw [Bool.eq_false_iff, ne_eq, isHop_iff, not_or]
    exact ⟨hparent, hroot⟩
  obtain ⟨rest', hrest⟩ := route_eq_cons slug
  obtain ⟨hfirst, -⟩ := List.cons.inj (hrest.symm.trans hroute)
  rw [resolve_of_not_isHop (hfirst ▸ hhop), hroute]
  exact if_neg (Bool.eq_false_iff.mp hhop)

/-- Whatever the steps were that built a document: at a form and a question there is the answer written
last, and a question alone leads to the last answer of the document's own form, else to that of the
smallest form in the order of bytes that has the question. -/
theorem resolve_built (own : String) (changes : List Change) :
    (∀ form question, '.' ∉ form.toList → '.' ∉ question.toList → form ≠ "parent" → form ≠ "root" →
      (built own changes).resolve (form ++ "." ++ question) =
        match latest? own changes form question with
        | some v => .ok v
        | none => .error (.questionNotFound (form ++ "." ++ question))) ∧
    ∀ question, question ≠ "" → '.' ∉ question.toList → question ≠ "parent" → question ≠ "root" →
      match latest? own changes own question with
      | some v => (built own changes).resolve question = .ok v
      | none =>
        (∃ form v, latest? own changes form question = some v ∧
          (∀ other, (latest? own changes other question).isSome →
            form.toUTF8.data.toList ≤ other.toUTF8.data.toList) ∧
          (built own changes).resolve question = .ok v) ∨
        (∀ form, latest? own changes form question = none) ∧
          (built own changes).resolve question = .error (.questionNotFound question) := by
  constructor
  · intro form question hform hquestion hparent hroot
    have hroute : route (form ++ "." ++ question) = [form, question] := by
      rw [route_append hform, route_of_not_mem hquestion]
    rw [resolve_of_route hroute hparent hroot, ← stored?_built]
    rfl
  · intro question hne hquestion hparent hroot
    rw [resolve_of_route (route_of_not_mem hquestion) hparent hroot]
    have hlookup : (built own changes).lookup? [question] = (built own changes).question? question := rfl
    have hcases := question?_cases (ordered_built own changes) hne
    simp only [stored?_built, form_built] at hcases
    obtain ⟨v, hown, hfound⟩ | ⟨hown, ⟨form, v, hform, hfound, hleast⟩ | ⟨hnone, hfound⟩⟩ := hcases
    · rw [hown, hlookup, hfound]
    · rw [hown, hlookup, hfound]
      exact .inl ⟨form, v, hform, fun other hother => Text.bytes_le_of_not_lt (hleast other hother), rfl⟩
    · rw [hown, hlookup, hfound]
      exact .inr ⟨hnone, rfl⟩

/-- Answers written over each other, in the own form and in two others, with other steps between them. A
question of both other forms is found in the smaller one, although the answer of the greater one is the
latest of all. -/
theorem resolve_built_course :
    let course : List Change :=
      [.answer "q" (.string "a"), .formAnswers "zeta" [("q", .string "b"), ("r", .string "c")],
        .parent (ofForm "around"), .formAnswers "alpha" [("r", .string "d"), ("r", .string "e")],
        .formMeta .null, .formAnswers "main" [("q", .string "f")], .root (ofForm "top"),
        .formAnswers "zeta" [("r", .string "g")]]
    let d := built "main" course
    d.resolve "zeta.r" = .ok (.string "g") ∧ d.resolve "zeta.q" = .ok (.string "b") ∧
      d.resolve "alpha.q" = .error (.questionNotFound "alpha.q") ∧ d.resolve "q" = .ok (.string "f") ∧
      (∃ form v, latest? "main" course form "r" = some v ∧
        (∀ other, (latest? "main" course other "r").isSome →
          form.toUTF8.data.toList ≤ other.toUTF8.data.toList) ∧ d.resolve "r" = .ok v) ∧
      d.resolve "r" = .ok (.string "e") := by
  intro course d
  obtain ⟨hform, hquestion⟩ := resolve_built "main" course
  have hr := hquestion "r" (by decide) (by decide) (by decide) (by decide)
  refine ⟨?_, ?_, ?_, hquestion "q" (by decide) (by decide) (by decide) (by decide), ?_, rfl⟩
  · exact hform "zeta" "r" (by decide) (by decide) (by decide) (by decide)
  · exact hform "zeta" "q" (by decide) (by decide) (by decide) (by decide)
  · exact hform "alpha" "q" (by decide) (by decide) (by decide) (by decide)
  · exact hr.resolve_right fun hnone => Option.some_ne_none _ (hnone.1 "alpha")

end PipeExpr.Document
