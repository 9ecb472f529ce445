import PipeExpr.Form.Document

/-!
Where the answer at a path comes from. A hop in front of a path leads to the parent or to the root,
which resolves the rest on its own: another hop there is refused. So the answers of a document, of its
parent and of its root are all that its paths lead to.
-/
namespace PipeExpr

/-- The error of one path reported as that of another. -/
def Error.withSlug (slug : String) : Error → Error
  | .questionNotFound _ => .questionNotFound slug
  | .invalidTraversal _ => .invalidTraversal slug
  | e => e

namespace Document
variable {d d' : Document} {slug : String} {path : List String} {v : Value}

def route (path : String) : List String := (segments path.toList).map String.ofList

def firstSegment (path : String) : String := String.ofList (path.toList.takeWhile (· != '.'))

def Stores (d : Document) (v : Value) : Prop :=
  ∃ form answers question, (form, answers) ∈ d.forms ∧ (question, v) ∈ answers

/-- The documents are of one form and hold the same answers, whatever documents they lie in. -/
structure SameAnswers (d d' : Document) : Prop where
  form : d.form = d'.form
  forms : d.forms = d'.forms

theorem segments_eq_cons (s : List Char) :
    ∃ rest, segments s = s.takeWhile (· != '.') :: rest := by
  induction s with
  | nil => exact ⟨[], rfl⟩
  | cons c s ih =>
    obtain ⟨rest, hrest⟩ := ih
    by_cases hc : c = '.'
    · exact ⟨segments s, by simp [segments, hc]⟩
    · exact ⟨rest, by simp [segments, hc, hrest]⟩

theorem route_eq_cons (path : String) : ∃ rest, route path = firstSegment path :: rest := by
  obtain ⟨rest, hrest⟩ := segments_eq_cons path.toList
  exact ⟨rest.map String.ofList, by rw [route, hrest, List.map_cons, firstSegment]⟩

theorem route_append {segment : String} (h : '.' ∉ segment.toList) (path : String) :
    route (segment ++ "." ++ path) = segment :: route path := by
  have hchars : (segment ++ "." ++ path).toList = segment.toList ++ '.' :: path.toList := by simp
  rw [route, hchars, segments_append h, List.map_cons, String.ofList_toList, route]

theorem segments_of_not_mem {s : List Char} (h : '.' ∉ s) : segments s = [s] := by
  induction s with
  | nil => rfl
  | cons c s ih =>
    rw [List.mem_cons, not_or] at h
    rw [segments, if_neg (Ne.symm h.1), ih h.2]

theorem route_of_not_mem {segment : String} (h : '.' ∉ segment.toList) : route segment = [segment] := by
  rw [route, segments_of_not_mem h, List.map_singleton, String.ofList_toList]

theorem isHop_iff {segment : String} :
    isHop segment = true ↔ segment = "parent" ∨ segment = "root" := by
  rw [isHop, Bool.or_eq_true, beq_iff_eq, beq_iff_eq]

theorem resolve_of_not_isHop (h : isHop (firstSegment slug) = false) :
    d.resolve slug = d.resolveHere slug (route slug) := by
  obtain ⟨rest, hrest⟩ := route_eq_cons slug
  rw [resolve, ← route, hrest]
  split
  · next heq =>
    rw [(List.cons.inj heq).1] at h
    cases h
  · next heq =>
    rw [(List.cons.inj heq).1] at h
    cases h
  · rfl

theorem resolve_parent (path : String) :
    d.resolve ("parent." ++ path) = match d.parent with
      | some parent => parent.resolveHere ("parent." ++ path) (route path)
      | none => .error (.invalidTraversal ("parent." ++ path ++ " (document has no parent)")) := by
  have hdot : "parent." = "parent" ++ "." := by decide
  have hroute : route ("parent." ++ path) = "parent" :: route path := by
    rw [hdot]
    exact route_append (by decide) path
  rw [resolve, ← route, hroute]
  rfl

theorem resolve_root (path : String) :
    d.resolve ("root." ++ path) = d.root.resolveHere ("root." ++ path) (route path) := by
  have hdot : "root." = "root" ++ "." := by decide
  have hroute : route ("root." ++ path) = "root" :: route path := by
    rw [hdot]
    exact route_append (by decide) path
  rw [resolve, ← route, hroute]
  rfl

/-- What a document makes of a path depends on the whole path only in the error that it reports. -/
theorem resolveHere_withSlug (d : Document) (slug slug' : String) (path : List String) :
    d.resolveHere slug path = (d.resolveHere slug' path).mapError (Error.withSlug slug) := by
  unfold resolveHere
  split
  · rfl
  · cases d.lookup? path <;> rfl

theorem resolveHere_route (d : Document) (slug path : String) :
    d.resolveHere slug (route path) =
      if firstSegment path = "parent" ∨ firstSegment path = "root" then
        .error (.invalidTraversal slug)
      else (d.resolve path).mapError (Error.withSlug slug) := by
  obtain ⟨rest, hrest⟩ := route_eq_cons path
  by_cases hhop : isHop (firstSegment path) = true
  · rw [if_pos (isHop_iff.mp hhop), hrest, resolveHere, List.head?_cons, Option.any_some, if_pos hhop]
  · rw [if_neg (mt isHop_iff.mpr hhop), resolve_of_not_isHop (Bool.eq_false_iff.mpr hhop)]
    exact resolveHere_withSlug d slug path (route path)

theorem stores_of_answer {form question : String}
    (h : (d.forms.find? form).bind (Table.find? question) = some v) : d.Stores v := by
  obtain ⟨answers, hform, hquestion⟩ := Option.bind_eq_some_iff.mp h
  exact ⟨form, answers, question, Table.mem_of_find? hform, Table.mem_of_find? hquestion⟩

theorem stores_of_question? {question : String} (h : d.question? question = some v) :
    d.Stores v := by
  unfold question? at h
  split at h
  · cases h
  · cases Option.or_eq_some_iff.mp h with
    | inl hown => exact stores_of_answer hown
    | inr hother =>
      obtain ⟨e, he, hquestion⟩ := List.exists_of_findSome?_eq_some hother.2
      exact ⟨e.1, e.2, question, (List.mem_filter.mp he).1, Table.mem_of_find? hquestion⟩

theorem stores_of_resolveHere (h : d.resolveHere slug path = .ok v) : d.Stores v := by
  unfold resolveHere at h
  split at h
  · cases h
  · cases hlookup : d.lookup? path with
    | none =>
      rw [hlookup] at h
      cases h
    | some w =>
      rw [hlookup] at h
      obtain rfl := Except.ok.inj h
      unfold lookup? at hlookup
      split at hlookup
      · exact stores_of_question? hlookup
      · exact stores_of_answer hlookup
      · cases hlookup

theorem resolve_cases (d : Document) (slug : String) :
    (∃ path, d.resolve slug = d.resolveHere slug path) ∨
    (∃ parent path, d.parent = some parent ∧ d.resolve slug = parent.resolveHere slug path) ∨
    (∃ path, d.resolve slug = d.root.resolveHere slug path) ∨
    ∃ e, d.resolve slug = .error e := by
  unfold resolve
  split
  · cases hparent : d.parent with
    | some parent => exact .inr (.inl ⟨parent, _, rfl, rfl⟩)
    | none => exact .inr (.inr (.inr ⟨_, rfl⟩))
  · exact .inr (.inr (.inl ⟨_, rfl⟩))
  · exact .inl ⟨_, rfl⟩

theorem SameAnswers.resolveHere_eq (h : d.SameAnswers d') (slug : String) (path : List String) :
    d.resolveHere slug path = d'.resolveHere slug path := by
  have hlookup : d.lookup? path = d'.lookup? path := by
    unfold lookup? question?
    rw [h.form, h.forms]
  rw [resolveHere, resolveHere, hlookup]

/-- A path takes at most one hop: in front of another hop it is refused, and otherwise the document
that it leads to resolves the rest, with the whole path in its errors. Every answer is one of the
document, of its parent or of its root, and no other document makes a difference. -/
theorem resolve_one_hop (d : Document) :
    (∀ parent, d.parent = some parent → ∀ path, d.resolve ("parent." ++ path) =
      if firstSegment path = "parent" ∨ firstSegment path = "root" then
        .error (.invalidTraversal ("parent." ++ path))
      else (parent.resolve path).mapError (Error.withSlug ("parent." ++ path))) ∧
    (d.parent = none → ∀ path, d.resolve ("parent." ++ path) =
      .error (.invalidTraversal ("parent." ++ path ++ " (document has no parent)"))) ∧
    (∀ path, d.resolve ("root." ++ path) =
      if firstSegment path = "parent" ∨ firstSegment path = "root" then
        .error (.invalidTraversal ("root." ++ path))
      else (d.root.resolve path).mapError (Error.withSlug ("root." ++ path))) ∧
    (∀ slug v, d.resolve slug = .ok v →
      d.Stores v ∨ (∃ parent, d.parent = some parent ∧ parent.Stores v) ∨ d.root.Stores v) ∧
    ∀ d' : Document, d.SameAnswers d' → Option.Rel SameAnswers d.parent d'.parent →
      d.root.SameAnswers d'.root → ∀ slug, d.resolve slug = d'.resolve slug := by
  refine ⟨?_, ?_, ?_, ?_, ?_⟩
  · intro parent hparent path
    rw [resolve_parent, hparent]
    exact resolveHere_route parent _ path
  · intro hparent path
    rw [resolve_parent, hparent]
  · intro path
    rw [resolve_root]
    exact resolveHere_route d.root _ path
  · intro slug v h
    obtain ⟨path, heq⟩ | ⟨parent, path, hparent, heq⟩ | ⟨path, heq⟩ | ⟨e, heq⟩ := d.resolve_cases slug
    · exact .inl (stores_of_resolveHere (heq ▸ h))
    · exact .inr (.inl ⟨parent, hparent, stores_of_resolveHere (heq ▸ h)⟩)
    · exact .inr (.inr (stores_of_resolveHere (heq ▸ h)))
    · rw [heq] at h
      cases h
  · intro d' hown hparents hroot slug
    unfold resolve
    split
    · generalize d.parent = parent at hparents
      generalize d'.parent = parent' at hparents
      cases hparents with
      | none => rfl
      | some hparent => exact hparent.resolveHere_eq _ _
    · exact hroot.resolveHere_eq _ _
    · exact hown.resolveHere_eq _ _

/-- A row three documents below the top. Its paths lead to the document around it and to the top, and
the answers of the document between these two are out of reach: another one there makes no difference. -/
theorem resolve_one_hop_row :
    let top := (ofForm "main").answer "q" (.string "t")
    let between := { (ofForm "part").answer "b" (.string "u") with parent := some top }
    let around := { (ofForm "table").answer "q" (.string "a") with parent := some between }
    let row := { ofForm "row" with parent := some around }
    let other := { ofForm "row" with parent := some { around with parent := some top } }
    row.resolve "parent.q" = .ok (.string "a") ∧ row.resolve "root.q" = .ok (.string "t") ∧
      row.resolve "parent.parent.b" = .error (.invalidTraversal "parent.parent.b") ∧
      row.resolve "root.b" = .error (.questionNotFound "root.b") ∧
      top.resolve "parent.q" = .error (.invalidTraversal "parent.q (document has no parent)") ∧
      (row.Stores (.string "a") ∨ (∃ parent, row.parent = some parent ∧ parent.Stores (.string "a")) ∨
        row.root.Stores (.string "a")) ∧ ∀ slug, row.resolve slug = other.resolve slug := by
  intro top between around row other
  obtain ⟨hparent, -, hroot, hstores, hsame⟩ := resolve_one_hop row
  have hanswer : row.resolve "parent.q" = .ok (.string "a") := (hparent around rfl "q").trans rfl
  refine ⟨hanswer, (hroot "q").trans rfl, (hparent around rfl "parent.b").trans rfl,
    (hroot "b").trans rfl, (resolve_one_hop top).2.1 rfl "q", hstores _ _ hanswer, ?_⟩
  exact hsame other ⟨rfl, rfl⟩ (.some ⟨rfl, rfl⟩) ⟨rfl, rfl⟩

end Document
end PipeExpr
