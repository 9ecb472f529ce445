import PipeExpr.Error
import PipeExpr.Value.Basic

/-!
Documents: the answers to the questions of forms. A document can lie in another one, its parent, and
at the top of all of them lies the root. An answer is looked up by a path; `resolve` goes at most
one hop along these links.
-/
namespace PipeExpr

structure Document where
  form : String
  formMeta : Value
  /-- The answers by form and question. -/
  forms : Table (Table Value)
  parent : Option Document
  rootLink : Option Document

namespace Document

def ofForm (form : String) : Document := ⟨form, .object [], [(form, [])], none, none⟩

def blank : Document := ⟨"", .null, [], none, none⟩

instance : Inhabited Document := ⟨blank⟩

def answerForm (form : String) (answers : List (String × Value)) (d : Document) : Document :=
  let known := (d.forms.find? form).getD []
  { d with forms := d.forms.insert form (known.insertAll answers) }

def answer (question : String) (v : Value) (d : Document) : Document :=
  d.answerForm d.form [(question, v)]

/-- The top of a document: what it links to as its root, else the root of its parent, else
itself. -/
def root : Document → Document
  | ⟨_, _, _, _, some top⟩ => top
  | ⟨_, _, _, some parent, none⟩ => parent.root
  | d => d

/-- The segments of a path between its dots. There is always at least one. -/
def segments : List Char → List (List Char)
  | [] => [[]]
  | c :: s =>
    if c = '.' then [] :: segments s
    else
      match segments s with
      | [] => [[c]]
      | first :: rest => (c :: first) :: rest

theorem segments_append {s : List Char} (h : '.' ∉ s) (t : List Char) :
    segments (s ++ '.' :: t) = s :: segments t := by
  induction s with
  | nil => simp [segments]
  | cons c s ih =>
    rw [List.mem_cons, not_or] at h
    simp [segments, Ne.symm h.1, ih h.2]

def isHop (segment : String) : Bool := segment == "parent" || segment == "root"

/-- The answer to a question: of the document's own form first, then of the other forms in the order
of their names. -/
def question? (d : Document) (question : String) : Option Value :=
  if question.isEmpty then none
  else
    ((d.forms.find? d.form).bind (Table.find? question)).or
      ((d.forms.filter fun e => e.1 != d.form).findSome? fun e => Table.find? question e.2)

/-- The answer at the end of a path, which is a question or a form and a question of it. -/
def lookup? (d : Document) : List String → Option Value
  | [question] => d.question? question
  | [form, question] => (d.forms.find? form).bind (Table.find? question)
  | _ => none

/-- The answer at the end of a path in this document; `slug` is the whole path that an error
reports. -/
def resolveHere (d : Document) (slug : String) (path : List String) : Except Error Value :=
  if path.head?.any isHop then .error (.invalidTraversal slug)
  else
    match d.lookup? path with
    | some v => .ok v
    | none => .error (.questionNotFound slug)

/-- The answer at the end of a path, whose first segment can be a hop. -/
def resolve (d : Document) (slug : String) : Except Error Value :=
  match (segments slug.toList).map String.ofList with
  | "parent" :: path =>
    match d.parent with
    | some parent => parent.resolveHere slug path
    | none => .error (.invalidTraversal (slug ++ " (document has no parent)"))
  | "root" :: path => d.root.resolveHere slug path
  | path => d.resolveHere slug path

def formFields (d : Document) : Table Value :=
  [("form", .string d.form), ("formMeta", d.formMeta)]

def info (d : Document) : Value :=
  let parent := match d.parent with
    | some parent => .object parent.formFields
    | none => .null
  .object (d.formFields.insertAll [("parent", parent), ("root", .object d.root.formFields)])

def context (d : Document) : Table Value := [("form", .string d.form), ("info", d.info)]

end Document
end PipeExpr
