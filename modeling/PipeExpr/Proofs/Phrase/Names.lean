import PipeExpr.Proofs.Expr.Nodes
import PipeExpr.Proofs.Phrase.Tokens

/-!
The nodes of an expression that a phrase stands for. Each of them is what a part of the phrase stands for,
with tokens of the phrase, or the name of a member. So each name is one of the tokens, and the operators
are those of the grammar.
-/
namespace PipeExpr
variable {g : Grammar} {ts us : List Token} {node : Expr}

def Value.isScalar : Value → Bool
  | .array _ | .object _ => false
  | _ => true

/-- Parentheses and what is in them, which stands for the same without them. -/
def Phrase.isGroup : Phrase → Bool
  | .group _ => true
  | _ => false

/-- The node is the name of a member, or what a phrase with these tokens stands for. -/
inductive Expr.SpelledBy (g : Grammar) (ts : List Token) : Expr → Prop where
  | member (name : MemberName) : SpelledBy g ts (.literal (.string name.text))
  | phrase {p : Phrase} : p.Fits g → p.isGroup = false → p.tokens ⊆ ts → SpelledBy g ts p.expr

theorem Expr.SpelledBy.mono (h : node.SpelledBy g ts) (hsub : ts ⊆ us) : node.SpelledBy g us := by
  cases h with
  | member name => exact .member name
  | phrase hfits hgroup htokens => exact .phrase hfits hgroup (List.Subset.trans htokens hsub)

theorem Expr.forall_spelledBy_mono {nodes : List Expr} (h : ∀ node ∈ nodes, node.SpelledBy g ts)
    (hsub : ts ⊆ us) : ∀ node ∈ nodes, node.SpelledBy g us :=
  fun node hnode => (h node hnode).mono hsub

namespace Phrase
open PipeExpr.Expr (forall_spelledBy_mono)

theorem mem_itemNodes_exprs {items : List Phrase} :
    node ∈ Expr.itemNodes (exprs items) ↔ ∃ p ∈ items, node ∈ p.expr.nodes := by
  rw [Expr.itemNodes_eq_flatMap, exprs_eq_map, List.flatMap_map, List.mem_flatMap]

theorem mem_entryNodes_fieldExprs {fields : List (FieldKey × Phrase)} :
    node ∈ Expr.entryNodes (fieldExprs fields) ↔ ∃ f ∈ fields, node ∈ f.2.expr.nodes := by
  rw [Expr.entryNodes_eq_flatMap, fieldExprs_eq_map, List.map_map, List.flatMap_map,
    List.mem_flatMap]
  rfl

theorem items_spelledBy {items : List Phrase}
    (h : ∀ p ∈ items, ∀ node ∈ p.expr.nodes, node.SpelledBy g p.tokens) :
    ∀ node ∈ Expr.itemNodes (exprs items), node.SpelledBy g (itemTokens items) := by
  intro node hnode
  obtain ⟨p, hp, hnode⟩ := mem_itemNodes_exprs.mp hnode
  rw [itemTokens_eq]
  exact (h p hp node hnode).mono (infix_separated tokens hp).subset

theorem fields_spelledBy {fields : List (FieldKey × Phrase)}
    (h : ∀ f ∈ fields, ∀ node ∈ f.2.expr.nodes, node.SpelledBy g f.2.tokens) :
    ∀ node ∈ Expr.entryNodes (fieldExprs fields), node.SpelledBy g (fieldTokens fields) := by
  intro node hnode
  obtain ⟨f, hf, hnode⟩ := mem_entryNodes_fieldExprs.mp hnode
  rw [fieldTokens_eq]
  have hentry : f.2.tokens ⊆ entryTokens f := fun t ht => by simp [entryTokens, ht]
  have hfields := (infix_separated entryTokens hf).subset
  exact (h f hf node hnode).mono (List.Subset.trans hentry hfields)

/-- A phrase spells the nodes of what it stands for: the node at the root itself, and the others through
its parts. -/
theorem Fits.spelledBy {p : Phrase} (h : p.Fits g) :
    ∀ node ∈ p.expr.nodes, node.SpelledBy g p.tokens := by
  have hroot : ∀ {q : Phrase}, q.Fits g → q.isGroup = false → q.expr.SpelledBy g q.tokens :=
    fun hfits hgroup => .phrase hfits hgroup (List.Subset.refl _)
  induction h with
  | leaf l =>
    have hself := hroot (.leaf l) rfl
    cases l <;> simpa [expr, Leaf.expr, Expr.nodes] using hself
  | group _ ih =>
    rw [expr]
    exact forall_spelledBy_mono ih fun t ht => by simp [tokens, ht]
  | array hitems ih =>
    rw [expr, Expr.nodes, List.forall_mem_cons]
    exact ⟨hroot (.array hitems) rfl,
      forall_spelledBy_mono (items_spelledBy ih) fun t ht => by simp [tokens, ht]⟩
  | object hfields ih =>
    rw [expr, Expr.nodes, List.forall_mem_cons]
    exact ⟨hroot (.object hfields) rfl,
      forall_spelledBy_mono (fields_spelledBy ih) fun t ht => by simp [tokens, ht]⟩
  | dot name htarget ih =>
    rw [expr, Expr.nodes, List.forall_mem_cons, List.forall_mem_append]
    refine ⟨hroot (.dot name htarget) rfl,
      forall_spelledBy_mono ih fun t ht => by simp [tokens, ht], ?_⟩
    rw [Expr.nodes, List.forall_mem_singleton]
    exact .member name
  | index htarget hkey iht ihk =>
    rw [expr, Expr.nodes, List.forall_mem_cons, List.forall_mem_append]
    exact ⟨hroot (.index htarget hkey) rfl,
      forall_spelledBy_mono iht fun t ht => by simp [tokens, ht],
      forall_spelledBy_mono ihk fun t ht => by simp [tokens, ht]⟩
  | pipe name hsubject ih =>
    rw [expr, Expr.nodes, List.forall_mem_cons, Expr.itemNodes, List.append_nil]
    exact ⟨hroot (.pipe name hsubject) rfl,
      forall_spelledBy_mono ih fun t ht => by simp [tokens, ht]⟩
  | call name hsubject harguments ihs iha =>
    rw [expr, Expr.nodes, List.forall_mem_cons, List.forall_mem_append]
    exact ⟨hroot (.call name hsubject harguments) rfl,
      forall_spelledBy_mono ihs fun t ht => by simp [tokens, ht],
      forall_spelledBy_mono (items_spelledBy iha) fun t ht => by simp [tokens, ht]⟩
  | signed sign hoperand ih =>
    have hself := hroot (.signed sign hoperand) rfl
    have hpart := forall_spelledBy_mono ih fun t ht => List.mem_cons_of_mem sign.token ht
    cases sign with
    | not =>
      rw [expr, Sign.apply, Expr.nodes, List.forall_mem_cons]
      exact ⟨hself, hpart⟩
    | minus =>
      rw [expr, Sign.apply, Expr.nodes, List.forall_mem_cons]
      exact ⟨hself, hpart⟩
  | binary hp hleft hright ihl ihr =>
    rw [expr, Expr.nodes, List.forall_mem_cons, List.forall_mem_append]
    exact ⟨hroot (.binary hp hleft hright) rfl,
      forall_spelledBy_mono ihl fun t ht => by simp [tokens, ht],
      forall_spelledBy_mono ihr fun t ht => by simp [tokens, ht]⟩
  | conditional htest hconsequent halternate iht ihc iha =>
    rw [expr, Expr.nodes, List.forall_mem_cons, List.forall_mem_append, List.forall_mem_append]
    exact ⟨hroot (.conditional htest hconsequent halternate) rfl,
      forall_spelledBy_mono iht fun t ht => by simp [tokens, ht],
      forall_spelledBy_mono ihc fun t ht => by simp [tokens, ht],
      forall_spelledBy_mono iha fun t ht => by simp [tokens, ht]⟩

end Phrase

namespace Expr

/-- The name in a node is one of the tokens, that of an operator as a symbol or as a word. -/
def NamedIn (g : Grammar) (ts : List Token) : Expr → Prop
  | .identifier name => .identifier name ∈ ts
  | .transform name _ _ => .identifier name ∈ ts
  | .binary operator _ _ => (g.precedence? operator).isSome = true ∧
      ∃ o : OperatorName, o.text = operator ∧ o.token ∈ ts
  | _ => True

theorem SpelledBy.namedIn (h : node.SpelledBy g ts) : node.NamedIn g ts := by
  cases h with
  | member name => trivial
  | phrase hfits hgroup htokens =>
    cases hfits with
    | leaf l =>
      cases l with
      | identifier name => exact htokens (by simp [Phrase.tokens, Leaf.token])
      | _ => trivial
    | group => cases hgroup
    | pipe name => exact htokens (by simp [Phrase.tokens])
    | call name => exact htokens (by simp [Phrase.tokens])
    | signed sign => cases sign <;> trivial
    | @binary operator left right precedence hp =>
      refine ⟨?_, operator, rfl, htokens (by simp [Phrase.tokens])⟩
      rw [hp, Option.isSome_some]
    | _ => trivial

theorem SpelledBy.literal {v : Value} (h : (Expr.literal v).SpelledBy g ts) :
    v.isScalar = true ∧ ∀ x, v = .number x → .number x ∈ ts := by
  generalize he : Expr.literal v = e at h
  cases h with
  | member name =>
    obtain rfl := Expr.literal.inj he
    exact ⟨rfl, fun _ hx => by cases hx⟩
  | phrase hfits hgroup htokens =>
    cases hfits with
    | leaf l =>
      cases l with
      | number x =>
        obtain rfl := Expr.literal.inj he
        refine ⟨rfl, fun y hy => ?_⟩
        obtain rfl := Value.number.inj hy
        exact htokens (by simp [Phrase.tokens, Leaf.token])
      | string content =>
        obtain rfl := Expr.literal.inj he
        exact ⟨rfl, fun _ hx => by cases hx⟩
      | keyword k =>
        obtain rfl := Expr.literal.inj he
        cases k <;> exact ⟨rfl, fun _ hx => by cases hx⟩
      | identifier name => cases he
    | group => cases hgroup
    | signed sign => cases sign <;> cases he
    | _ => cases he

end Expr

theorem Phrase.Fits.namedIn {p : Phrase} (h : p.Fits g) :
    ∀ node ∈ p.expr.nodes, node.NamedIn g p.tokens :=
  fun node hnode => (h.spelledBy node hnode).namedIn

end PipeExpr
