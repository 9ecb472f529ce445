import PipeExpr.Proofs.Grammar.Signature
import PipeExpr.Proofs.Parser.Names
import PipeExpr.Proofs.Parser.SharedSymbols
import PipeExpr.Proofs.Session.Steps

/-!
What a cache of parsed expressions gives away. Whoever has the key of an entry is given its tree, and
a key tells the limit and the text but not the grammar. The cache goes unnoticed exactly if engines
that share keys share their grammars as well, or read too little to tell them apart.
-/
namespace PipeExpr

namespace Cache

theorem append_mark_inj {c : Char} {s s' t t' : List Char} (hs : c ∉ s) (hs' : c ∉ s')
    (h : s ++ c :: t = s' ++ c :: t') : s = s' ∧ t = t' := by
  have hsplit := congrArg (List.splitOn c) h
  rw [List.splitOn_append_cons_self_of_not_mem hs, List.splitOn_append_cons_self_of_not_mem hs']
    at hsplit
  obtain ⟨rfl, -⟩ := List.cons.inj hsplit
  exact ⟨rfl, (List.cons.inj (List.append_cancel_left h)).2⟩

theorem key_toList (g : Grammar) (limit : Nat) (text : String) :
    (key g limit text).toList =
      g.signature.toList ++ '\x01' :: (Nat.toDigits 10 limit ++ '\x01' :: text.toList) := by
  simp [key, Nat.toList_repr]

/-- A key tells the signature, the limit and the text: no token holds a control character. -/
theorem key_inj {g g' : Grammar} (hg : g.Sound) (hg' : g'.Sound) {limit limit' : Nat}
    {text text' : String} (h : key g limit text = key g' limit' text') :
    g.signature = g'.signature ∧ limit = limit' ∧ text = text' := by
  have hdigits : ∀ n, '\x01' ∉ Nat.toDigits 10 n := by
    intro n hmem
    have hdigit := Nat.isDigit_of_mem_toDigits (by decide) (by decide) hmem
    simp [Char.isDigit] at hdigit
  have hchars := congrArg String.toList h
  rw [key_toList, key_toList] at hchars
  obtain ⟨hsignature, hrest⟩ := append_mark_inj (hg.notMem_signature (by decide) (by decide) (by decide))
    (hg'.notMem_signature (by decide) (by decide) (by decide)) hchars
  obtain ⟨hlimit, htext⟩ := append_mark_inj (hdigits limit) (hdigits limit') hrest
  exact ⟨String.toList_inj.mp hsignature, Grammar.digits_injective hlimit, String.toList_inj.mp htext⟩

end Cache

namespace Engine

def SharesKeys (a b : Engine) : Prop :=
  a.settings.cache = true ∧ b.settings.cache = true ∧ a.settings.maxDepth = b.settings.maxDepth ∧
    a.registry.grammar.signature = b.registry.grammar.signature

theorem SharesKeys.symm {a b : Engine} (h : a.SharesKeys b) : b.SharesKeys a :=
  ⟨h.2.1, h.1, h.2.2.1.symm, h.2.2.2.symm⟩

theorem SharesKeys.key_eq {a b : Engine} (h : a.SharesKeys b) (text : String) :
    a.key text = b.key text := by
  obtain ⟨-, -, hdepth, hsignature⟩ := h
  rw [key, key, Cache.key, Cache.key, hdepth, hsignature]

theorem sharesKeys_of_key_eq {a b : Engine} (ha : a.registry.Built) (hb : b.registry.Built)
    (hca : a.settings.cache = true) (hcb : b.settings.cache = true) {text text' : String}
    (h : a.key text = b.key text') : a.SharesKeys b ∧ text = text' := by
  obtain ⟨hsignature, hdepth, htext⟩ := Cache.key_inj ha.sound hb.sound h
  exact ⟨⟨hca, hcb, hdepth, hsignature⟩, htext⟩

end Engine

namespace Session

/-- A session that parses by some of the engines and clearings lead to, the cache being empty at
first. -/
inductive Reached (engines : Engine → Prop) : Session → Prop where
  | start : Reached engines .start
  | parse {s : Session} {engine : Engine} (text : String) : Reached engines s → engines engine →
      Reached engines ((engine.parse text).after s)
  | clear {s : Session} : Reached engines s → Reached engines (Step.clearCache.after s)

/-- Every tree in the cache is what a text is for an engine that finds it there. -/
def Kept (engines : Engine → Prop) (s : Session) : Prop :=
  ∀ key tree, Table.find? key s.cache = some tree → ∃ engine text, engines engine ∧
    engine.settings.cache = true ∧ key = engine.key text ∧ engine.reading text = .ok tree.expr

variable {engines : Engine → Prop} {s : Session}

theorem Kept.insert (h : s.Kept engines) {engine : Engine} (hengine : engines engine)
    (hcache : engine.settings.cache = true) {text : String} {tree : Tree}
    (hreading : engine.reading text = .ok tree.expr) {s' : Session}
    (hs' : s'.cache = s.cache.insert (engine.key text) tree) : s'.Kept engines := by
  intro key kept hfind
  rw [hs', Table.find?_insert] at hfind
  by_cases hkey : key = engine.key text
  · rw [if_pos hkey] at hfind
    obtain rfl := Option.some.inj hfind
    exact ⟨engine, text, hengine, hcache, hkey, hreading⟩
  · rw [if_neg hkey] at hfind
    exact h key kept hfind

theorem Kept.congr (h : s.Kept engines) {s' : Session} (hs' : s'.cache = s.cache) :
    s'.Kept engines := by
  unfold Kept
  rw [hs']
  exact h

theorem Kept.parse (h : s.Kept engines) {engine : Engine} (hengine : engines engine)
    (text : String) : ((engine.parse text).after s).Kept engines := by
  unfold Step.after
  rcases engine.parse_cases text s with
    ⟨tree, -, -, hparse⟩ | ⟨e, s', hreading, hparse, hcache, -⟩ | ⟨e, s', -, hparse, hcache, -⟩
  · rw [hparse]
    exact h
  · rw [hparse]
    by_cases hkeeps : engine.settings.cache = true
    · rw [if_pos hkeeps] at hcache
      exact h.insert hengine hkeeps hreading hcache
    · rw [if_neg hkeeps] at hcache
      exact h.congr hcache
  · rw [hparse]
    exact h.congr hcache

theorem Reached.kept (h : s.Reached engines) : s.Kept engines := by
  induction h with
  | start =>
    intro key tree hfind
    cases hfind
  | parse text _ hengine ih => exact ih.parse hengine text
  | clear _ _ =>
    intro key tree hfind
    cases hfind

/-- Along every run each parse comes to what it would come to without a cache. -/
def Unnoticed (engines : Engine → Prop) : Prop :=
  ∀ s, Reached engines s → ∀ engine, engines engine → ∀ text,
    ((engine.parse text).outcome s).map Tree.expr = engine.reading text

def Agree (engines : Engine → Prop) : Prop :=
  ∀ a b, engines a → engines b → a.SharesKeys b → ∀ text e,
    a.reading text = .ok e → b.reading text = .ok e

theorem unnoticed_of_agree (hbuilt : ∀ engine, engines engine → engine.registry.Built)
    (h : Agree engines) : Unnoticed engines := by
  intro s hs engine hengine text
  unfold Step.outcome
  rcases engine.parse_cases text s with
    ⟨tree, hcache, hfind, hparse⟩ | ⟨e, s', hreading, hparse, -⟩ | ⟨e, s', hreading, hparse, -⟩
  · obtain ⟨other, text', hother, hcache', hkey, hreading⟩ := hs.kept _ tree hfind
    obtain ⟨hshares, rfl⟩ := Engine.sharesKeys_of_key_eq (hbuilt other hother) (hbuilt engine hengine)
      hcache' hcache hkey.symm
    rw [hparse, h other engine hother hengine hshares text' tree.expr hreading]
    rfl
  · rw [hparse, hreading]
    rfl
  · rw [hparse, hreading]
    rfl

/-- A tree that one engine has kept is given to every engine that looks for it under its key. -/
theorem agree_of_unnoticed (h : Unnoticed engines) : Agree engines := by
  intro a b ha hb hshares text e hreading
  have hcache := hshares.1
  rcases a.parse_cases text .start with
    ⟨tree, -, hfind, -⟩ | ⟨e', s', hreading', hparse, hkept, -⟩ | ⟨e', s', hreading', -, -⟩
  · cases hfind
  · obtain rfl := Except.ok.inj (hreading.symm.trans hreading')
    have hreached : Reached engines s' := by
      have hstep := Reached.parse text .start ha
      unfold Step.after at hstep
      rw [hparse] at hstep
      exact hstep
    rw [if_pos hcache, hshares.key_eq] at hkept
    have hfind : Table.find? (b.key text) s'.cache = some ⟨Session.start.trees, e⟩ := by
      rw [hkept, Table.find?_insert_self]
    have hanswer := h s' hreached b hb text
    unfold Step.outcome at hanswer
    have hhit : b.parse text s' = .ok ⟨Session.start.trees, e⟩ s' := by
      unfold Engine.parse
      rw [if_pos hshares.2.1]
      exact Step.parseCached_hit hfind
    rw [hhit] at hanswer
    exact hanswer.symm
  · rw [hreading] at hreading'
    cases hreading'

theorem Agree.knows (h : Agree engines) {a b : Engine} (ha : engines a) (hb : engines b)
    (hshares : a.SharesKeys b) (hbuilt : a.registry.Built) (hbuilt' : b.registry.Built)
    (hdepth : 2 ≤ a.settings.maxDepth) {word : String} (hkeyword : Keyword.ofText? word = none)
    (hknown : (a.registry.grammar.precedence? word).isSome = true) :
    (b.registry.grammar.precedence? word).isSome = true := by
  have hreading := Expr.parse_betweenNames hbuilt.sound hknown hkeyword hdepth
  exact Expr.knows_of_parse hbuilt'.sound (h a b ha hb hshares _ _ hreading)

/-- The cache goes unnoticed exactly if engines that share keys have the same grammar, or read
nothing that is more than one level deep. -/
theorem unnoticed_iff (hbuilt : ∀ engine, engines engine → engine.registry.Built) :
    Unnoticed engines ↔ ∀ a b, engines a → engines b → a.SharesKeys b →
      a.settings.maxDepth ≤ 1 ∨ a.registry.grammar = b.registry.grammar := by
  constructor
  · intro h a b ha hb hshares
    have hagree := agree_of_unnoticed h
    have hbuilta := hbuilt a ha
    have hbuiltb := hbuilt b hb
    by_cases hdepth : a.settings.maxDepth ≤ 1
    · exact .inl hdepth
    · have hdeep : 2 ≤ a.settings.maxDepth := by omega
      have hdeep' : 2 ≤ b.settings.maxDepth := hshares.2.2.1 ▸ hdeep
      by_cases hgrammar : a.registry.grammar = b.registry.grammar
      · exact .inr hgrammar
      · obtain ⟨word, hword, hkeyword, hdiffer⟩ :=
          hbuilta.sound.exists_word hbuiltb.sound hshares.2.2.2 hgrammar
        have hsame : (a.registry.grammar.precedence? word).isSome =
            (b.registry.grammar.precedence? word).isSome := by
          rw [Bool.eq_iff_iff]
          constructor
          · exact hagree.knows ha hb hshares hbuilta hbuiltb hdeep hkeyword
          · exact hagree.knows hb ha hshares.symm hbuiltb hbuilta hdeep' hkeyword
        exact absurd hsame hdiffer
  · intro h
    refine unnoticed_of_agree hbuilt ?_
    intro a b ha hb hshares text e hreading
    have hdepth := hshares.2.2.1
    unfold Engine.reading at hreading ⊢
    rw [← hdepth]
    cases h a b ha hb hshares with
    | inl hshallow =>
      have hsymbols := (hbuilt a ha).sound.symbols_eq (hbuilt b hb).sound hshares.2.2.2
      exact Expr.parse_of_symbols_eq (hbuilt a ha).sound hsymbols hshallow hreading
    | inr hgrammar =>
      rw [← hgrammar]
      exact hreading

theorem unnoticed_standard : Unnoticed (· = Engine.standard) := by
  refine (unnoticed_iff ?_).mpr ?_
  · rintro _ rfl
    exact Registry.Built.standard
  · rintro _ _ rfl rfl -
    exact .inr rfl

/-- Of two registries, one with the operator `a` of precedence 11 and one with the operator `a1` of
precedence 1, the signatures are the same. The second one is given a tree with the operator `a`. -/
theorem noticed_between_built : ¬Unnoticed fun engine => engine.registry.Built := by
  intro h
  let known (token : String) (n : Nat) : Engine :=
    { registry := Registry.empty.insertOperator token n (.function fun left _ => .ok left) }
  have hknown : (known "a" 11).registry.Built :=
    .operator .empty (Registry.registerOperator_eq_ok.mpr ⟨rfl, by decide, rfl⟩)
  have hother : (known "a1" 1).registry.Built :=
    .operator .empty (Registry.registerOperator_eq_ok.mpr ⟨rfl, by decide, rfl⟩)
  have hshares : (known "a" 11).SharesKeys (known "a1" 1) := ⟨rfl, rfl, rfl, rfl⟩
  have htold := (agree_of_unnoticed h).knows hknown hother hshares hknown hother (by decide)
    (by decide : Keyword.ofText? "a" = none) (by decide)
  revert htold
  decide

end Session
end PipeExpr
