import PipeExpr.Proofs.Grammar.Words
import PipeExpr.Registry.Basic

/-!
What every registered operator keeps of a grammar: the tokens are those that a registry admits, and
the symbols are the tokens that are no words, sorted in such a way that no symbol hides a longer one.
-/
namespace PipeExpr.Grammar

theorem symbolBefore_iff {a b : String} :
    symbolBefore a b = true ↔
      b.utf8ByteSize < a.utf8ByteSize ∨ a.utf8ByteSize = b.utf8ByteSize ∧ a < b := by
  simp [symbolBefore]

theorem symbolBefore_trans {a b c : String} (hab : symbolBefore a b = true)
    (hbc : symbolBefore b c = true) : symbolBefore a c = true := by
  rw [symbolBefore_iff] at *
  cases hab with
  | inl hab =>
    left
    rcases hbc with hbc | ⟨hbc, -⟩ <;> omega
  | inr hsame =>
    obtain ⟨hab, hlt⟩ := hsame
    cases hbc with
    | inl hbc =>
      left
      omega
    | inr hsame =>
      obtain ⟨hbc, hlt'⟩ := hsame
      right
      exact ⟨hab.trans hbc, String.lt_trans hlt hlt'⟩

theorem symbolBefore_irrefl (a : String) : symbolBefore a a = false := by
  simp [symbolBefore]

theorem symbolBefore_of_not {a b : String} (hne : a ≠ b) (h : symbolBefore a b = false) :
    symbolBefore b a = true := by
  rw [Bool.eq_false_iff, ne_eq, symbolBefore_iff] at h
  rw [symbolBefore_iff]
  by_cases hlt : a.utf8ByteSize < b.utf8ByteSize
  · exact .inl hlt
  · have hsize : b.utf8ByteSize = a.utf8ByteSize := by omega
    have hnot : ¬a < b := fun hab => h (.inr ⟨hsize.symm, hab⟩)
    by_cases hba : b < a
    · exact .inr ⟨hsize, hba⟩
    · exact absurd (String.le_antisymm (String.not_lt.mp hba) (String.not_lt.mp hnot)) hne

theorem mem_insertSymbol {a symbol : String} {symbols : List String} :
    a ∈ insertSymbol symbol symbols ↔ a = symbol ∨ a ∈ symbols := by
  induction symbols with
  | nil => simp [insertSymbol]
  | cons s rest ih =>
    rw [insertSymbol]
    split
    · rw [List.mem_cons]
    · rw [List.mem_cons, ih, List.mem_cons]
      exact or_left_comm

theorem pairwise_insertSymbol {symbol : String} {symbols : List String}
    (h : symbols.Pairwise fun a b => symbolBefore a b = true) (hs : symbol ∉ symbols) :
    (insertSymbol symbol symbols).Pairwise fun a b => symbolBefore a b = true := by
  induction symbols with
  | nil => simp [insertSymbol]
  | cons s rest ih =>
    obtain ⟨hbefore, hrest⟩ := List.pairwise_cons.mp h
    obtain ⟨hne, hnot⟩ := not_or.mp fun he => hs (List.mem_cons.mpr he)
    rw [insertSymbol]
    by_cases hb : symbolBefore symbol s = true
    · rw [if_pos hb, List.pairwise_cons]
      constructor
      · intro a ha
        cases List.mem_cons.mp ha with
        | inl heq =>
          subst heq
          exact hb
        | inr ha => exact symbolBefore_trans hb (hbefore a ha)
      · exact h
    · rw [if_neg hb, List.pairwise_cons]
      constructor
      · intro a ha
        cases mem_insertSymbol.mp ha with
        | inl heq =>
          subst heq
          exact symbolBefore_of_not hne (Bool.eq_false_iff.mpr hb)
        | inr ha => exact hbefore a ha
      · exact ih hrest hnot

theorem checkOperatorToken_eq_ok {token : String} :
    Registry.checkOperatorToken token = .ok () ↔ token ≠ "" ∧ (isWord token = true ∨
      Registry.hidesNegation token = false ∧ token ≠ "|" ∧
        ∀ c ∈ token.toList, c ∈ Registry.operatorChars) := by
  unfold Registry.checkOperatorToken
  by_cases hempty : token.isEmpty = true
  · have h : token = "" := String.isEmpty_iff.mp hempty
    simp [h]
  · have h : token ≠ "" := fun h => hempty (String.isEmpty_iff.mpr h)
    rw [if_neg hempty]
    by_cases hword : isWord token = true
    · simp [h, hword]
    · rw [if_neg hword]
      simp [h, hword, and_assoc]

theorem isNamePart_operatorChar {c : Char} (h : c ∈ Registry.operatorChars) :
    Text.isNamePart c = false := by
  have hall : Registry.operatorChars.all (fun d => !Text.isNamePart d) = true := by decide
  simpa using List.all_eq_true.mp hall c h

structure Sound (g : Grammar) : Prop where
  ordered : g.precedences.Ordered
  admitted : ∀ token n, g.precedence? token = some n → Registry.checkOperatorToken token = .ok ()
  mem_symbols : ∀ token, token ∈ g.symbols ↔
    (g.precedence? token).isSome = true ∧ isWord token = false
  sorted : g.symbols.Pairwise fun a b => symbolBefore a b = true

theorem sound_empty : empty.Sound where
  ordered := Table.ordered_nil
  admitted := by simp [precedence?, empty, Table.find?]
  mem_symbols := by simp [precedence?, empty, Table.find?]
  sorted := List.Pairwise.nil

theorem precedence?_insert (token other : String) (n : Nat) (g : Grammar) :
    (g.insert token n).precedence? other = if other = token then some n else g.precedence? other :=
  Table.find?_insert token other n g.precedences

theorem Sound.insert {g : Grammar} (h : g.Sound) {token : String} {n : Nat}
    (ht : Registry.checkOperatorToken token = .ok ()) : (g.insert token n).Sound := by
  have hkeep : isWord token = true ∨ token ∈ g.symbols →
      (g.insert token n).symbols = g.symbols := by
    intro hk
    simp only [Grammar.insert]
    rw [if_pos (by simpa using hk)]
  have hadd : isWord token = false → token ∉ g.symbols →
      (g.insert token n).symbols = insertSymbol token g.symbols := by
    intro hw hs
    simp only [Grammar.insert]
    rw [if_neg (by simp [hw, hs])]
  constructor
  · exact Table.ordered_insert h.ordered
  · intro other m hm
    rw [precedence?_insert] at hm
    by_cases he : other = token
    · rw [he]
      exact ht
    · rw [if_neg he] at hm
      exact h.admitted other m hm
  · intro other
    rw [precedence?_insert]
    by_cases hk : isWord token = true ∨ token ∈ g.symbols
    · rw [hkeep hk, h.mem_symbols]
      by_cases he : other = token
      · subst he
        rw [h.mem_symbols] at hk
        simp
        intro hw
        cases hk with
        | inl hk =>
          rw [hk] at hw
          cases hw
        | inr hk => exact hk.1
      · rw [if_neg he]
    · obtain ⟨hw, hs⟩ := not_or.mp hk
      rw [hadd (Bool.eq_false_iff.mpr hw) hs, mem_insertSymbol, h.mem_symbols]
      by_cases he : other = token
      · subst he
        simp [hw]
      · simp [he]
  · by_cases hk : isWord token = true ∨ token ∈ g.symbols
    · rw [hkeep hk]
      exact h.sorted
    · obtain ⟨hw, hs⟩ := not_or.mp hk
      rw [hadd (Bool.eq_false_iff.mpr hw) hs]
      exact pairwise_insertSymbol h.sorted hs

section Symbols
variable {g g' : Grammar}

theorem Sound.nodup_symbols (hg : g.Sound) : g.symbols.Nodup := by
  refine hg.sorted.imp ?_
  rintro a b hab rfl
  rw [symbolBefore_irrefl] at hab
  cases hab

/-- The order of the symbols leaves no choice. -/
theorem Sound.symbols_eq_of_mem (hg : g.Sound) (hg' : g'.Sound)
    (h : ∀ token, token ∈ g.symbols ↔ token ∈ g'.symbols) : g.symbols = g'.symbols := by
  have hperm : g.symbols.Perm g'.symbols :=
    (List.perm_ext_iff_of_nodup hg.nodup_symbols hg'.nodup_symbols).mpr h
  have hanti : ∀ a b, a ∈ g.symbols → b ∈ g'.symbols → symbolBefore a b = true →
      symbolBefore b a = true → a = b := by
    intro a b _ _ hab hba
    have haa := symbolBefore_trans hab hba
    rw [symbolBefore_irrefl] at haa
    cases haa
  exact List.Perm.eq_of_pairwise hanti hg.sorted hg'.sorted hperm

theorem Sound.eq_of_precedence? (hg : g.Sound) (hg' : g'.Sound)
    (h : ∀ token, g.precedence? token = g'.precedence? token) : g = g' := by
  have hprecedences : g.precedences = g'.precedences := hg.ordered.eq_of_find? hg'.ordered h
  have hsymbols : g.symbols = g'.symbols := by
    refine hg.symbols_eq_of_mem hg' fun token => ?_
    rw [hg.mem_symbols, hg'.mem_symbols, h]
  cases g
  cases g'
  rw [Grammar.mk.injEq]
  exact ⟨hprecedences, hsymbols⟩

end Symbols
end PipeExpr.Grammar
