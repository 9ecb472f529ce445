import PipeExpr.Proofs.Grammar.Sound

/-!
What the signature of a grammar tells. It spells every entry, but not where a token ends and its
precedence begins. Grammars of one signature have the same symbols, and where they differ, a word of
one of them runs on into the precedence of a shorter word of the other.
-/
namespace PipeExpr.Grammar
open Text

def entryText (e : String × Nat) : List Char := e.1.toList ++ Nat.toDigits 10 e.2

theorem signature_toList (g : Grammar) :
    g.signature.toList = [' '].intercalate (g.precedences.map entryText) := by
  have htexts : g.precedences.map (String.toList ∘ fun e => e.1 ++ toString e.2) =
      g.precedences.map entryText := by
    simp [entryText, Nat.toList_repr, Function.comp_def]
  rw [signature, String.toList_intercalate, List.map_map, htexts]
  rfl

/-- The longer token is the other one with digits behind it. -/
def RunsOn (token longer : String) : Prop :=
  ∃ c cs, longer.toList = token.toList ++ c :: cs ∧ ∀ d ∈ c :: cs, d.isDigit = true

theorem RunsOn.lt {token longer : String} (h : RunsOn token longer) : token < longer := by
  obtain ⟨c, cs, hlonger, -⟩ := h
  have hlt : token.toList ++ [] < token.toList ++ c :: cs := List.append_left_lt (List.nil_lt_cons c cs)
  rw [List.append_nil, ← hlonger] at hlt
  exact String.lt_iff.mpr hlt

theorem digits_injective {n m : Nat} (h : Nat.toDigits 10 n = Nat.toDigits 10 m) : n = m := by
  rw [← Nat.ofDigitChars_ten_toDigits (n := n), h, Nat.ofDigitChars_ten_toDigits]

theorem runsOn_of_append {token longer : String} {c : Char} {cs left : List Char} {n : Nat}
    (hlonger : longer.toList = token.toList ++ c :: cs)
    (hdigits : Nat.toDigits 10 n = c :: cs ++ left) : RunsOn token longer := by
  refine ⟨c, cs, hlonger, fun d hd => ?_⟩
  have hmem : d ∈ Nat.toDigits 10 n := by
    rw [hdigits]
    exact List.mem_append_left left hd
  exact Nat.isDigit_of_mem_toDigits (by decide) (by decide) hmem

/-- Entries that are spelled alike are the same, or one token runs on from the other. -/
theorem entryText_cases {e e' : String × Nat} (h : entryText e = entryText e') :
    e = e' ∨ RunsOn e.1 e'.1 ∨ RunsOn e'.1 e.1 := by
  have hsame : e.1.toList = e'.1.toList → Nat.toDigits 10 e.2 = Nat.toDigits 10 e'.2 → e = e' :=
    fun ht hn => Prod.ext (String.toList_inj.mp ht) (digits_injective hn)
  cases List.append_eq_append_iff.mp h with
  | inl hlonger =>
    obtain ⟨cs, ht, hn⟩ := hlonger
    cases cs with
    | nil => exact .inl (hsame (by rw [ht, List.append_nil]) hn)
    | cons c cs => exact .inr (.inl (runsOn_of_append ht hn))
  | inr hshorter =>
    obtain ⟨cs, ht, hn⟩ := hshorter
    cases cs with
    | nil => exact .inl (hsame (by rw [ht, List.append_nil]) hn.symm)
    | cons c cs => exact .inr (.inr (runsOn_of_append ht hn))

/-- A token of the second table that the first one lacks runs on from a token of the first one. -/
def Overruns (t t' : Table Nat) : Prop :=
  ∃ token longer, token ∈ t.keys ∧ longer ∈ t'.keys ∧ RunsOn token longer ∧ longer ∉ t.keys

theorem Overruns.cons {e e' : String × Nat} {t t' : Table Nat} (he : ∀ d ∈ t, e.1 < d.1)
    (h : Overruns t t') : Overruns (e :: t) (e' :: t') := by
  obtain ⟨token, longer, htoken, hlonger, hruns, hlacks⟩ := h
  obtain ⟨d, hd, rfl⟩ := List.mem_map.mp htoken
  refine ⟨d.1, longer, List.mem_cons_of_mem _ htoken, List.mem_cons_of_mem _ hlonger, hruns, ?_⟩
  intro hmem
  cases List.mem_cons.mp hmem with
  | inl heq =>
    subst heq
    exact String.lt_irrefl e.1 (String.lt_trans (he d hd) hruns.lt)
  | inr hmem => exact hlacks hmem

theorem overruns_head {e e' : String × Nat} {t : Table Nat} (he' : ∀ d ∈ t, e'.1 < d.1)
    (h : RunsOn e.1 e'.1) : Overruns (e :: t) (e' :: t) := by
  refine ⟨e.1, e'.1, List.mem_cons_self, List.mem_cons_self, h, ?_⟩
  intro hmem
  cases List.mem_cons.mp hmem with
  | inl heq =>
    have hlt := h.lt
    rw [heq] at hlt
    exact String.lt_irrefl e.1 hlt
  | inr hmem =>
    obtain ⟨d, hd, heq⟩ := List.mem_map.mp hmem
    have hlt := he' d hd
    rw [heq] at hlt
    exact String.lt_irrefl e'.1 hlt

/-- Tables whose entries are spelled alike one by one. The last entries that differ tell the token
that is in one table only. -/
theorem overruns_of_entryTexts {t t' : Table Nat} (ht : t.Ordered) (ht' : t'.Ordered)
    (h : t.map entryText = t'.map entryText) : t = t' ∨ Overruns t t' ∨ Overruns t' t := by
  induction t generalizing t' with
  | nil =>
    cases t' with
    | nil => exact .inl rfl
    | cons e' t' => cases h
  | cons e t ih =>
    cases t' with
    | nil => cases h
    | cons e' t' =>
      obtain ⟨hhead, htail⟩ := List.cons.inj h
      obtain ⟨he, ht⟩ := List.pairwise_cons.mp ht
      obtain ⟨he', ht'⟩ := List.pairwise_cons.mp ht'
      rcases ih ht ht' htail with rfl | hover | hover
      · rcases entryText_cases hhead with rfl | hruns | hruns
        · exact .inl rfl
        · exact .inr (.inl (overruns_head he' hruns))
        · exact .inr (.inr (overruns_head he hruns))
      · exact .inr (.inl (hover.cons he))
      · exact .inr (.inr (hover.cons he'))

theorem notMem_intercalate {c : Char} {mark : List Char} {texts : List (List Char)} (hc : c ∉ mark)
    (h : ∀ s ∈ texts, c ∉ s) : c ∉ mark.intercalate texts := by
  induction texts with
  | nil => simp
  | cons s rest ih =>
    obtain ⟨hs, hrest⟩ := List.forall_mem_cons.mp h
    cases rest with
    | nil => simpa using hs
    | cons s' rest =>
      rw [List.intercalate_cons_cons]
      simp only [List.mem_append, not_or]
      exact ⟨⟨hs, hc⟩, ih hrest⟩

section Sound
variable {g g' : Grammar}

theorem Sound.precedence?_eq_some (hg : g.Sound) {token : String} {n : Nat} :
    g.precedence? token = some n ↔ (token, n) ∈ g.precedences :=
  ⟨Table.mem_of_find?, Table.find?_of_mem hg.ordered⟩

theorem Sound.admitted_of_mem (hg : g.Sound) {e : String × Nat} (he : e ∈ g.precedences) :
    Registry.checkOperatorToken e.1 = .ok () :=
  hg.admitted e.1 e.2 (hg.precedence?_eq_some.mpr he)

theorem Sound.notMem_entryText (hg : g.Sound) {c : Char} (hpart : isNamePart c = false)
    (hoperator : c ∉ Registry.operatorChars) {e : String × Nat} (he : e ∈ g.precedences) :
    c ∉ entryText e := by
  intro hc
  cases List.mem_append.mp hc with
  | inl hc =>
    obtain ⟨-, hword | ⟨-, -, hsymbol⟩⟩ := checkOperatorToken_eq_ok.mp (hg.admitted_of_mem he)
    · rw [isWord_eq_isName] at hword
      obtain ⟨-, -, -, -, hall⟩ := isName_eq_cons hword
      exact absurd (hall c hc) (Bool.eq_false_iff.mp hpart)
    · exact hoperator (hsymbol c hc)
  | inr hc =>
    have hdigit := Nat.isDigit_of_mem_toDigits (by decide) (by decide) hc
    exact absurd (isNamePart_of_isDigit hdigit) (Bool.eq_false_iff.mp hpart)

theorem Sound.notMem_signature (hg : g.Sound) {c : Char} (hpart : isNamePart c = false)
    (hoperator : c ∉ Registry.operatorChars) (hblank : c ≠ ' ') : c ∉ g.signature.toList := by
  rw [signature_toList]
  refine notMem_intercalate (by simpa using hblank) ?_
  intro s hs
  obtain ⟨e, he, rfl⟩ := List.mem_map.mp hs
  exact hg.notMem_entryText hpart hoperator he

theorem Sound.splitOn_signature (hg : g.Sound) (hne : g.precedences ≠ []) :
    g.signature.toList.splitOn ' ' = g.precedences.map entryText := by
  rw [signature_toList]
  refine List.splitOn_intercalate ' ' ?_ (by simpa using hne)
  intro s hs
  obtain ⟨e, he, rfl⟩ := List.mem_map.mp hs
  exact hg.notMem_entryText (by decide) (by decide) he

theorem signature_eq_empty_iff : g.signature.toList = [] ↔ g.precedences = [] := by
  rw [signature_toList]
  cases hp : g.precedences with
  | nil => simp
  | cons e rest =>
    have htext : entryText e ≠ [] := by simp [entryText, Nat.toDigits_ne_nil]
    cases rest with
    | nil => simpa using htext
    | cons e' rest => simp

/-- Where one entry ends and the next one begins can be read off a signature. -/
theorem Sound.entryTexts_of_signature (hg : g.Sound) (hg' : g'.Sound)
    (h : g.signature = g'.signature) :
    g.precedences.map entryText = g'.precedences.map entryText := by
  by_cases hempty : g.precedences = []
  · have hempty' : g'.precedences = [] := by
      rw [← signature_eq_empty_iff, ← h, signature_eq_empty_iff]
      exact hempty
    rw [hempty, hempty']
  · have hempty' : g'.precedences ≠ [] := by
      rw [ne_eq, ← signature_eq_empty_iff, ← h, signature_eq_empty_iff]
      exact hempty
    rw [← hg.splitOn_signature hempty, ← hg'.splitOn_signature hempty', h]

theorem isWord_of_runsOn {token longer : String} (hadmitted : Registry.checkOperatorToken longer = .ok ())
    (h : RunsOn token longer) : isWord longer = true := by
  obtain ⟨-, hword | ⟨-, -, hsymbol⟩⟩ := checkOperatorToken_eq_ok.mp hadmitted
  · exact hword
  · obtain ⟨c, cs, hlonger, hdigits⟩ := h
    have hc : c ∈ Registry.operatorChars := hsymbol c (by simp [hlonger])
    have hpart := isNamePart_of_isDigit (hdigits c List.mem_cons_self)
    rw [isNamePart_operatorChar hc] at hpart
    cases hpart

theorem not_runsOn_of_symbol {token longer : String} (htoken : Registry.checkOperatorToken token = .ok ())
    (hsymbol : isWord token = false) (hlonger : Registry.checkOperatorToken longer = .ok ()) :
    ¬RunsOn token longer := by
  intro hruns
  have hword := isWord_of_runsOn hlonger hruns
  rw [isWord_eq_isName] at hword
  obtain ⟨c, s, hcs, hstart, -⟩ := isName_eq_cons hword
  obtain ⟨hne, hw | ⟨-, -, hchars⟩⟩ := checkOperatorToken_eq_ok.mp htoken
  · rw [hw] at hsymbol
    cases hsymbol
  · obtain ⟨d, ds, happend, -⟩ := hruns
    cases htext : token.toList with
    | nil => exact hne (String.toList_eq_nil_iff.mp htext)
    | cons b bs =>
      rw [hcs, htext, List.cons_append] at happend
      obtain ⟨rfl, -⟩ := List.cons.inj happend
      have hpart := isNamePart_of_isNameStart hstart
      rw [isNamePart_operatorChar (hchars c (by simp [htext]))] at hpart
      cases hpart

theorem Sound.precedence?_symbol (hg : g.Sound) (hg' : g'.Sound) (h : g.signature = g'.signature)
    {token : String} {n : Nat} (hsymbol : isWord token = false) (hn : g.precedence? token = some n) :
    g'.precedence? token = some n := by
  have hmem : (token, n) ∈ g.precedences := hg.precedence?_eq_some.mp hn
  have htext : entryText (token, n) ∈ g'.precedences.map entryText := by
    rw [← hg.entryTexts_of_signature hg' h]
    exact List.mem_map_of_mem hmem
  obtain ⟨e, he, heq⟩ := List.mem_map.mp htext
  have htoken := hg.admitted_of_mem hmem
  have hadmitted := hg'.admitted_of_mem he
  rcases entryText_cases heq with rfl | hruns | hruns
  · exact hg'.precedence?_eq_some.mpr he
  · have hword := isWord_of_runsOn htoken hruns
    rw [hsymbol] at hword
    cases hword
  · exact absurd hruns (not_runsOn_of_symbol htoken hsymbol hadmitted)

theorem Sound.symbols_subset (hg : g.Sound) (hg' : g'.Sound) (h : g.signature = g'.signature)
    {token : String} (ht : token ∈ g.symbols) : token ∈ g'.symbols := by
  obtain ⟨hsome, hword⟩ := (hg.mem_symbols token).mp ht
  obtain ⟨n, hn⟩ := Option.isSome_iff_exists.mp hsome
  have hn' := hg.precedence?_symbol hg' h hword hn
  exact (hg'.mem_symbols token).mpr ⟨by rw [hn', Option.isSome_some], hword⟩

/-- A signature tells the symbols: no symbol holds a digit. -/
theorem Sound.symbols_eq (hg : g.Sound) (hg' : g'.Sound) (h : g.signature = g'.signature) :
    g.symbols = g'.symbols :=
  hg.symbols_eq_of_mem hg' fun _ => ⟨hg.symbols_subset hg' h, hg'.symbols_subset hg h.symm⟩

theorem ofText?_of_runsOn {token longer : String} (h : RunsOn token longer) :
    Keyword.ofText? longer = none := by
  obtain ⟨c, cs, hlonger, hdigits⟩ := h
  cases hk : Keyword.ofText? longer with
  | none => rfl
  | some k =>
    obtain rfl := Keyword.text_of_ofText? hk
    have hletters : k.text.toList.all (fun d => !d.isDigit) = true := by cases k <;> decide
    have hc : c ∈ k.text.toList := by simp [hlonger]
    have hnot := List.all_eq_true.mp hletters c hc
    rw [hdigits c List.mem_cons_self] at hnot
    cases hnot

/-- Grammars of one signature are told apart by a word that only one of them knows, or not at all. -/
theorem Sound.exists_word (hg : g.Sound) (hg' : g'.Sound) (h : g.signature = g'.signature)
    (hne : g ≠ g') : ∃ word, isWord word = true ∧ Keyword.ofText? word = none ∧
      (g.precedence? word).isSome ≠ (g'.precedence? word).isSome := by
  have hword : ∀ {t t' : Grammar}, t'.Sound → Overruns t.precedences t'.precedences →
      ∃ word, isWord word = true ∧ Keyword.ofText? word = none ∧
        (t.precedence? word).isSome = false ∧ (t'.precedence? word).isSome = true := by
    intro t t' ht' hover
    obtain ⟨token, longer, -, hlonger, hruns, hlacks⟩ := hover
    have hknown : (t'.precedence? longer).isSome = true := Table.find?_isSome.mpr hlonger
    obtain ⟨n, hn⟩ := Option.isSome_iff_exists.mp hknown
    have hw := isWord_of_runsOn (ht'.admitted longer n hn) hruns
    exact ⟨longer, hw, ofText?_of_runsOn hruns,
      Bool.eq_false_iff.mpr fun hsome => hlacks (Table.find?_isSome.mp hsome), hknown⟩
  rcases overruns_of_entryTexts hg.ordered hg'.ordered (hg.entryTexts_of_signature hg' h)
    with heq | hover | hover
  · have hgrammars : g = g' := by
      cases g
      cases g'
      rw [Grammar.mk.injEq]
      exact ⟨heq, hg.symbols_eq hg' h⟩
    exact absurd hgrammars hne
  · obtain ⟨word, hw, hk, hunknown, hknown⟩ := hword hg' hover
    exact ⟨word, hw, hk, by simp [hunknown, hknown]⟩
  · obtain ⟨word, hw, hk, hunknown, hknown⟩ := hword hg hover
    exact ⟨word, hw, hk, by simp [hunknown, hknown]⟩

end Sound
end PipeExpr.Grammar
