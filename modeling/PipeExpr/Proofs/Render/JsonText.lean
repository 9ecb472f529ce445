import Mathlib.Data.List.TakeWhile
import PipeExpr.Proofs.Expr.Folding
import PipeExpr.Proofs.Lexer.Quoted
import PipeExpr.Proofs.Parser.Language
import PipeExpr.Proofs.Render.Writing
import PipeExpr.Transform.Builtin

/-!
JSON texts as expressions. The text of a value is parsed as the value written out, on as many levels
as the value is nested, and that expression folds to the value again. Left out are values with a
control character that the lexer does not read back, and with numbers written otherwise than with
digits and one point between them.
-/
namespace PipeExpr
open Lexer

namespace Decimal

/-- Digits, or digits on both sides of a point. -/
def isPlain (s : List Char) : Bool :=
  !(s.takeWhile Char.isDigit).isEmpty &&
    match s.dropWhile Char.isDigit with
    | [] => true
    | c :: fraction => c == '.' && !fraction.isEmpty && fraction.all Char.isDigit

def ofPlain (s : List Char) : Float :=
  ofDigits (s.takeWhile Char.isDigit) ((s.dropWhile Char.isDigit).drop 1)

end Decimal

def Json.commas {α : Type} (text : α → List Char) : List α → List Char
  | [] => []
  | [a] => text a
  | a :: rest => text a ++ ',' :: commas text rest

namespace Lexer
variable {symbols : List String}

theorem scanNumber_plain {s : List Char} (h : Decimal.isPlain s = true) :
    scanNumber s = ⟨s, .ok (.number (Decimal.ofPlain s)), []⟩ := by
  have hsplit := List.takeWhile_append_dropWhile (p := Char.isDigit) (l := s)
  rw [Decimal.isPlain, Bool.and_eq_true] at h
  unfold scanNumber Decimal.ofPlain afterDigits digitsOf
  cases hrest : s.dropWhile Char.isDigit with
  | nil =>
    rw [hrest, List.append_nil] at hsplit
    simp [hsplit]
  | cons c fraction =>
    rw [hrest] at hsplit h
    simp only [Bool.and_eq_true, beq_iff_eq] at h
    obtain ⟨-, ⟨rfl, hne⟩, hall⟩ := h
    have hstarts : startsWithDigit fraction = true := by
      cases fraction with
      | nil => cases hne
      | cons d ds => exact (List.all_eq_true.mp hall) d List.mem_cons_self
    have htake : fraction.takeWhile Char.isDigit = fraction :=
      List.takeWhile_eq_self_iff.mpr (List.all_eq_true.mp hall)
    have hdrop : fraction.dropWhile Char.isDigit = [] :=
      List.dropWhile_eq_nil_iff.mpr (List.all_eq_true.mp hall)
    simp [hstarts, htake, hdrop, hsplit]

theorem isBlank_of_isDigit {c : Char} (h : c.isDigit = true) : isBlank c = false := by
  rw [Bool.eq_false_iff]
  intro hb
  simp only [isBlank, Bool.or_eq_true, beq_iff_eq] at hb
  obtain ((rfl | rfl) | rfl) | rfl := hb <;> cases h

theorem spells_plain {s : List Char} (h : Decimal.isPlain s = true) :
    Spells symbols s [.number (Decimal.ofPlain s)] := by
  cases s with
  | nil => cases h
  | cons c s =>
    have hdigit : c.isDigit = true := by
      by_contra hc
      rw [Decimal.isPlain, List.takeWhile_cons_of_neg hc] at h
      cases h
    have hblank : isBlank c = false := isBlank_of_isDigit hdigit
    have hscan : scan symbols (c :: s) =
        ⟨c :: s, .ok (.number (Decimal.ofPlain (c :: s))), []⟩ := by
      rw [scan, if_pos (by simp [hdigit]), scanNumber_plain h]
    exact spells_leaf (l := .number _) (scans_cons hblank hscan (by simp [Leaf.token]) (.done rfl))

theorem scans_legible {s : String} (h : ∀ c ∈ s.toList, Text.Legible c) :
    Scans symbols (Json.stringChars s) [.string s] [] := by
  have hscans := scans_stringChars symbols s
  rwa [flatMap_reread_eq_self.mpr h, String.ofList_toList] at hscans

theorem spells_commas {g : Grammar} (hg : g.Sound) {α : Type} {text : α → List Char}
    {spell : α → List Token} {as : List α}
    (h : ∀ a ∈ as, Spells g.symbols (text a) (spell a)) :
    Spells g.symbols (Json.commas text as) (separated spell as) := by
  induction as with
  | nil =>
    intro rest _
    exact .done rfl
  | cons a as ih =>
    obtain ⟨ha, has⟩ := List.forall_mem_cons.mp h
    cases as with
    | nil => exact ha
    | cons b bs =>
      intro rest hrest
      simpa [Json.commas, separated] using scans_comma hg ha (ih has rest hrest)

end Lexer

namespace Value

mutual
def height : Value → Nat
  | .array items => heights items + 1
  | .object fields => fieldHeights fields + 1
  | _ => 1

def heights : List Value → Nat
  | [] => 0
  | v :: rest => max v.height (heights rest)

def fieldHeights : List (String × Value) → Nat
  | [] => 0
  | (_, v) :: rest => max v.height (fieldHeights rest)
end

mutual
/-- The value with every number as its text names it. -/
def reread : Value → Value
  | .number x => .number (Decimal.ofPlain (Value.number x).chars)
  | .array items => .array (rereadItems items)
  | .object fields => .object (rereadFields fields)
  | v => v

def rereadItems : List Value → List Value
  | [] => []
  | v :: rest => v.reread :: rereadItems rest

def rereadFields : List (String × Value) → List (String × Value)
  | [] => []
  | (key, v) :: rest => (key, v.reread) :: rereadFields rest
end

mutual
/-- The value written out: keys are quoted, and nothing is in parentheses. -/
def phrase : Value → Phrase
  | .null => .leaf (.keyword .null)
  | .boolean b => .leaf (.keyword (if b then .true else .false))
  | .number x => .leaf (.number (Decimal.ofPlain (Value.number x).chars))
  | .string s => .leaf (.string s)
  | .array items => .array (phrases items)
  | .object fields => .object (fieldPhrases fields)

def phrases : List Value → List Phrase
  | [] => []
  | v :: rest => v.phrase :: phrases rest

def fieldPhrases : List (String × Value) → List (FieldKey × Phrase)
  | [] => []
  | (key, v) :: rest => (.quoted key, v.phrase) :: fieldPhrases rest
end

/-- Strings and keys are read back from their JSON form, keys ascend, and the text of every number is
digits, or digits on both sides of a point, that name a number `R` relates to it. -/
inductive Legible (R : Float → Float → Prop) : Value → Prop where
  | null : Legible R .null
  | boolean (b : Bool) : Legible R (.boolean b)
  | number {x : Float} : Decimal.isPlain (Value.number x).chars = true →
      R (Decimal.ofPlain (Value.number x).chars) x → Legible R (.number x)
  | string {s : String} : (∀ c ∈ s.toList, Text.Legible c) → Legible R (.string s)
  | array {items : List Value} : (∀ v ∈ items, Legible R v) → Legible R (.array items)
  | object {fields : Table Value} : fields.Ordered →
      (∀ field ∈ fields, ∀ c ∈ field.1.toList, Text.Legible c) →
      (∀ field ∈ fields, Legible R field.2) → Legible R (.object fields)

/-- The text of `v` is parsed on as many levels as `v` is nested and on no fewer, and what is parsed
folds to `w` and evaluates to it, whatever is registered and bound. -/
def TextMeans (g : Grammar) (v w : Value) : Prop :=
  ∃ e, (∀ limit, Expr.parse g limit v.text = .ok e ↔ v.height ≤ limit) ∧ e.literal? = some w ∧
    ∀ r context limit, v.height ≤ limit → (e.evaluate r context limit).outcome = .ok w

def fieldChars (field : String × Value) : List Char :=
  Json.stringChars field.1 ++ ':' :: field.2.chars

theorem chars_array (items : List Value) :
    (Value.array items).chars = '[' :: Json.commas chars items ++ [']'] := by
  have hitems : Json.itemChars (itemsJson items) = Json.commas chars items := by
    induction items with
    | nil => rfl
    | cons v rest ih =>
      cases rest with
      | nil => rfl
      | cons w rest =>
        simp only [itemsJson] at ih
        simp only [itemsJson, Json.itemChars, Json.commas, ih, chars]
  rw [chars, toJson, Json.chars, hitems]

theorem chars_object (fields : List (String × Value)) :
    (Value.object fields).chars = '{' :: Json.commas fieldChars fields ++ ['}'] := by
  have hfields : Json.fieldChars (fieldsJson fields) = Json.commas fieldChars fields := by
    induction fields with
    | nil => rfl
    | cons field rest ih =>
      cases rest with
      | nil => rfl
      | cons field' rest =>
        simp only [fieldsJson] at ih
        simp only [fieldsJson, Json.fieldChars, Json.commas, ih, chars, fieldChars]
  rw [chars, toJson, Json.chars, hfields]

theorem phrases_eq_map (items : List Value) : phrases items = items.map phrase := by
  induction items with
  | nil => rfl
  | cons v rest ih => rw [phrases, ih, List.map_cons]

theorem fieldPhrases_eq_map (fields : List (String × Value)) :
    fieldPhrases fields = fields.map fun field => (.quoted field.1, field.2.phrase) := by
  induction fields with
  | nil => rfl
  | cons field rest ih => rw [fieldPhrases, ih, List.map_cons]

theorem exprs_phrases (items : List Value) :
    Phrase.exprs (phrases items) = items.map fun v => v.phrase.expr := by
  rw [phrases_eq_map, Phrase.exprs_eq_map]
  exact List.map_map

theorem fieldExprs_fieldPhrases (fields : List (String × Value)) :
    Phrase.fieldExprs (fieldPhrases fields) =
      fields.map fun field => (field.1, field.2.phrase.expr) := by
  rw [fieldPhrases_eq_map, Phrase.fieldExprs_eq_map]
  exact List.map_map

theorem heights_le {items : List Value} {n : Nat} :
    heights items ≤ n ↔ ∀ v ∈ items, v.height ≤ n := by
  induction items with
  | nil => simp [heights]
  | cons v rest ih => simp only [heights, Nat.max_le, ih, List.forall_mem_cons]

theorem fieldHeights_le {fields : List (String × Value)} {n : Nat} :
    fieldHeights fields ≤ n ↔ ∀ field ∈ fields, field.2.height ≤ n := by
  induction fields with
  | nil => simp [fieldHeights]
  | cons field rest ih => simp only [fieldHeights, Nat.max_le, ih, List.forall_mem_cons]

theorem rereadItems_eq_map (items : List Value) : rereadItems items = items.map reread := by
  induction items with
  | nil => rfl
  | cons v rest ih => rw [rereadItems, ih, List.map_cons]

theorem rereadFields_eq_mapValues (fields : Table Value) :
    rereadFields fields = fields.mapValues reread := by
  induction fields with
  | nil => rfl
  | cons field rest ih =>
    rw [rereadFields, ih]
    rfl

section Legible
variable {R : Float → Float → Prop} {v : Value} {g : Grammar}

theorem Legible.settled (h : v.Legible R) : v.phrase.Settled g := by
  induction h with
  | array _ ih =>
    rw [phrase, phrases_eq_map]
    exact .array (List.forall_mem_map.mpr ih)
  | object _ _ _ ih =>
    rw [phrase, fieldPhrases_eq_map]
    exact .object (List.forall_mem_map.mpr ih)
  | _ => exact .leaf _

theorem Legible.depth_phrase_lt (h : v.Legible R) {n : Nat} :
    v.phrase.depth < n ↔ v.height ≤ n := by
  induction h generalizing n with
  | array _ ih =>
    cases n with
    | zero => simp [height]
    | succ n =>
      rw [phrase, phrases_eq_map, Phrase.depth, height, Nat.lt_succ_iff, Nat.succ_le_succ_iff,
        Phrase.itemsDepth_le, heights_le, List.forall_mem_map]
      exact forall₂_congr fun v hv => ih v hv
  | object _ _ _ ih =>
    cases n with
    | zero => simp [height]
    | succ n =>
      rw [phrase, fieldPhrases_eq_map, Phrase.depth, height, Nat.lt_succ_iff,
        Nat.succ_le_succ_iff, Phrase.fieldsDepth_le, fieldHeights_le, List.forall_mem_map]
      exact forall₂_congr fun field hfield => ih field hfield
  | _ => exact Iff.rfl

theorem Legible.height_phrase_le (h : v.Legible R) {n : Nat} :
    v.phrase.expr.height ≤ n ↔ v.height ≤ n := by
  induction h generalizing n with
  | boolean b => cases b <;> exact Iff.rfl
  | array _ ih =>
    cases n with
    | zero => simp [phrase, Phrase.expr, Expr.height, height]
    | succ n =>
      rw [phrase, Phrase.expr, exprs_phrases, Expr.height, height, Nat.succ_le_succ_iff,
        Nat.succ_le_succ_iff, Expr.heights_le, heights_le, List.forall_mem_map]
      exact forall₂_congr fun v hv => ih v hv
  | object _ _ _ ih =>
    cases n with
    | zero => simp [phrase, Phrase.expr, Expr.height, height]
    | succ n =>
      rw [phrase, Phrase.expr, fieldExprs_fieldPhrases, Expr.height, height,
        Nat.succ_le_succ_iff, Nat.succ_le_succ_iff, Expr.entryHeights_le, fieldHeights_le,
        List.forall_mem_map]
      exact forall₂_congr fun field hfield => ih field hfield
  | _ => exact Iff.rfl

/-- Written out, a value folds to itself but for what its numbers are read as. -/
theorem Legible.literal?_phrase (h : v.Legible R) : v.phrase.expr.literal? = some v.reread := by
  induction h with
  | boolean b => cases b <;> rfl
  | @array items _ ih =>
    have hitems : Expr.literals? (items.map fun v => v.phrase.expr) = some (items.map reread) := by
      rw [Expr.literals?_eq_some, List.forall₂_map_left_iff, List.forall₂_map_right_iff,
        List.forall₂_same]
      exact ih
    rw [phrase, Phrase.expr, exprs_phrases, Expr.literal?, hitems, reread, rereadItems_eq_map]
    rfl
  | @object fields hordered _ _ ih =>
    have hfields : Expr.literalEntries? (fields.map fun field => (field.1, field.2.phrase.expr)) =
        some (fields.mapValues reread) := by
      rw [Expr.literalEntries?_eq_some, Table.mapValues, List.forall₂_map_left_iff,
        List.forall₂_map_right_iff, List.forall₂_same]
      exact fun field hfield => ⟨rfl, ih field hfield⟩
    rw [phrase, Phrase.expr, fieldExprs_fieldPhrases, Expr.literal?, hfields, Option.map_some,
      Table.ofList_of_ordered (hordered.mapValues reread), reread, rereadFields_eq_mapValues]
  | _ => rfl

theorem same_rereadItems {items : List Value} (h : ∀ v ∈ items, v.reread.same v = true) :
    sameItems (rereadItems items) items = true := by
  induction items with
  | nil => rfl
  | cons v rest ih =>
    obtain ⟨hv, hrest⟩ := List.forall_mem_cons.mp h
    rw [rereadItems, sameItems, hv, ih hrest, Bool.and_self]

theorem same_rereadFields {fields : List (String × Value)}
    (h : ∀ field ∈ fields, field.2.reread.same field.2 = true) :
    sameFields (rereadFields fields) fields = true := by
  induction fields with
  | nil => rfl
  | cons field rest ih =>
    obtain ⟨hfield, hrest⟩ := List.forall_mem_cons.mp h
    rw [rereadFields, sameFields, hfield, ih hrest, beq_self_eq_true, Bool.and_self, Bool.and_self]

theorem Legible.same_reread (h : v.Legible fun y x => (y == x) = true) :
    v.reread.same v = true := by
  induction h with
  | null => rfl
  | boolean b => exact beq_self_eq_true b
  | number _ hx => exact hx
  | string _ => exact beq_self_eq_true _
  | array _ ih => exact same_rereadItems ih
  | object _ _ _ ih => exact same_rereadFields ih

theorem Legible.reread_eq (h : v.Legible Eq) : v.reread = v := by
  induction h with
  | number _ hx => rw [reread, hx]
  | array _ ih => rw [reread, rereadItems_eq_map, List.map_congr_left ih, List.map_id']
  | @object fields _ _ _ ih =>
    have hfields : fields.mapValues reread = fields := by
      refine (List.map_congr_left fun field hfield => ?_).trans (List.map_id fields)
      rw [ih field hfield]
      rfl
    rw [reread, rereadFields_eq_mapValues, hfields]
  | _ => rfl

theorem Legible.spells (hg : g.Sound) (h : v.Legible R) :
    Spells g.symbols v.chars v.phrase.tokens := by
  induction h with
  | null => exact spells_name g.symbols (by decide : Text.isName "null".toList = true)
  | boolean b =>
    cases b with
    | true => exact spells_name g.symbols (by decide : Text.isName "true".toList = true)
    | false => exact spells_name g.symbols (by decide : Text.isName "false".toList = true)
  | number hplain _ => exact spells_plain hplain
  | string hs => exact spells_leaf (l := .string _) (scans_legible hs)
  | @array items _ ih =>
    rw [chars_array, phrase, phrases_eq_map, Phrase.tokens, Phrase.itemTokens_eq, separated_map]
    exact spells_brackets hg (spells_commas hg ih)
  | @object fields _ hkeys _ ih =>
    rw [chars_object, phrase, fieldPhrases_eq_map, Phrase.tokens, Phrase.fieldTokens_eq,
      separated_map]
    have hfields : Spells g.symbols (Json.commas fieldChars fields)
        (separated (fun field => Phrase.entryTokens (.quoted field.1, field.2.phrase)) fields) :=
      spells_commas hg fun field hfield =>
        spells_entry hg (scans_legible (hkeys field hfield)) (ih field hfield)
    exact spells_braces hg hfields

theorem Legible.parse_text_iff {r : Registry} (hr : r.Built) (h : v.Legible R) {limit : Nat}
    {e : Expr} :
    Expr.parse r.grammar limit v.text = .ok e ↔ v.phrase.expr = e ∧ v.height ≤ limit := by
  have hscans : Scans r.grammar.symbols v.chars v.phrase.tokens [] := by
    simpa using h.spells hr.sound [] trivial
  have hlexes : LexesTo r.grammar.symbols v.text v.phrase.tokens :=
    (lexesTo_iff_scans (empty_notMem_symbols hr.sound)).mpr hscans
  rw [Expr.parse_eq_ok_iff, ← h.depth_phrase_lt]
  constructor
  · rintro ⟨p, hp, rfl⟩
    obtain ⟨hsettled, htokens, hlimit⟩ := (Phrase.parse_eq_ok_iff hlexes).mp hp
    obtain rfl := Phrase.Settled.unique hlexes hsettled htokens h.settled rfl
    exact ⟨rfl, hlimit⟩
  · rintro ⟨rfl, hlimit⟩
    exact ⟨v.phrase, (Phrase.parse_eq_ok_iff hlexes).mpr ⟨h.settled, rfl, hlimit⟩, rfl⟩

theorem Legible.textMeans {r : Registry} (hr : r.Built) (h : v.Legible R) :
    TextMeans r.grammar v v.reread := by
  have hliteral := h.literal?_phrase
  refine ⟨v.phrase.expr, fun limit => ?_, hliteral, fun r' context limit hlimit => ?_⟩
  · rw [h.parse_text_iff hr]
    exact and_iff_right rfl
  · rw [Expr.evaluate_of_literal hliteral r' context (h.height_phrase_le.mpr hlimit)]
    rfl

end Legible

/-- The text of a value, which is also what `stringify` gives, is an expression for the value under
every grammar that registrations lead to. If the numbers are read back as equal numbers only, as minus
zero is, it is one for an equal value. -/
theorem text_is_expression {r : Registry} (hr : r.Built) (v : Value) :
    (∀ arguments, Transform.stringify v arguments = .ok (.string v.text)) ∧
    (v.Legible Eq → TextMeans r.grammar v v) ∧
    (v.Legible (fun y x => (y == x) = true) → ∃ w, (w == v) = true ∧ TextMeans r.grammar v w) := by
  refine ⟨fun arguments => rfl, ?_, ?_⟩
  · intro h
    have hmeans := h.textMeans hr
    rwa [h.reread_eq] at hmeans
  · intro h
    exact ⟨v.reread, h.same_reread, h.textMeans hr⟩

/-- Nested three levels deep, with a quote in a key and a tab in a string. -/
theorem text_is_expression_nested :
    let v : Value := .object [("a\"b", .array [.number 1.5, .boolean true, .null, .array []]),
      ("k", .string "x\ty")]
    v.text = "\x7b\"a\\\"b\":[1.5,true,null,[]],\"k\":\"x\\ty\"\x7d" ∧ v.Legible Eq ∧ v.height = 3 ∧
      ∃ e, (∀ limit, Expr.parse Registry.standard.grammar limit v.text = .ok e ↔ 3 ≤ limit) ∧
        e.literal? = some v ∧ (e.evaluate .empty [] 3).outcome = .ok v := by
  intro v
  have hv : v.Legible Eq := by
    refine .object (by decide) (by simp [Text.Legible]) ?_
    simp only [List.forall_mem_cons]
    refine ⟨.array ?_, .string (by simp [Text.Legible]), by simp⟩
    simp only [List.forall_mem_cons]
    exact ⟨.number (by decide +kernel) (by decide +kernel), .boolean true, .null, .array (by simp),
      by simp⟩
  obtain ⟨e, hparse, hliteral, hvalue⟩ := (text_is_expression .standard v).2.1 hv
  exact ⟨by decide +kernel, hv, rfl, e, hparse, hliteral, hvalue .empty [] 3 (Nat.le_refl 3)⟩

end Value
end PipeExpr
