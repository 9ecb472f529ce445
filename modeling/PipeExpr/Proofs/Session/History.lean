import Mathlib.Data.Finset.Card
import PipeExpr.Proofs.Session.Cache

/-!
What the cache owes to the run behind it. A run parses and clears; its history tells each step and
what it came to. After every run the cache has one entry for each signature, limit and text that a
caching engine has been given a tree for since the last clearing, and all of them got that tree
(`Recorded` is what each step keeps).
-/
namespace PipeExpr

/-- What tells the entries of a cache apart. -/
structure Origin where
  signature : String
  limit : Nat
  text : String
deriving DecidableEq

def Engine.origin (engine : Engine) (text : String) : Origin :=
  ⟨engine.registry.grammar.signature, engine.settings.maxDepth, text⟩

namespace Origin

def key (o : Origin) : String := o.signature ++ "\x01" ++ toString o.limit ++ "\x01" ++ o.text

theorem key_origin (engine : Engine) (text : String) :
    (engine.origin text).key = engine.key text := rfl

def Known (o : Origin) : Prop :=
  ∃ (engine : Engine) (text : String), engine.registry.Built ∧ o = engine.origin text

theorem key_inj {o o' : Origin} (h : o.Known) (h' : o'.Known) (hkey : o.key = o'.key) : o = o' := by
  obtain ⟨a, text, ha, rfl⟩ := h
  obtain ⟨b, text', hb, rfl⟩ := h'
  obtain ⟨hsignature, hlimit, htext⟩ := Cache.key_inj ha.sound hb.sound hkey
  rw [Engine.origin, Engine.origin, Origin.mk.injEq]
  exact ⟨hsignature, hlimit, htext⟩

end Origin

namespace Session

inductive Event where
  | parsed (engine : Engine) (text : String) (outcome : Except Error Tree)
  | cleared

def Event.given? : Event → Option (Origin × Tree)
  | .parsed engine text (.ok tree) =>
    if engine.settings.cache then some (engine.origin text, tree) else none
  | .parsed _ _ (.error _) => none
  | .cleared => none

/-- The part of a history since the last clearing. The newest event comes first. -/
def sinceCleared : List Event → List Event
  | [] => []
  | .cleared :: _ => []
  | .parsed engine text outcome :: earlier => .parsed engine text outcome :: sinceCleared earlier

def given (history : List Event) : List (Origin × Tree) := history.filterMap Event.given?

/-- What parses and clearings lead to, the cache being empty at first. -/
inductive Run : List Event → Session → Prop where
  | start {s : Session} : s.cache = [] → Run [] s
  | parse {history : List Event} {s : Session} {engine : Engine} (text : String) : Run history s →
      engine.registry.Built →
      Run (.parsed engine text ((engine.parse text).outcome s) :: history)
        ((engine.parse text).after s)
  | clear {history : List Event} {s : Session} : Run history s →
      Run (.cleared :: history) (Step.clearCache.after s)

/-- What the cache and the numbers of the trees say of the history. -/
structure Recorded (history : List Event) (s : Session) : Prop where
  ordered : s.cache.Ordered
  find?_iff : ∀ key tree, Table.find? key s.cache = some tree ↔
    ∃ o, (o, tree) ∈ given (sinceCleared history) ∧ key = o.key
  known : ∀ e ∈ given history, e.1.Known
  numbered : ∀ e ∈ given history, e.2.number < s.trees
  apart : ∀ e ∈ given history, ∀ e' ∈ given history, e.2.number = e'.2.number → e.1 = e'.1

section Recorded
variable {history : List Event} {s s' : Session}

theorem sinceCleared_sublist (history : List Event) : (sinceCleared history).Sublist history := by
  induction history with
  | nil => exact .slnil
  | cons event earlier ih =>
    cases event with
    | parsed engine text outcome => exact ih.cons_cons _
    | cleared => exact List.nil_sublist _

theorem given_of_sinceCleared {e : Origin × Tree} (h : e ∈ given (sinceCleared history)) :
    e ∈ given history :=
  ((sinceCleared_sublist history).filterMap Event.given?).subset h

theorem mem_given_cons {event : Event} {e : Origin × Tree} :
    e ∈ given (event :: history) ↔ event.given? = some e ∨ e ∈ given history := by
  rw [given, List.filterMap_cons]
  cases event.given? with
  | none => simp [given]
  | some e' => simp [given, eq_comm]

theorem sinceCleared_append {between : List Event} (h : .cleared ∉ between) (earlier : List Event) :
    sinceCleared (between ++ earlier) = between ++ sinceCleared earlier := by
  induction between with
  | nil => rfl
  | cons event between ih =>
    obtain ⟨hevent, hbetween⟩ := not_or.mp fun hor => h (List.mem_cons.mpr hor)
    cases event with
    | parsed engine text outcome => exact congrArg _ (ih hbetween)
    | cleared => exact absurd rfl hevent

theorem mem_given_sinceCleared_cons {engine : Engine} {text : String}
    {outcome : Except Error Tree} {e : Origin × Tree} :
    e ∈ given (sinceCleared (.parsed engine text outcome :: history)) ↔
      (Event.parsed engine text outcome).given? = some e ∨ e ∈ given (sinceCleared history) := by
  rw [sinceCleared, mem_given_cons]

theorem recorded_nil (hs : s.cache = []) : Recorded [] s where
  ordered := by
    rw [hs]
    exact Table.ordered_nil
  find?_iff key tree := by
    rw [hs]
    simp [Table.find?, sinceCleared, given]
  known := by simp [given]
  numbered := by simp [given]
  apart := by simp [given]

theorem Recorded.clear (h : Recorded history s) :
    Recorded (.cleared :: history) (Step.clearCache.after s) where
  ordered := Table.ordered_nil
  find?_iff key tree := by
    have hempty : (Step.clearCache.after s).cache = [] := rfl
    rw [hempty]
    simp [Table.find?, sinceCleared, given]
  known := h.known
  numbered := h.numbered
  apart := h.apart

/-- A parse that keeps nothing and gives no tree but one that the cache had. -/
theorem Recorded.parse_again (h : Recorded history s) {engine : Engine} {text : String}
    {outcome : Except Error Tree}
    (hgiven : ∀ e, (Event.parsed engine text outcome).given? = some e →
      e ∈ given (sinceCleared history))
    (hcache : s'.cache = s.cache) (htrees : s.trees ≤ s'.trees) :
    Recorded (.parsed engine text outcome :: history) s' := by
  have hall : ∀ e, e ∈ given (.parsed engine text outcome :: history) ↔ e ∈ given history := by
    intro e
    rw [mem_given_cons]
    exact or_iff_right_of_imp fun he => given_of_sinceCleared (hgiven e he)
  have hsince : ∀ e, e ∈ given (sinceCleared (.parsed engine text outcome :: history)) ↔
      e ∈ given (sinceCleared history) := by
    intro e
    rw [mem_given_sinceCleared_cons]
    exact or_iff_right_of_imp (hgiven e)
  constructor
  · rw [hcache]
    exact h.ordered
  · intro key tree
    rw [hcache, h.find?_iff]
    simp only [hsince]
  · intro e he
    exact h.known e ((hall e).mp he)
  · intro e he
    exact Nat.lt_of_lt_of_le (h.numbered e ((hall e).mp he)) htrees
  · intro e he e' he'
    exact h.apart e ((hall e).mp he) e' ((hall e').mp he')

theorem given?_parsed {engine : Engine} (hcaches : engine.settings.cache = true) {text : String}
    {tree : Tree} {e : Origin × Tree} :
    (Event.parsed engine text (.ok tree)).given? = some e ↔ e = (engine.origin text, tree) := by
  simp [Event.given?, hcaches, eq_comm]

/-- A parse that keeps a tree under a key that the cache lacked. -/
theorem Recorded.parse_first (h : Recorded history s) {engine : Engine} {text : String} {tree : Tree}
    (hbuilt : engine.registry.Built) (hcaches : engine.settings.cache = true)
    (hnumber : tree.number = s.trees) (hlacks : Table.find? (engine.key text) s.cache = none)
    (hcache : s'.cache = s.cache.insert (engine.key text) tree) (htrees : s'.trees = s.trees + 1) :
    Recorded (.parsed engine text (.ok tree) :: history) s' where
  ordered := by
    rw [hcache]
    exact Table.ordered_insert h.ordered
  find?_iff key tree' := by
    rw [hcache, Table.find?_insert]
    simp only [mem_given_sinceCleared_cons, given?_parsed hcaches, Prod.mk.injEq]
    constructor
    · intro hfind
      by_cases hkey : key = engine.key text
      · rw [if_pos hkey] at hfind
        exact ⟨engine.origin text, .inl ⟨rfl, (Option.some.inj hfind).symm⟩, hkey⟩
      · rw [if_neg hkey] at hfind
        obtain ⟨o, ho, hkey⟩ := (h.find?_iff key tree').mp hfind
        exact ⟨o, .inr ho, hkey⟩
    · rintro ⟨o, ⟨rfl, rfl⟩ | ho, hkey⟩
      · exact if_pos hkey
      · have hfind := (h.find?_iff key tree').mpr ⟨o, ho, hkey⟩
        have hne : key ≠ engine.key text := by
          rintro rfl
          rw [hlacks] at hfind
          cases hfind
        rw [if_neg hne]
        exact hfind
  known := by
    intro e he
    rw [mem_given_cons, given?_parsed hcaches] at he
    cases he with
    | inl heq => exact heq ▸ ⟨engine, text, hbuilt, rfl⟩
    | inr he => exact h.known e he
  numbered := by
    intro e he
    rw [mem_given_cons, given?_parsed hcaches] at he
    rw [htrees]
    cases he with
    | inl heq => exact heq ▸ hnumber ▸ Nat.lt_succ_self _
    | inr he => exact Nat.lt_succ_of_lt (h.numbered e he)
  apart := by
    -- the number of the new tree is above all that were given before
    have hnew : ∀ e ∈ given history, tree.number ≠ e.2.number := by
      intro e he
      rw [hnumber]
      exact Nat.ne_of_gt (h.numbered e he)
    intro e he e' he' hsame
    rw [mem_given_cons, given?_parsed hcaches] at he he'
    rcases he with rfl | he
    · rcases he' with rfl | he'
      · rfl
      · exact absurd hsame (hnew e' he')
    · rcases he' with rfl | he'
      · exact absurd hsame.symm (hnew e he)
      · exact h.apart e he e' he' hsame

theorem Recorded.parse (h : Recorded history s) {engine : Engine} (hbuilt : engine.registry.Built)
    (text : String) : Recorded (.parsed engine text ((engine.parse text).outcome s) :: history)
      ((engine.parse text).after s) := by
  unfold Step.outcome Step.after
  rcases engine.parse_cases text s with
    ⟨tree, hcaches, hfind, hparse⟩ | ⟨e, s', -, hparse, hcache, htrees, hlacks⟩ |
      ⟨e, s', -, hparse, hcache, htrees⟩
  · rw [hparse]
    obtain ⟨o, ho, hkey⟩ := (h.find?_iff _ tree).mp hfind
    have horigin : engine.origin text = o :=
      Origin.key_inj ⟨engine, text, hbuilt, rfl⟩ (h.known _ (given_of_sinceCleared ho))
        ((Origin.key_origin engine text).trans hkey)
    refine h.parse_again ?_ rfl (Nat.le_refl _)
    simp [Event.given?, hcaches, horigin, ho]
  · rw [hparse]
    cases hcaches : engine.settings.cache with
    | true =>
      rw [if_pos hcaches] at hcache
      exact h.parse_first hbuilt hcaches rfl (hlacks hcaches) hcache htrees
    | false =>
      rw [hcaches, if_neg Bool.false_ne_true] at hcache
      exact h.parse_again (by simp [Event.given?, hcaches]) hcache (by rw [htrees]; exact Nat.le_succ _)
  · rw [hparse]
    exact h.parse_again (by simp [Event.given?]) hcache htrees.ge

theorem Run.recorded (h : Run history s) : Recorded history s := by
  induction h with
  | start hs => exact recorded_nil hs
  | parse text _ hbuilt ih => exact ih.parse hbuilt text
  | clear _ ih => exact ih.clear

theorem Run.of_append {later : List Event} (h : Run (later ++ history) s) :
    ∃ s', Run history s' := by
  induction later generalizing s with
  | nil => exact ⟨s, h⟩
  | cons event later ih =>
    cases h with
    | parse _ hrun _ => exact ih hrun
    | clear hrun => exact ih hrun

theorem Recorded.length_eq (h : Recorded history s) :
    s.cache.length = ((given (sinceCleared history)).map Prod.fst).toFinset.card := by
  have hkeys : s.cache.keys.toFinset =
      ((given (sinceCleared history)).map Prod.fst).toFinset.image Origin.key := by
    ext key
    rw [List.mem_toFinset, ← Table.find?_isSome, Option.isSome_iff_exists]
    simp only [h.find?_iff, Finset.mem_image, List.mem_toFinset, List.mem_map, Prod.exists]
    constructor
    · rintro ⟨tree, o, ho, rfl⟩
      exact ⟨o, ⟨o, tree, ho, rfl⟩, rfl⟩
    · rintro ⟨_, ⟨o, tree, ho, rfl⟩, rfl⟩
      exact ⟨tree, o, ho, rfl⟩
  have hinj : Set.InjOn Origin.key
      ((given (sinceCleared history)).map Prod.fst).toFinset := by
    intro o ho o' ho' hkey
    obtain ⟨e, he, rfl⟩ := List.mem_map.mp (List.mem_toFinset.mp ho)
    obtain ⟨e', he', rfl⟩ := List.mem_map.mp (List.mem_toFinset.mp ho')
    exact Origin.key_inj (h.known e (given_of_sinceCleared he)) (h.known e' (given_of_sinceCleared he'))
      hkey
  calc s.cache.length = s.cache.keys.length := (List.length_map _).symm
    _ = s.cache.keys.toFinset.card := (List.toFinset_card_of_nodup h.ordered.nodup_keys).symm
    _ = _ := by rw [hkeys, Finset.card_image_of_injOn hinj]

theorem Recorded.tree_eq (h : Recorded history s) {o : Origin} {t t' : Tree}
    (ht : (o, t) ∈ given (sinceCleared history)) (ht' : (o, t') ∈ given (sinceCleared history)) :
    t' = t := by
  have hfind := (h.find?_iff o.key t).mpr ⟨o, ht, rfl⟩
  have hfind' := (h.find?_iff o.key t').mpr ⟨o, ht', rfl⟩
  exact Option.some.inj (hfind'.symm.trans hfind)

end Recorded

structure Accounted (history : List Event) (s : Session) : Prop where
  /-- One entry for each origin that a cached parse has succeeded for. -/
  length_eq : s.cache.length = ((given (sinceCleared history)).map Prod.fst).toFinset.card
  /-- An entry is the tree that all these parses of its origin were given. -/
  find?_iff : ∀ (engine : Engine) (text : String) (tree : Tree), engine.registry.Built →
    (Table.find? (engine.key text) s.cache = some tree ↔
      (engine.origin text, tree) ∈ given (sinceCleared history))
  /-- With no clearing between, the later parse is given the tree of the earlier one. -/
  tree_eq : ∀ (later between earlier : List Event) (a b : Engine) (text text' : String) (t t' : Tree),
    history = later ++ .parsed b text' (.ok t') :: (between ++ .parsed a text (.ok t) :: earlier) →
    a.settings.cache = true → b.settings.cache = true → .cleared ∉ between →
    a.origin text = b.origin text' → t' = t
  /-- What differs in signature, limit or text never has an entry in common. -/
  tree_ne : ∀ (a b : Engine) (text text' : String) (t t' : Tree),
    .parsed a text (.ok t) ∈ history → .parsed b text' (.ok t') ∈ history →
    a.settings.cache = true → b.settings.cache = true → a.origin text ≠ b.origin text' →
    a.key text ≠ b.key text' ∧ t.number ≠ t'.number
  /-- Neither a failure nor a parse without the cache changes it. -/
  cache_eq : ∀ (engine : Engine) (text : String),
    engine.settings.cache = false ∨ (∃ e, (engine.parse text).outcome s = .error e) →
    ((engine.parse text).after s).cache = s.cache

section Accounted
variable {history : List Event} {s : Session}

theorem given?_mem {engine : Engine} {text : String} {tree : Tree}
    (h : .parsed engine text (.ok tree) ∈ history) (hcaches : engine.settings.cache = true) :
    (engine.origin text, tree) ∈ given history :=
  List.mem_filterMap.mpr ⟨_, h, (given?_parsed hcaches).mpr rfl⟩

theorem cache_after_parse {engine : Engine} {text : String} (h : engine.settings.cache = false ∨
    ∃ e, (engine.parse text).outcome s = .error e) :
    ((engine.parse text).after s).cache = s.cache := by
  unfold Step.outcome at h
  unfold Step.after
  rcases engine.parse_cases text s with
    ⟨tree, -, -, hparse⟩ | ⟨e, s', -, hparse, hcache, -⟩ | ⟨e, s', -, hparse, hcache, -⟩
  · rw [hparse]
  · rw [hparse] at h ⊢
    obtain huncached | ⟨_, herror⟩ := h
    · rw [huncached] at hcache
      exact hcache
    · cases herror
  · rw [hparse]
    exact hcache

theorem Run.accounted (h : Run history s) : Accounted history s where
  length_eq := h.recorded.length_eq
  find?_iff := by
    intro engine text tree hbuilt
    rw [h.recorded.find?_iff]
    constructor
    · rintro ⟨o, ho, hkey⟩
      have horigin := Origin.key_inj ⟨engine, text, hbuilt, rfl⟩
        (h.recorded.known _ (given_of_sinceCleared ho))
        ((Origin.key_origin engine text).trans hkey)
      rw [horigin]
      exact ho
    · intro hmem
      exact ⟨_, hmem, (Origin.key_origin engine text).symm⟩
  tree_eq := by
    rintro later between earlier a b text text' t t' rfl ha hb hbetween horigin
    obtain ⟨s', hrun⟩ := h.of_append
    have hsince : sinceCleared (.parsed b text' (.ok t') ::
        (between ++ .parsed a text (.ok t) :: earlier)) =
        .parsed b text' (.ok t') :: (between ++ .parsed a text (.ok t) :: sinceCleared earlier) :=
      congrArg _ (sinceCleared_append hbetween _)
    refine hrun.recorded.tree_eq (o := a.origin text) ?_ ?_
    · rw [hsince]
      exact given?_mem (by simp) ha
    · rw [hsince, horigin]
      exact given?_mem (by simp) hb
  tree_ne := by
    intro a b text text' t t' ht ht' ha hb hne
    have hmem := given?_mem ht ha
    have hmem' := given?_mem ht' hb
    constructor
    · intro hkey
      exact hne (Origin.key_inj (h.recorded.known _ hmem) (h.recorded.known _ hmem') hkey)
    · intro hnumber
      exact hne (h.recorded.apart _ hmem _ hmem' hnumber)
  cache_eq _ _ := cache_after_parse

end Accounted

/-- A text that holds the mark of the keys, parsed twice: one entry, and one tree. -/
theorem accounted_marked_text :
    let parse := Engine.standard.parse "'\x01 1'"
    let history : List Event :=
      [.parsed .standard "'\x01 1'" (parse.outcome (parse.after .start)),
       .parsed .standard "'\x01 1'" (parse.outcome .start)]
    Run history (parse.after (parse.after .start)) ∧
      parse.outcome .start = .ok ⟨0, .literal (.string "\x01 1")⟩ ∧
      parse.outcome (parse.after .start) = .ok ⟨0, .literal (.string "\x01 1")⟩ ∧
      (parse.after (parse.after .start)).cache.length = 1 := by
  intro parse history
  have hrun : Run history (parse.after (parse.after .start)) :=
    .parse _ (.parse _ (.start rfl) .standard) .standard
  have hlexes : LexesTo Registry.standard.grammar.symbols "'\x01 1'" [.string "\x01 1"] := by
    rw [LexesTo, Registry.symbols_standard]
    rfl
  have hphrase : Phrase.parse Registry.standard.grammar 128 "'\x01 1'" =
      .ok (.leaf (.string "\x01 1")) :=
    (Phrase.parse_eq_ok_iff hlexes).mpr ⟨.leaf _, rfl, by decide⟩
  have hreading : Engine.standard.reading "'\x01 1'" = .ok (.literal (.string "\x01 1")) :=
    Expr.parse_eq_ok_iff.mpr ⟨_, hphrase, rfl⟩
  have hfirst : parse .start = .ok ⟨0, .literal (.string "\x01 1")⟩
      { Session.start with
        trees := 1
        records := [⟨.debug, "AST cache miss for expression: '\x01 1'"⟩]
        cache := [(Engine.standard.key "'\x01 1'", ⟨0, .literal (.string "\x01 1")⟩)] } := by
    refine (Step.parseCached_miss rfl).trans ?_
    rw [Step.parseFresh_ok hreading]
    rfl
  have hagain : parse (parse.after .start) = .ok ⟨0, .literal (.string "\x01 1")⟩
      (parse.after .start) := by
    refine Step.parseCached_hit ?_
    rw [Step.after, hfirst]
    exact if_pos rfl
  have houtcome : parse.outcome .start = .ok ⟨0, .literal (.string "\x01 1")⟩ := by
    rw [Step.outcome, hfirst]
  have houtcome' : parse.outcome (parse.after .start) = .ok ⟨0, .literal (.string "\x01 1")⟩ := by
    rw [Step.outcome, hagain]
  refine ⟨hrun, houtcome, houtcome', hrun.accounted.length_eq.trans ?_⟩
  simp only [history]
  rw [houtcome, houtcome']
  simp [sinceCleared, given, Event.given?, Engine.standard]

end Session
end PipeExpr
