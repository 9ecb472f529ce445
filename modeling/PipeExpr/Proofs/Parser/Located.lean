import PipeExpr.Proofs.Lexer.Bytes
import PipeExpr.Proofs.Parser.Stepwise
import PipeExpr.Proofs.Registry.Represented

/-!
Where a text is refused. The parser looks at the readings up to the first fault, and up to there each
reading starts between two characters of the text. So the fault that it reports is placed there too.
-/
namespace PipeExpr

/-- A place in front of a character of the text, or at its end. -/
def Boundary (text : String) (place : Nat) : Prop :=
  place ≤ text.utf8ByteSize ∧ String.Pos.Raw.IsValid text ⟨place⟩

def Error.Located (text : String) (e : Error) : Prop :=
  ∃ fault place, e = .malformed fault (some place) ∧ Boundary text place

theorem boundary_of_append {text : String} {before left : List Char}
    (h : text.toList = before ++ left) : Boundary text (byteLength before) := by
  have hvalid : String.Pos.Raw.IsValid text ⟨byteLength before⟩ := by
    rw [String.Pos.Raw.isValid_iff_exists_append]
    refine ⟨String.ofList before, String.ofList left, ?_, ?_⟩
    · rw [← String.ofList_append, ← h, String.ofList_toList]
    · rw [← String.toList_ofList (l := before), Bytes.byteLength_toList, String.toList_ofList]
      rfl
  exact ⟨hvalid.le_utf8ByteSize, hvalid⟩

/-- Up to the first fault and at it, the readings are placed between characters. -/
inductive Placed (text : String) : List Lexeme → Prop where
  | nil : Placed text []
  | token {lexeme : Lexeme} {later : List Lexeme} {t : Token} : lexeme.content = .ok t →
      Boundary text lexeme.start → Placed text later → Placed text (lexeme :: later)
  | fault {lexeme : Lexeme} {later : List Lexeme} {e : Error} : lexeme.content = .error e →
      e.Located text → Placed text (lexeme :: later)

section Readings
open Lexer Cursor
variable {symbols : List String} {text : String}

theorem readToken_placed (symbols : List String) {c : Cursor} {before : List Char}
    (htext : text.toList = before ++ c.rest) (hoffset : c.offset = byteLength before) :
    (∃ t, (c.readToken symbols).1.content = .ok t ∧ Boundary text (c.readToken symbols).1.start ∧
        (c.readToken symbols).2.stray = 0) ∨
      ∃ e, (c.readToken symbols).1.content = .error e ∧ e.Located text := by
  have hsplit : text.toList = (before ++ c.rest.takeWhile isBlank) ++
      ((scan symbols (c.rest.dropWhile isBlank)).slice ++
        (scan symbols (c.rest.dropWhile isBlank)).rest) := by
    rw [scan_slice_append, List.append_assoc, List.takeWhile_append_dropWhile, htext]
  have hstart := boundary_of_append hsplit
  have hfinish := boundary_of_append (hsplit.trans (List.append_assoc _ _ _).symm)
  simp only [byteLength_append, ← hoffset] at hstart hfinish
  unfold readToken
  dsimp only
  split
  · exact .inl ⟨_, rfl, hstart, rfl⟩
  · exact .inr ⟨_, rfl, _, _, rfl, hstart⟩
  · next fault _ _ =>
    refine .inr ⟨_, rfl, fault, _, rfl, ?_⟩
    cases fault with
    | openEscape => exact hfinish
    | _ => exact hstart

theorem placed_readings (hsymbols : "" ∉ symbols) {c : Cursor} (hc : c.Stands text)
    (hstray : c.stray = 0) (limit : Nat) : Placed text (c.readings symbols limit) := by
  induction limit generalizing c with
  | zero => exact .nil
  | succ limit ih =>
    have hnext := hc.next hsymbols
    cases hc with
    | inside before x htext hlt hoffset hinside => omega
    | between before htext hoffset _ =>
      rw [Cursor.next, if_pos hstray] at hnext
      rw [readings, Cursor.next, if_pos hstray]
      obtain ⟨t, hcontent, hstart, hplain⟩ | ⟨e, hcontent, hlocated⟩ :=
        readToken_placed symbols htext hoffset
      · dsimp only
        split
        · exact .token hcontent hstart .nil
        · exact .token hcontent hstart (ih hnext hplain)
      · simp only [hcontent]
        exact .fault hcontent hlocated

theorem placed_lexemes (hsymbols : "" ∉ symbols) (text : String) :
    Placed text (lexemes symbols text) :=
  placed_readings hsymbols (stands_atStart text) rfl _

end Readings

namespace Parser
variable {α β : Type} {g : Grammar} {text : String} {limit : Nat}

structure State.Placed (text : String) (s : State) : Prop where
  place : Boundary text s.place
  later : PipeExpr.Placed text s.later

/-- From a state with placed tokens the parser comes to one, or to an error that is placed, or to the
limit. -/
def Locates (text : String) (limit : Nat) (p : Parse α) : Prop :=
  ∀ s : State, s.Placed text → match p s with
    | .ok _ s' => s'.Placed text
    | .error e _ => e.Located text ∨ e = .depthExceeded limit

theorem locates_of_keeps {p : Parse α}
    (h : ∀ s, ∃ a s', p s = .ok a s' ∧ s'.place = s.place ∧ s'.later = s.later) :
    Locates text limit p := by
  intro s hs
  obtain ⟨a, s', heq, hplace, hlater⟩ := h s
  rw [heq]
  exact ⟨hplace ▸ hs.place, hlater ▸ hs.later⟩

theorem Locates.bind {p : Parse α} {f : α → Parse β} (hp : Locates text limit p)
    (hf : ∀ a, Locates text limit (f a)) : Locates text limit (p >>= f) := by
  intro s hs
  have hp' := hp s hs
  simp only [Bind.bind, EStateM.bind]
  cases h : p s with
  | error e s' =>
    rw [h] at hp'
    exact hp'
  | ok a s' =>
    rw [h] at hp'
    exact hf a s' hp'

theorem Locates.thenAscend {p : Parse α} (hp : Locates text limit p) :
    Locates text limit (thenAscend p) := by
  intro s hs
  have hp' := hp s hs
  unfold Parser.thenAscend
  cases h : p s with
  | error e s' =>
    rw [h] at hp'
    exact hp'
  | ok a s' =>
    rw [h] at hp'
    exact ⟨hp'.place, hp'.later⟩

theorem locates_advance : Locates text limit advance := by
  intro s hs
  unfold advance
  cases hlater : s.later with
  | nil => exact ⟨hs.place, .nil⟩
  | cons lexeme later =>
    have hplaced := hs.later
    rw [hlater] at hplaced
    cases hplaced with
    | token hcontent hstart hrest =>
      simp only [hcontent]
      exact ⟨hstart, hrest⟩
    | fault hcontent hlocated =>
      simp only [hcontent]
      exact .inl hlocated

theorem locates_descend : Locates text limit (descend limit) := by
  intro s hs
  unfold descend
  split
  · next a s' h =>
    split at h
    · cases h
    · cases h
      exact ⟨hs.place, hs.later⟩
  · next e s' h =>
    split at h
    · cases h
      exact .inr rfl
    · cases h

theorem onLevel_locates : OnLevel fun _ p _ => Locates text limit p where
  bind hp hf := hp.bind hf
  pure a := locates_of_keeps fun s => ⟨a, s, rfl, rfl, rfl⟩
  refuse fault := fun s hs => .inl ⟨fault, s.place, rfl, hs.place⟩
  ahead := locates_of_keeps fun s => ⟨_, s, rfl, rfl, rfl⟩
  tokensLeft := locates_of_keeps fun s => ⟨_, s, rfl, rfl, rfl⟩
  advance := locates_advance

theorem stepwise_locates (g : Grammar) (limit : Nat) (text : String) :
    Stepwise g g limit fun _ p _ => Locates text limit p where
  toOnLevel := onLevel_locates
  thenAscend hp := hp.thenAscend
  tooDeep := fun _ _ => .inr rfl
  descend := locates_descend
  ascend := locates_of_keeps fun s => ⟨_, s.up, rfl, rfl, rfl⟩
  operatorAhead := onLevel_locates.operatorAhead_self g

theorem placed_ofLexemes {lexemes : List Lexeme} (h : PipeExpr.Placed text lexemes) :
    match State.ofLexemes lexemes with
    | .ok s => s.Placed text
    | .error e => e.Located text := by
  cases h with
  | nil =>
    have hzero : Boundary text (byteLength []) := boundary_of_append rfl
    exact ⟨hzero, .nil⟩
  | token hcontent hstart hlater =>
    simp only [State.ofLexemes, hcontent]
    exact ⟨hstart, hlater⟩
  | fault hcontent hlocated =>
    simp only [State.ofLexemes, hcontent]
    exact hlocated

end Parser

theorem Expr.parse_cases_located {g : Grammar} (hsymbols : "" ∉ g.symbols) (limit : Nat)
    (text : String) : (∃ e, Expr.parse g limit text = .ok e) ∨
      Expr.parse g limit text = .error (.depthExceeded limit) ∨
      ∃ e, Expr.parse g limit text = .error e ∧ e.Located text := by
  have hstart := Parser.placed_ofLexemes (placed_lexemes hsymbols text)
  unfold Expr.parse Phrase.parse
  cases hs : Parser.State.ofLexemes (lexemes g.symbols text) with
  | error e =>
    rw [hs] at hstart
    exact .inr (.inr ⟨e, rfl, hstart⟩)
  | ok s =>
    rw [hs] at hstart
    have hwhole := (Parser.stepwise_locates g limit text).whole s hstart
    dsimp only
    cases hp : Parser.whole g limit s with
    | ok p s' => exact .inl ⟨p.expr, rfl⟩
    | error e s' =>
      rw [hp] at hwhole
      cases hwhole with
      | inl hlocated => exact .inr (.inr ⟨e, rfl, hlocated⟩)
      | inr hdeep => exact .inr (.inl (hdeep ▸ rfl))

/-- Every failure to parse is the depth or a fault at a place between two characters of the text. On the
bytes of the text the lexer has the same readings, and in none of them it fails in its own way: the
bytes of a number are a number, those of a name and of the content of a string are text. -/
theorem Expr.parse_failure_located (b : Registry.Base) (calls : List Registry.Registration)
    (limit : Nat) (text : String) :
    ((∃ e, Expr.parse (b.after calls).grammar limit text = .ok e) ∨
      Expr.parse (b.after calls).grammar limit text = .error (.depthExceeded limit) ∨
      ∃ fault place,
        Expr.parse (b.after calls).grammar limit text = .error (.malformed fault (some place)) ∧
          place ≤ text.utf8ByteSize ∧ String.Pos.Raw.IsValid text ⟨place⟩) ∧
      (Bytes.readings (b.after calls).grammar.symbols text).map Bytes.Reading.lexeme? =
        (lexemes (b.after calls).grammar.symbols text).map some ∧
      ∀ reading ∈ Bytes.readings (b.after calls).grammar.symbols text, ∀ fault place,
        reading.content = .error (fault, place) → ∃ plain, fault = .ofText plain := by
  have hsymbols := Lexer.empty_notMem_symbols (Registry.built_after b calls).sound
  refine ⟨?_, Bytes.lexeme?_readings hsymbols text, ?_⟩
  · obtain hok | hdeep | ⟨_, herror, fault, place, rfl, hplace⟩ :=
      Expr.parse_cases_located hsymbols limit text
    · exact .inl hok
    · exact .inr (.inl hdeep)
    · exact .inr (.inr ⟨fault, place, herror, hplace⟩)
  · intro reading hmem fault place hcontent
    have hsome := Bytes.isSome_lexeme?_of_mem hsymbols hmem
    unfold Bytes.Reading.lexeme? at hsome
    rw [hcontent] at hsome
    cases fault with
    | ofText plain => exact ⟨plain, rfl⟩
    | _ => cases hsome

end PipeExpr
