import Mathlib.Data.Nat.Find
import PipeExpr.Proofs.Lexer.Encoding
import PipeExpr.Proofs.Lexer.Places

/-!
The lexer called again and again, faults or not. Each call passes blanks and then, before the end of the
text, something; so the end is met, and the tokens are behind each other in the text.
-/
namespace PipeExpr.Lexer
open Cursor
variable {symbols : List String} {text : String}

/-- The lexer on a text behind the first `n` calls. -/
def stateAfter (symbols : List String) (text : String) : Nat → Cursor
  | 0 => atStart text
  | n + 1 => ((stateAfter symbols text n).next symbols).2

def call (symbols : List String) (text : String) (n : Nat) : Lexeme :=
  ((stateAfter symbols text n).next symbols).1

/-- What one call does: it passes blanks up to the start of its reading, and what it reads. -/
structure Moves (text : String) (c : Cursor) (lexeme : Lexeme) (c' : Cursor) : Prop where
  passed : c.offset ≤ lexeme.start
  blank : ∀ i, c.offset ≤ i → i < lexeme.start →
    ∃ b ∈ ([0x20, 0x09, 0x0A, 0x0D] : List UInt8), text.toUTF8.data.toList[i]? = some b
  taken : lexeme.start ≤ c'.offset
  forward : lexeme.content ≠ .ok .eof → lexeme.start < c'.offset
  stop : ∀ t, lexeme.content = .ok t → lexeme.stop = c'.offset

theorem blank_bytes {s : List Char} (h : ∀ c ∈ s, isBlank c = true) :
    ∀ b ∈ Bytes.utf8 s, b ∈ ([0x20, 0x09, 0x0A, 0x0D] : List UInt8) := by
  intro b hb
  obtain ⟨c, hc, hbc⟩ := List.mem_flatMap.mp hb
  have hblank := h c hc
  simp only [isBlank, Bool.or_eq_true, beq_iff_eq] at hblank
  have hbyte : String.utf8EncodeChar c = [0x20] ∨ String.utf8EncodeChar c = [0x09] ∨
      String.utf8EncodeChar c = [0x0A] ∨ String.utf8EncodeChar c = [0x0D] := by
    rcases hblank with ((rfl | rfl) | rfl) | rfl
    · exact .inl rfl
    · exact .inr (.inl rfl)
    · exact .inr (.inr (.inl rfl))
    · exact .inr (.inr (.inr rfl))
  rcases hbyte with he | he | he | he <;>
    · rw [he, List.mem_singleton] at hbc
      simp [hbc]

theorem blank_between {before blanks left : List Char} (htext : text.toList = before ++ (blanks ++ left))
    (hblank : ∀ c ∈ blanks, isBlank c = true) {i : Nat} (hfrom : byteLength before ≤ i)
    (hto : i < byteLength before + byteLength blanks) :
    ∃ b ∈ ([0x20, 0x09, 0x0A, 0x0D] : List UInt8), text.toUTF8.data.toList[i]? = some b := by
  rw [Bytes.toUTF8_eq_utf8, htext, Bytes.utf8_append, Bytes.utf8_append,
    List.getElem?_append_right (by rw [Bytes.length_utf8]; exact hfrom), Bytes.length_utf8]
  have hlt : i - byteLength before < (Bytes.utf8 blanks).length := by
    rw [Bytes.length_utf8]
    omega
  rw [List.getElem?_append_left hlt]
  exact ⟨_, blank_bytes hblank _ (List.getElem_mem hlt), List.getElem?_eq_getElem hlt⟩

theorem slice_ne_nil (hsymbols : "" ∉ symbols) {s : List Char}
    (h : (scan symbols s).content ≠ .ok .eof) : (scan symbols s).slice ≠ [] := by
  intro hnil
  cases s with
  | nil => exact h rfl
  | cons c s =>
    have hlt := scan_rest_lt hsymbols (c := c) (s := s)
    have hsplit := scan_slice_append symbols (c :: s)
    rw [hnil, List.nil_append] at hsplit
    rw [hsplit] at hlt
    omega

theorem Stands.offset_le {c : Cursor} (h : c.Stands text) : c.offset ≤ text.utf8ByteSize := by
  rw [← Bytes.byteLength_toList]
  cases h with
  | between before htext hoffset _ =>
    rw [htext, byteLength_append]
    omega
  | inside before x htext _ hoffset _ =>
    rw [htext, byteLength_append, byteLength]
    omega

theorem moves_readToken (hsymbols : "" ∉ symbols) {c : Cursor} {before : List Char}
    (htext : text.toList = before ++ c.rest) (hoffset : c.offset = byteLength before) :
    Moves text c (c.readToken symbols).1 (c.readToken symbols).2 := by
  have hblank : ∀ i, c.offset ≤ i → i < c.offset + byteLength (c.rest.takeWhile isBlank) →
      ∃ b ∈ ([0x20, 0x09, 0x0A, 0x0D] : List UInt8), text.toUTF8.data.toList[i]? = some b := by
    intro i hfrom hto
    have hsplit : text.toList =
        before ++ (c.rest.takeWhile isBlank ++ c.rest.dropWhile isBlank) := by
      rw [List.takeWhile_append_dropWhile, htext]
    rw [hoffset] at hfrom hto
    exact blank_between hsplit (List.all_eq_true.mp List.all_takeWhile) hfrom hto
  have hsome : (scan symbols (c.rest.dropWhile isBlank)).content ≠ .ok .eof →
      0 < byteLength (scan symbols (c.rest.dropWhile isBlank)).slice :=
    fun h => byteLength_pos (slice_ne_nil hsymbols h)
  unfold readToken
  dsimp only
  split
  · next t hcontent =>
    rw [hcontent] at hsome
    refine ⟨Nat.le_add_right _ _, hblank, Nat.le_add_right _ _, fun hne => ?_, fun _ _ => rfl⟩
    have hpos := hsome fun he => hne (by rw [Except.ok.inj he])
    dsimp only
    omega
  · exact ⟨Nat.le_add_right _ _, hblank, Nat.le_succ _, fun _ => Nat.lt_succ_self _, nofun⟩
  · next fault _ hcontent =>
    rw [hcontent] at hsome
    refine ⟨Nat.le_add_right _ _, hblank, Nat.le_add_right _ _, fun _ => ?_, nofun⟩
    have hpos := hsome nofun
    dsimp only
    omega

theorem Stands.moves (hsymbols : "" ∉ symbols) {c : Cursor} (h : c.Stands text) :
    Moves text c (c.next symbols).1 (c.next symbols).2 := by
  cases h with
  | between before htext hoffset hstray =>
    rw [Cursor.next, if_pos hstray]
    exact moves_readToken hsymbols htext hoffset
  | inside before x htext hlt hoffset hstray =>
    rw [Cursor.next, if_neg (by omega), passStray_eq hsymbols]
    refine ⟨Nat.le_refl _, fun i hfrom hto => ?_, Nat.le_succ _, fun _ => Nat.lt_succ_self _,
      fun _ hend => by cases hend⟩
    exact absurd hto (Nat.not_lt.mpr hfrom)

/-- The end is met where there is nothing but blanks to the end of the text, and nowhere else. -/
theorem Stands.meets_end_iff (hsymbols : "" ∉ symbols) {c : Cursor} (h : c.Stands text) :
    (c.next symbols).1.content = .ok .eof ↔ (c.next symbols).1.start = text.utf8ByteSize := by
  rw [← Bytes.byteLength_toList]
  cases h with
  | between before htext hoffset hstray =>
    have hsize : byteLength text.toList = c.offset + byteLength (c.rest.takeWhile isBlank) +
        byteLength (c.rest.dropWhile isBlank) := by
      rw [Nat.add_assoc, ← byteLength_append, List.takeWhile_append_dropWhile, htext,
        byteLength_append, hoffset]
    rw [Cursor.next, if_pos hstray, readToken_start, hsize]
    constructor
    · intro hend
      rw [scan_content_eof (scan_of_readToken hend), byteLength, Nat.add_zero]
    · intro hstart
      have hleft : c.rest.dropWhile isBlank = [] := by
        by_contra hne
        have hpos := byteLength_pos hne
        omega
      have hscan : (scan symbols (c.rest.dropWhile isBlank)).content = .ok .eof := by
        rw [hleft, scan]
      obtain ⟨start, stop, hread⟩ := readToken_of_ok hscan
      rw [hread]
  | inside before x htext _ hoffset hstray =>
    rw [Cursor.next, if_neg (by omega), passStray_eq hsymbols]
    refine iff_of_false (fun hend => by cases hend) fun hstart => ?_
    rw [htext, byteLength_append, byteLength] at hstart
    dsimp only at hstart
    omega

section Calls

theorem stateAfter_stands (hsymbols : "" ∉ symbols) (text : String) (n : Nat) :
    (stateAfter symbols text n).Stands text := by
  induction n with
  | zero => exact stands_atStart text
  | succ n ih => exact ih.next hsymbols

theorem call_moves (hsymbols : "" ∉ symbols) (text : String) (n : Nat) :
    Moves text (stateAfter symbols text n) (call symbols text n) (stateAfter symbols text (n + 1)) :=
  Stands.moves hsymbols (stateAfter_stands hsymbols text n)

theorem offset_mono (hsymbols : "" ∉ symbols) {m n : Nat} (h : m ≤ n) :
    (stateAfter symbols text m).offset ≤ (stateAfter symbols text n).offset := by
  induction h with
  | refl => exact Nat.le_refl _
  | @step n _ ih =>
    have hmoves := call_moves hsymbols text n
    exact Nat.le_trans ih (Nat.le_trans hmoves.passed hmoves.taken)

/-- Up to the end of the text each call takes a byte. -/
theorem le_offset (hsymbols : "" ∉ symbols) {n : Nat}
    (h : ∀ m < n, (call symbols text m).content ≠ .ok .eof) :
    n ≤ (stateAfter symbols text n).offset := by
  induction n with
  | zero => exact Nat.zero_le _
  | succ n ih =>
    have hmoves := call_moves hsymbols text n
    have hbefore := ih fun m hm => h m (Nat.lt_succ_of_lt hm)
    have hpassed := hmoves.passed
    have hforward := hmoves.forward (h n (Nat.lt_succ_self n))
    omega

theorem exists_eof (hsymbols : "" ∉ symbols) (text : String) :
    ∃ n ≤ text.utf8ByteSize, (call symbols text n).content = .ok .eof ∧
      ∀ m < n, (call symbols text m).content ≠ .ok .eof := by
  have hsome : ∃ n, (call symbols text n).content = .ok .eof := by
    by_contra hnone
    have hmany := le_offset hsymbols (n := text.utf8ByteSize + 1) fun m _ he => hnone ⟨m, he⟩
    have hfew := Stands.offset_le (stateAfter_stands hsymbols text (text.utf8ByteSize + 1))
    omega
  have hbefore : ∀ m < Nat.find hsome, (call symbols text m).content ≠ .ok .eof :=
    fun m => Nat.find_min hsome
  have hmany := le_offset hsymbols hbefore
  have hfew := Stands.offset_le (stateAfter_stands hsymbols text (Nat.find hsome))
  exact ⟨Nat.find hsome, Nat.le_trans hmany hfew, Nat.find_spec hsome, hbefore⟩

theorem readings_eq_calls {n : Nat} (hend : (call symbols text n).content = .ok .eof)
    (hbefore : ∀ m < n, (call symbols text m).content ≠ .ok .eof) {k limit : Nat} (hk : k ≤ n)
    (hlimit : n < k + limit) : (stateAfter symbols text k).readings symbols limit =
      (List.range' k (n + 1 - k)).map (call symbols text) := by
  induction limit generalizing k with
  | zero => omega
  | succ limit ih =>
    have hcount : n + 1 - k = (n - k) + 1 := by omega
    rw [hcount, List.range'_succ, List.map_cons, readings]
    dsimp only
    by_cases hlast : k = n
    · subst hlast
      rw [call] at hend
      simp [hend, call]
    · have hmore := ih (k := k + 1) (by omega) (by omega)
      have hne := hbefore k (by omega)
      have hleft : n + 1 - (k + 1) = n - k := by omega
      rw [hleft] at hmore
      rw [← hmore]
      split
      · next he => exact absurd he hne
      · rfl

end Calls

end PipeExpr.Lexer

namespace PipeExpr
open Lexer
variable {symbols : List String}

/-- The lexer always moves on, and passes over nothing but blanks. Every call before the end of the text
takes a byte at least and none leaves the text, so the end is met with no more calls than bytes and one;
up to there the calls are the readings of the text. What is between the place before a call and the start
of its reading is blank, a token reaches from its start to the place behind the call, and so tokens stand
in their order and apart from each other. The end is met at the end of the text and nowhere else. -/
theorem lexer_moves_on (hsymbols : "" ∉ symbols) (text : String) :
    (∀ n, (call symbols text n).content ≠ .ok .eof →
      (stateAfter symbols text n).offset < (stateAfter symbols text (n + 1)).offset) ∧
      (∀ n, (stateAfter symbols text n).offset ≤ text.utf8ByteSize) ∧
      (∃ n ≤ text.utf8ByteSize, (call symbols text n).content = .ok .eof ∧
        lexemes symbols text = (List.range (n + 1)).map (call symbols text)) ∧
      (∀ n i, (stateAfter symbols text n).offset ≤ i → i < (call symbols text n).start →
        ∃ b ∈ ([0x20, 0x09, 0x0A, 0x0D] : List UInt8), text.toUTF8.data.toList[i]? = some b) ∧
      (∀ n t, (call symbols text n).content = .ok t →
        (stateAfter symbols text n).offset ≤ (call symbols text n).start ∧
          (call symbols text n).start ≤ (call symbols text n).stop ∧
          (call symbols text n).stop = (stateAfter symbols text (n + 1)).offset) ∧
      (∀ m n t u, m < n → (call symbols text m).content = .ok t →
        (call symbols text n).content = .ok u →
        (call symbols text m).stop ≤ (call symbols text n).start) ∧
      ∀ n, (call symbols text n).content = .ok .eof ↔
        (call symbols text n).start = text.utf8ByteSize := by
  have hmoves := call_moves hsymbols text
  refine ⟨fun n hne => ?_, fun n => Stands.offset_le (stateAfter_stands hsymbols text n), ?_,
    fun n => (hmoves n).blank, fun n t ht => ?_, fun m n t u hlt ht _ => ?_,
    fun n => Stands.meets_end_iff hsymbols (stateAfter_stands hsymbols text n)⟩
  · exact Nat.lt_of_le_of_lt (hmoves n).passed ((hmoves n).forward hne)
  · obtain ⟨n, hle, hend, hbefore⟩ := exists_eof hsymbols text
    refine ⟨n, hle, hend, ?_⟩
    rw [lexemes, Bytes.byteLength_toList, List.range_eq_range']
    exact readings_eq_calls hend hbefore (Nat.zero_le _) (by omega)
  · have hstop := (hmoves n).stop t ht
    exact ⟨(hmoves n).passed, hstop ▸ (hmoves n).taken, hstop⟩
  · rw [(hmoves m).stop t ht]
    exact Nat.le_trans (offset_mono hsymbols hlt) (hmoves n).passed

/-- Both bytes of a refused character are passed, one call each, and then the end is met. -/
theorem lexer_moves_on_refused :
    (stateAfter ["=="] "é" 0).offset < (stateAfter ["=="] "é" 1).offset ∧
      ∃ n ≤ 2, (call ["=="] "é" n).content = .ok .eof ∧ (call ["=="] "é" n).start = 2 := by
  obtain ⟨hforward, -, ⟨n, hn, hend, -⟩, -, -, -, hplace⟩ :=
    lexer_moves_on (by decide : "" ∉ ["=="]) "é"
  exact ⟨hforward 0 (by decide), n, hn, hend, (hplace n).mp hend⟩

end PipeExpr
