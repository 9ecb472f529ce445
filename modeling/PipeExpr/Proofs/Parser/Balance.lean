import PipeExpr.Proofs.Parser.Limits
import PipeExpr.Proofs.Parser.Noted
import PipeExpr.Proofs.Parser.Stepwise

/-!
The depth counter is balanced. A call that succeeds leaves the depth as it was, one that fails does not
leave it lower, and in between it is never lowered below zero or raised by more than one beyond the limit.
`Accounts` says so of the parser and the parser that takes notes at once, and is proved along their
steps.
-/
namespace PipeExpr.Parser
variable {α β : Type}

/-- What is noted while the depth is `top` at most, or one more where the limit is met. -/
def Note.Sound (top : Nat) : Note → Prop
  | .raised depth => depth ≤ top + 1
  | .lowered depth amount => amount ≤ depth ∧ depth ≤ top + 1
  | .item list depth => depth = list
  | .returned _ entry exit ok => (ok = true → exit = entry) ∧ entry ≤ exit ∧ exit ≤ top + 1

/-- The notes follow the depth from `before` to `after`, without a gap. -/
def Leads : Nat → List Note → Nat → Prop
  | before, [], after => before = after
  | before, .raised depth :: notes, after => depth = before + 1 ∧ Leads depth notes after
  | before, .lowered depth amount :: notes, after =>
    depth = before ∧ Leads (depth - amount) notes after
  | before, .item _ depth :: notes, after => depth = before ∧ Leads before notes after
  | before, .returned _ _ exit _ :: notes, after => exit = before ∧ Leads before notes after

theorem Leads.append {before mid after : Nat} {notes notes' : List Note}
    (h : Leads before notes mid) (h' : Leads mid notes' after) :
    Leads before (notes ++ notes') after := by
  induction notes generalizing before with
  | nil => exact Eq.mpr (by rw [h]; rfl) h'
  | cons note rest ih => cases note <;> exact ⟨h.1, ih h.2⟩

/-- A parser that keeps the depth if it succeeds, and otherwise does not lower it and goes at most one
level beyond the limit. -/
def Balanced (limit : Nat) (p : Parse α) : Prop := ∀ s : State,
  match p s with
  | .ok _ s' => s'.depth = s.depth
  | .error _ s' => s.depth ≤ s'.depth ∧ s'.depth ≤ max limit s.depth + 1

def giveBack (amount : Nat) : EStateM.Result Error State α → EStateM.Result Error State α
  | .ok a s => .ok a (s.upBy amount)
  | .error e s => .error e s

/-- The depth is `after` behind a result, and between `low` and one beyond `top` behind an error. -/
def Settles (top low after : Nat) : EStateM.Result Error State α → Prop
  | .ok _ s => s.depth = after
  | .error _ s => low ≤ s.depth ∧ s.depth ≤ top + 1

/-- The run has the result with some levels given back, and its notes tell how the depth came there. -/
structure Run.Accounts (top low before after back : Nat) (run : Run α)
    (result : EStateM.Result Error State α) : Prop where
  result : run.result = giveBack back result
  sound : ∀ note ∈ run.notes, note.Sound top
  leads : Leads before run.notes (stateOf run.result).depth
  settles : Settles top low after run.result

/-- From every state on the level `before` the parser that takes notes does what the other one does, and
gives back some levels more if it succeeds. -/
def Accounts (top low before after back : Nat) (r : Noted α) (p : Parse α) : Prop :=
  ∀ s : State, s.depth = before → (r s).Accounts top low before after back (p s)

section Accounts
variable {limit top low before mid after back : Nat} {r : Noted α} {p : Parse α}

theorem Accounts.mono {low' : Nat} (h : Accounts top low before after back r p) (hlow : low' ≤ low) :
    Accounts top low' before after back r p := by
  intro s hs
  obtain ⟨hresult, hsound, hleads, hsettles⟩ := h s hs
  refine ⟨hresult, hsound, hleads, ?_⟩
  cases hr : (r s).result with
  | ok a s' =>
    rw [hr] at hsettles
    exact hsettles
  | error e s' =>
    rw [hr] at hsettles
    exact ⟨Nat.le_trans hlow hsettles.1, hsettles.2⟩

theorem Accounts.bind {f : α → Noted β} {f' : α → Parse β} (hp : Accounts top low before mid 0 r p)
    (hf : ∀ a, Accounts top low mid after back (f a) (f' a)) :
    Accounts top low before after back (r >>= f) (p >>= f') := by
  intro s hs
  obtain ⟨hresult, hsound, hleads, hsettles⟩ := hp s hs
  cases h : p s with
  | error e s' =>
    rw [h] at hresult
    rw [hresult] at hleads hsettles
    rw [Noted.bind_error hresult, bind_of_error h]
    exact ⟨rfl, hsound, hleads, hsettles⟩
  | ok a s' =>
    rw [h] at hresult
    rw [hresult] at hleads hsettles
    have hrest := hf a s' hsettles
    rw [Noted.bind_ok hresult, bind_of_ok h]
    exact ⟨hrest.result, List.forall_mem_append.mpr ⟨hsound, hrest.sound⟩,
      hleads.append (hsettles.symm ▸ hrest.leads), hrest.settles⟩

def Level (p : Parse α) : Prop := ∀ s, (stateOf (p s)).depth = s.depth

theorem Level.bind {f : α → Parse β} (hp : Level p) (hf : ∀ a, Level (f a)) : Level (p >>= f) := by
  intro s
  have hlevel := hp s
  cases h : p s with
  | error e s' =>
    rw [h] at hlevel
    rw [bind_of_error h]
    exact hlevel
  | ok a s' =>
    rw [h] at hlevel
    rw [bind_of_ok h]
    exact (hf a s').trans hlevel

theorem level_advance : Level advance := by
  intro s
  unfold advance
  split
  · rfl
  · split <;> rfl

theorem onLevel_level : OnLevel fun _ p _ => Level p where
  bind hp hf := hp.bind hf
  pure _ _ := rfl
  refuse _ _ := rfl
  ahead _ := rfl
  tokensLeft _ := rfl
  advance := level_advance

theorem giveBack_zero (result : EStateM.Result Error State α) : giveBack 0 result = result := by
  cases result <;> rfl

theorem Level.accounts (h : Level p) (hlow : low ≤ before) (htop : before ≤ top + 1) :
    Accounts top low before before 0 (Noted.plain p) p := by
  intro s hs
  have hlevel := h s
  refine ⟨(giveBack_zero _).symm, nofun, hs.symm.trans hlevel.symm, ?_⟩
  change Settles top low before (p s)
  cases hp : p s with
  | ok a s' =>
    rw [hp] at hlevel
    exact hlevel.trans hs
  | error e s' =>
    rw [hp] at hlevel
    change low ≤ s'.depth ∧ s'.depth ≤ top + 1
    rw [show s'.depth = s.depth from hlevel, hs]
    exact ⟨hlow, htop⟩

theorem accounts_tooDeep (hlow : low ≤ before) (htop : before ≤ top + 1) :
    Accounts top low before after back (Noted.plain (tooDeep limit : Parse α)) (tooDeep limit) := by
  rintro s rfl
  exact ⟨rfl, nofun, rfl, hlow, htop⟩

/-- One level further down there is room for one error more. -/
theorem accounts_raise_bind {f : Unit → Noted β} {f' : Unit → Parse β} (hlimit : limit ≤ top)
    (hlow : low ≤ before) (htop : before ≤ top)
    (h : before + 1 ≤ top → Accounts top low (before + 1) after back (f ()) (f' ())) :
    Accounts top low before after back (Noted.raise limit >>= f) (descend limit >>= f') := by
  rintro s rfl
  have hraised : (Note.raised (s.depth + 1)).Sound top := Nat.succ_le_succ htop
  by_cases hdeep : limit ≤ s.depth
  · have hdescend := descend_beyond hdeep
    rw [Noted.bind_error (p := Noted.raise limit) hdescend, bind_of_error hdescend]
    exact ⟨rfl, List.forall_mem_singleton.mpr hraised, ⟨rfl, rfl⟩, Nat.le_succ_of_le hlow,
      Nat.succ_le_succ htop⟩
  · have hdescend := descend_within (Nat.not_le.mp hdeep)
    obtain ⟨hresult, hsound, hleads, hsettles⟩ :=
      h (by omega) { s with depth := s.depth + 1 } rfl
    rw [Noted.bind_ok (p := Noted.raise limit) hdescend, bind_of_ok hdescend]
    exact ⟨hresult, List.forall_mem_cons.mpr ⟨hraised, hsound⟩, ⟨rfl, hleads⟩, hsettles⟩

theorem Accounts.thenLower (h : Accounts top (low + 1) before (after + 1) 0 r p)
    (hafter : after ≤ top) : Accounts top low before after 0 (Noted.thenLower r) (thenAscend p) := by
  intro s hs
  obtain ⟨hresult, hsound, hleads, hsettles⟩ := h s hs
  unfold Noted.thenLower Parser.thenAscend
  cases hp : p s with
  | ok a s' =>
    rw [hp] at hresult
    rw [hresult] at hleads hsettles ⊢
    have hdepth : s'.depth = after + 1 := hsettles
    have hlowered : (Note.lowered s'.depth 1).Sound top := ⟨by omega, by omega⟩
    refine ⟨rfl, List.forall_mem_append.mpr ⟨hsound, List.forall_mem_singleton.mpr hlowered⟩,
      hleads.append ⟨rfl, rfl⟩, ?_⟩
    change s'.depth - 1 = after
    omega
  | error e s' =>
    rw [hp] at hresult
    rw [hresult] at hleads hsettles ⊢
    obtain ⟨hlow, htop⟩ := hsettles
    have hlowered : (Note.lowered s'.depth 1).Sound top := ⟨by omega, htop⟩
    refine ⟨rfl, List.forall_mem_append.mpr ⟨hsound, List.forall_mem_singleton.mpr hlowered⟩,
      hleads.append ⟨rfl, rfl⟩, ?_⟩
    change low ≤ s'.depth - 1 ∧ s'.depth - 1 ≤ top + 1
    omega

/-- The level that the one parser goes up behind a result the other one gives back with the rest. -/
theorem Accounts.ascend (h : Accounts top low before after (back + 1) r p) :
    Accounts top low before after back r (p >>= fun a => ascend >>= fun _ => pure a) := by
  intro s hs
  obtain ⟨hresult, hsound, hleads, hsettles⟩ := h s hs
  refine ⟨?_, hsound, hleads, hsettles⟩
  cases hp : p s with
  | ok a s' =>
    rw [bind_of_ok hp, hresult, hp]
    exact congrArg (EStateM.Result.ok a) (State.upBy_succ back s')
  | error e s' =>
    rw [bind_of_error hp, hresult, hp]
    rfl

theorem accounts_lower (htop : before + back ≤ top + 1) (a : α) : Accounts top low (before + back)
    before back (Noted.lower back >>= fun _ => pure a) (pure a) := by
  intro s hs
  have hlowered : (Note.lowered s.depth back).Sound top := ⟨by omega, by omega⟩
  refine ⟨rfl, List.forall_mem_singleton.mpr hlowered, ⟨hs, rfl⟩, ?_⟩
  change s.depth - back = before
  omega

theorem Accounts.call (h : Accounts top before before before 0 r p) (htop : before ≤ top)
    (routine : Routine) : Accounts top before before before 0 (Noted.call routine r) p := by
  rintro s rfl
  obtain ⟨hresult, hsound, hleads, hsettles⟩ := h s rfl
  have hreturned : (Note.returned routine s.depth (stateOf (r s).result).depth
      (isOk (r s).result)).Sound top := by
    cases hr : (r s).result with
    | ok a s' =>
      rw [hr] at hsettles
      have hdepth : s'.depth = s.depth := hsettles
      exact ⟨fun _ => hdepth, hdepth.ge, (hdepth.le.trans htop).trans (Nat.le_succ top)⟩
    | error e s' =>
      rw [hr] at hsettles
      exact ⟨nofun, hsettles⟩
  exact ⟨hresult, List.forall_mem_append.mpr ⟨hsound, List.forall_mem_singleton.mpr hreturned⟩,
    hleads.append ⟨rfl, rfl⟩, hsettles⟩

theorem Accounts.startItem (h : Accounts top low before after back r p) :
    Accounts top low before after back (Noted.startItem before >>= fun _ => r) p := by
  intro s hs
  obtain ⟨hresult, hsound, hleads, hsettles⟩ := h s hs
  exact ⟨hresult, List.forall_mem_cons.mpr ⟨hs, hsound⟩, ⟨hs, hleads⟩, hsettles⟩

theorem accounts_depth_bind {f : Nat → Noted α} (h : Accounts top low before after back (f before) p) :
    Accounts top low before after back (Noted.depth >>= f) p := by
  rintro s rfl
  exact h s rfl

end Accounts

/-- The depth is kept, and an error leaves it where it was or further down. -/
abbrev Keeps (top before : Nat) (r : Noted α) (p : Parse α) : Prop :=
  Accounts top before before before 0 r p

section Keeps
variable {limit top before levels : Nat} {r : Noted α} {p : Parse α}

theorem Level.keeps (h : Level p) (htop : before ≤ top) : Keeps top before (Noted.plain p) p :=
  h.accounts (Nat.le_refl before) (Nat.le_succ_of_le htop)

theorem keeps_items (h : Keeps top before r p) (htop : before ≤ top) (close : Mark)
    (what : Expectation) (rounds : Nat) :
    Keeps top before (Noted.items close what r before rounds) (items close what p rounds) := by
  induction rounds with
  | zero => exact (onLevel_level.refuseAhead what).keeps htop
  | succ rounds ih =>
    rw [Noted.items, items]
    refine Accounts.startItem (h.bind fun a => ?_)
    refine (onLevel_level.ahead.keeps htop).bind fun token => ?_
    split
    · refine (level_advance.keeps htop).bind fun _ => ih.bind fun rest => ?_
      exact (onLevel_level.pure _).keeps htop
    · split
      · refine (level_advance.keeps htop).bind fun _ => ?_
        exact (onLevel_level.pure _).keeps htop
      · exact (onLevel_level.refuseAhead what).keeps htop

theorem keeps_listOf (h : Keeps top before r p) (htop : before ≤ top) (routine : Routine)
    (close : Mark) (what : Expectation) :
    Keeps top before (Noted.listOf routine close what r) (listOf close what p) := by
  unfold Noted.listOf listOf
  refine Accounts.call (accounts_depth_bind ?_) htop routine
  refine (onLevel_level.ahead.keeps htop).bind fun token => ?_
  split
  · exact (level_advance.keeps htop).bind fun _ => (onLevel_level.pure _).keeps htop
  · exact (onLevel_level.tokensLeft.keeps htop).bind fun rounds => keeps_items h htop close what rounds

theorem keeps_entry {r : Noted Phrase} {p : Parse Phrase} (h : Keeps top before r p)
    (htop : before ≤ top) : Keeps top before (Noted.entry r) (entry p) := by
  unfold Noted.entry entry
  refine (onLevel_level.objectKey.keeps htop).bind fun key => ?_
  refine (level_advance.keeps htop).bind fun _ => ?_
  refine ((onLevel_level.expect _ _).keeps htop).bind fun _ => h.bind fun value => ?_
  exact (onLevel_level.pure _).keeps htop

def ExpressionKeeps (g : Grammar) (limit top levels : Nat) : Prop := ∀ before ≤ top,
  Keeps top before (Noted.expression g limit levels) (expression g limit levels)

variable {g : Grammar}

theorem atom_keeps (he : ExpressionKeeps g limit top levels) (htop : before ≤ top) :
    Keeps top before (Noted.atom g limit levels) (atom g limit levels) := by
  have hinner := he before htop
  rw [Noted.atom, atom]
  refine Accounts.call ((onLevel_level.ahead.keeps htop).bind fun token => ?_) htop .atom
  cases token with
  | mark m =>
    cases m with
    | leftParen =>
      refine (level_advance.keeps htop).bind fun _ => hinner.bind fun inner => ?_
      refine ((onLevel_level.expect _ _).keeps htop).bind fun _ => ?_
      exact (onLevel_level.pure _).keeps htop
    | leftBracket =>
      refine (level_advance.keeps htop).bind fun _ => ?_
      refine (keeps_listOf hinner htop .list _ _).bind fun items => ?_
      exact (onLevel_level.pure _).keeps htop
    | leftBrace =>
      refine (level_advance.keeps htop).bind fun _ => ?_
      refine (keeps_listOf (keeps_entry hinner htop) htop .object _ _).bind fun fields => ?_
      exact (onLevel_level.pure _).keeps htop
    | _ => exact (onLevel_level.refuse _).keeps htop
  | operator | eof => exact (onLevel_level.refuse _).keeps htop
  | number | identifier | string | keyword =>
    exact (level_advance.keeps htop).bind fun _ => (onLevel_level.pure _).keeps htop

theorem step_keeps (he : ExpressionKeeps g limit top levels) (htop : before ≤ top) (node : Phrase)
    (mark : Mark) :
    Keeps top before (Noted.step g limit node mark levels) (step g limit node mark levels) := by
  have hinner := he before htop
  rw [Noted.step.eq_def, step.eq_def]
  cases mark with
  | dot =>
    refine (onLevel_level.propertyName.keeps htop).bind fun name => ?_
    exact (level_advance.keeps htop).bind fun _ => (onLevel_level.pure _).keeps htop
  | leftBracket =>
    refine hinner.bind fun key => ((onLevel_level.expect _ _).keeps htop).bind fun _ => ?_
    exact (onLevel_level.pure _).keeps htop
  | _ =>
    refine (onLevel_level.transformName.keeps htop).bind fun name => ?_
    refine (level_advance.keeps htop).bind fun _ => ?_
    refine (onLevel_level.ahead.keeps htop).bind fun token => ?_
    split
    · refine (level_advance.keeps htop).bind fun _ => ?_
      refine (keeps_listOf hinner htop .list _ _).bind fun arguments => ?_
      exact (onLevel_level.pure _).keeps htop
    · exact (onLevel_level.pure _).keeps htop

/-- Behind `count` steps the depth is `count` levels further down, and the loop gives them back. -/
theorem steps_accounts (hlimit : limit ≤ top) (he : ∀ k < levels, ExpressionKeeps g limit top k)
    (node : Phrase) (count : Nat) (htop : before + count ≤ top) :
    Accounts top before (before + count) before count (Noted.steps g limit node count levels)
      (steps g limit node levels) := by
  have hlow := Nat.le_add_right before count
  induction levels using Nat.strongRecOn generalizing node count with
  | ind levels ih =>
    rw [Noted.steps.eq_def, steps.eq_def]
    refine (onLevel_level.ahead.accounts hlow (Nat.le_succ_of_le htop)).bind fun token => ?_
    cases step? token with
    | none => exact accounts_lower (Nat.le_succ_of_le htop) node
    | some mark =>
      refine accounts_raise_bind hlimit hlow htop fun hroom => ?_
      have hlow' := Nat.le_succ_of_le hlow
      cases levels with
      | zero => exact accounts_tooDeep hlow' (Nat.le_succ_of_le hroom)
      | succ levels =>
        have hlt := Nat.lt_succ_self levels
        have hstep := step_keeps (he levels hlt) hroom node mark
        refine (level_advance.accounts hlow' (Nat.le_succ_of_le hroom)).bind fun _ => ?_
        refine (hstep.mono hlow').bind fun next => Accounts.ascend ?_
        exact ih levels hlt (fun k hk => he k (Nat.lt_succ_of_lt hk)) next (count + 1) hroom hlow'

theorem path_keeps (hlimit : limit ≤ top) (he : ∀ k ≤ levels, ExpressionKeeps g limit top k)
    (htop : before ≤ top) : Keeps top before (Noted.path g limit levels) (path g limit levels) := by
  rw [Noted.path, path]
  refine Accounts.call ?_ htop .path
  refine (atom_keeps (he levels (Nat.le_refl levels)) htop).bind fun start => ?_
  exact steps_accounts hlimit (fun k hk => he k (Nat.le_of_lt hk)) start 0 htop

theorem unary_keeps (hlimit : limit ≤ top) (he : ∀ k ≤ levels, ExpressionKeeps g limit top k)
    (htop : before ≤ top) : Keeps top before (Noted.unary g limit levels) (unary g limit levels) := by
  induction levels using Nat.strongRecOn generalizing before with
  | ind levels ih =>
    rw [Noted.unary.eq_def, unary.eq_def]
    refine Accounts.call ((onLevel_level.ahead.keeps htop).bind fun token => ?_) htop .unary
    cases Sign.ofToken? token with
    | none => exact path_keeps hlimit he htop
    | some sign =>
      refine (level_advance.keeps htop).bind fun _ => ?_
      refine accounts_raise_bind hlimit (Nat.le_refl before) htop fun hroom => ?_
      cases levels with
      | zero => exact accounts_tooDeep (Nat.le_succ before) (Nat.le_succ_of_le hroom)
      | succ levels =>
        have hoperand := ih levels (Nat.lt_succ_self levels)
          (fun k hk => he k (Nat.le_succ_of_le hk)) hroom
        refine (hoperand.thenLower htop).bind fun operand => ?_
        exact (onLevel_level.pure _).keeps htop

def FoldsAccount (g : Grammar) (limit top levels : Nat) : Prop :=
  ∀ before count least left, before + count ≤ top →
    Accounts top before (before + count) before count (Noted.folds g limit least left count levels)
      (folds g limit least left levels)

theorem binary_keeps (hlimit : limit ≤ top) (he : ∀ k ≤ levels, ExpressionKeeps g limit top k)
    (hf : FoldsAccount g limit top levels) (htop : before ≤ top) (least : Nat) :
    Keeps top before (Noted.binary g limit least levels) (binary g limit least levels) := by
  rw [Noted.binary, binary]
  refine Accounts.call ((unary_keeps hlimit he htop).bind fun left => ?_) htop .binary
  exact hf before 0 least left htop

theorem folds_account (hlimit : limit ≤ top) (he : ∀ k < levels, ExpressionKeeps g limit top k) :
    FoldsAccount g limit top levels := by
  induction levels using Nat.strongRecOn with
  | ind levels ih =>
    intro before count least left htop
    have hlow := Nat.le_add_right before count
    rw [Noted.folds.eq_def, folds.eq_def]
    refine ((onLevel_level.operatorAhead_self g least).accounts hlow
      (Nat.le_succ_of_le htop)).bind fun found => ?_
    cases found with
    | none => exact accounts_lower (Nat.le_succ_of_le htop) left
    | some o =>
      obtain ⟨operator, precedence⟩ := o
      refine (level_advance.accounts hlow (Nat.le_succ_of_le htop)).bind fun _ => ?_
      refine accounts_raise_bind hlimit hlow htop fun hroom => ?_
      have hlow' := Nat.le_succ_of_le hlow
      cases levels with
      | zero => exact accounts_tooDeep hlow' (Nat.le_succ_of_le hroom)
      | succ levels =>
        have hbelow : ∀ k ≤ levels, ExpressionKeeps g limit top k :=
          fun k hk => he k (Nat.lt_succ_of_le hk)
        have hf := ih levels (Nat.lt_succ_self levels) fun k hk => hbelow k (Nat.le_of_lt hk)
        have hright := binary_keeps hlimit hbelow hf hroom (precedence + 1)
        refine (hright.mono hlow').bind fun right => Accounts.ascend ?_
        exact hf before (count + 1) least (.binary operator left right) hroom

theorem conditional_keeps (hlimit : limit ≤ top) (he : ∀ k ≤ levels, ExpressionKeeps g limit top k)
    (htop : before ≤ top) :
    Keeps top before (Noted.conditional g limit levels) (conditional g limit levels) := by
  have hbranch := he levels (Nat.le_refl levels) before htop
  have hf := folds_account hlimit fun k hk => he k (Nat.le_of_lt hk)
  rw [Noted.conditional, conditional]
  refine Accounts.call ((binary_keeps hlimit he hf htop 0).bind fun test => ?_) htop .conditional
  refine (onLevel_level.ahead.keeps htop).bind fun token => ?_
  split
  · refine (level_advance.keeps htop).bind fun _ => hbranch.bind fun consequent => ?_
    refine ((onLevel_level.expect _ _).keeps htop).bind fun _ => hbranch.bind fun alternate => ?_
    exact (onLevel_level.pure _).keeps htop
  · exact (onLevel_level.pure _).keeps htop

theorem expression_keeps (g : Grammar) (hlimit : limit ≤ top) (levels : Nat) :
    ExpressionKeeps g limit top levels := by
  induction levels using Nat.strongRecOn with
  | ind levels ih =>
    intro before htop
    cases levels with
    | zero =>
      rw [Noted.expression.eq_def, expression.eq_def]
      refine Accounts.call ?_ htop .expression
      refine accounts_raise_bind hlimit (Nat.le_refl before) htop fun hroom => ?_
      exact accounts_tooDeep (Nat.le_succ before) (Nat.le_succ_of_le hroom)
    | succ levels =>
      rw [Noted.expression, expression]
      refine Accounts.call ?_ htop .expression
      refine accounts_raise_bind hlimit (Nat.le_refl before) htop fun hroom => ?_
      have hinner := conditional_keeps hlimit (fun k hk => ih k (Nat.lt_succ_of_le hk)) hroom
      exact hinner.thenLower htop

theorem whole_keeps (g : Grammar) (limit : Nat) :
    Keeps limit 0 (Noted.whole g limit) (whole g limit) := by
  have htop := Nat.zero_le limit
  unfold Noted.whole whole
  refine (onLevel_level.ahead.keeps htop).bind fun token => ?_
  split
  · exact (onLevel_level.refuse _).keeps htop
  · refine (expression_keeps g (Nat.le_refl limit) limit 0 htop).bind fun p => ?_
    refine (onLevel_level.ahead.keeps htop).bind fun token => ?_
    cases token with
    | eof => exact (onLevel_level.pure _).keeps htop
    | _ => exact (onLevel_level.refuse _).keeps htop

theorem balanced_of_keeps (h : ∀ top before, limit ≤ top → before ≤ top → Keeps top before r p) :
    Balanced limit p := by
  intro s
  obtain ⟨hresult, -, -, hsettles⟩ :=
    h (max limit s.depth) s.depth (Nat.le_max_left _ _) (Nat.le_max_right _ _) s rfl
  rw [hresult, giveBack_zero] at hsettles
  exact hsettles

end Keeps

/-- The notes on a whole text tell how the depth came from zero to where it is in the end. -/
theorem notes_balanced (g : Grammar) (limit : Nat) (text : String) :
    (Noted.parse g limit text).outcome = Phrase.parse g limit text ∧
      (∀ note ∈ (Noted.parse g limit text).events, note.Sound limit) ∧
      ∃ after ≤ limit + 1, Leads 0 (Noted.parse g limit text).events after ∧
        ∀ p, Phrase.parse g limit text = .ok p → after = 0 := by
  unfold Noted.parse Phrase.parse
  cases hs : State.ofLexemes (lexemes g.symbols text) with
  | error e => exact ⟨rfl, nofun, 0, Nat.zero_le _, rfl, nofun⟩
  | ok s =>
    obtain ⟨hresult, hsound, hleads, hsettles⟩ := whole_keeps g limit s (depth_ofLexemes hs)
    rw [giveBack_zero] at hresult
    rw [hresult] at hleads hsettles
    dsimp only
    rw [hresult]
    cases hw : whole g limit s with
    | ok p s' =>
      rw [hw] at hleads hsettles
      exact ⟨rfl, hsound, _, (Nat.le_of_eq hsettles).trans (Nat.zero_le _), hleads, fun _ _ => hsettles⟩
    | error e s' =>
      rw [hw] at hleads hsettles
      exact ⟨rfl, hsound, _, hsettles.2, hleads, nofun⟩

/-- Whatever the state, each function of the parser keeps the depth if it succeeds, and if it fails does not
lower it and goes at most one level beyond the limit. While a text is read, the same holds of every
call, no more levels are given back than there are, the depth is never more than one beyond the limit,
and each item of a list is read at the depth of the list. -/
theorem depth_balanced (g : Grammar) (limit : Nat) :
    (∀ levels, Balanced limit (expression g limit levels) ∧
      Balanced limit (conditional g limit levels) ∧
      (∀ least, Balanced limit (binary g limit least levels)) ∧
      Balanced limit (unary g limit levels) ∧
      Balanced limit (path g limit levels) ∧
      (∀ close what, Balanced limit (listOf close what (expression g limit levels))) ∧
      (∀ close what, Balanced limit (listOf close what (entry (expression g limit levels)))) ∧
      Balanced limit (atom g limit levels)) ∧
    ∀ text, (Noted.parse g limit text).outcome = Phrase.parse g limit text ∧
      (∀ note ∈ (Noted.parse g limit text).events, note.Sound limit) ∧
      ∃ after ≤ limit + 1, Leads 0 (Noted.parse g limit text).events after ∧
        ∀ p, Phrase.parse g limit text = .ok p → after = 0 := by
  have hkeeps : ∀ top, limit ≤ top → ∀ k, ExpressionKeeps g limit top k :=
    fun top hlimit => expression_keeps g hlimit
  refine ⟨fun levels => ⟨?_, ?_, ?_, ?_, ?_, ?_, ?_, ?_⟩, fun text => ?_⟩
  · exact balanced_of_keeps fun top before hlimit htop => hkeeps top hlimit levels before htop
  · exact balanced_of_keeps fun top before hlimit htop =>
      conditional_keeps hlimit (fun k _ => hkeeps top hlimit k) htop
  · intro least
    exact balanced_of_keeps fun top before hlimit htop =>
      binary_keeps hlimit (fun k _ => hkeeps top hlimit k)
        (folds_account hlimit fun k _ => hkeeps top hlimit k) htop least
  · exact balanced_of_keeps fun top before hlimit htop =>
      unary_keeps hlimit (fun k _ => hkeeps top hlimit k) htop
  · exact balanced_of_keeps fun top before hlimit htop =>
      path_keeps hlimit (fun k _ => hkeeps top hlimit k) htop
  · intro close what
    exact balanced_of_keeps fun top before hlimit htop =>
      keeps_listOf (hkeeps top hlimit levels before htop) htop .list close what
  · intro close what
    exact balanced_of_keeps fun top before hlimit htop =>
      keeps_listOf (keeps_entry (hkeeps top hlimit levels before htop) htop) htop .object close what
  · exact balanced_of_keeps fun top before hlimit htop => atom_keeps (hkeeps top hlimit levels) htop
  · exact notes_balanced g limit text

/-- A sign and a transform under a limit of two. The level of the transform is too far down and is not
given back; behind the error those of the sign and of the expression are. -/
theorem depth_balanced_beyond :
    let g : Grammar := ⟨[], ["-"]⟩
    (Noted.parse g 2 "-x|y").events =
      [.raised 1, .raised 2, .returned .atom 2 2 true, .raised 3, .returned .path 2 3 false,
        .returned .unary 2 3 false, .lowered 3 1, .returned .unary 1 2 false,
        .returned .binary 1 2 false, .returned .conditional 1 2 false, .lowered 2 1,
        .returned .expression 0 1 false] ∧
      (∀ note ∈ (Noted.parse g 2 "-x|y").events, note.Sound 2) ∧
      Phrase.parse g 2 "-x|y" = .error (.depthExceeded 2) := by
  intro g
  have hlexemes : lexemes g.symbols "-x|y" = [⟨0, 1, .ok (.operator "-")⟩,
      ⟨1, 2, .ok (.identifier "x")⟩, ⟨2, 3, .ok (.mark .pipe)⟩, ⟨3, 4, .ok (.identifier "y")⟩,
      ⟨4, 4, .ok .eof⟩] := rfl
  obtain ⟨houtcome, hsound, -⟩ := (depth_balanced g 2).2 "-x|y"
  refine ⟨?_, hsound, houtcome.symm.trans ?_⟩
  · rw [Noted.parse, hlexemes]
    cbv
  · rw [Noted.parse, hlexemes]
    cbv

end PipeExpr.Parser
