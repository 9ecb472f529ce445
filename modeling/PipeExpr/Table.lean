/-!
Tables from text to data, kept in ascending order of their keys. Looking up after writing is
`find?_insert`; `ordered_insert` says that writing keeps the order. A table in order is told by what
it finds (`Ordered.eq_of_find?`).
-/
namespace PipeExpr

/-- Entries in ascending order of their keys, each key once. -/
abbrev Table (α : Type) := List (String × α)

namespace Table
variable {α β : Type}

def find? (key : String) : Table α → Option α
  | [] => none
  | (k, a) :: rest => if k = key then some a else find? key rest

def contains (key : String) (t : Table α) : Bool := (find? key t).isSome

def insert (key : String) (a : α) : Table α → Table α
  | [] => [(key, a)]
  | (k, b) :: rest =>
    if key < k then (key, a) :: (k, b) :: rest
    else if key = k then (key, a) :: rest
    else (k, b) :: insert key a rest

/-- Writes the entries one after the other, so the last one of a key stays. -/
def insertAll (entries : List (String × α)) (t : Table α) : Table α :=
  entries.foldl (fun t e => insert e.1 e.2 t) t

def ofList (entries : List (String × α)) : Table α := insertAll entries []

def keys (t : Table α) : List String := t.map Prod.fst

def mapValues (f : α → β) (t : Table α) : Table β := t.map fun e => (e.1, f e.2)

def Ordered (t : Table α) : Prop := t.Pairwise (fun a b => a.1 < b.1)

instance (t : Table α) : Decidable t.Ordered := inferInstanceAs (Decidable (List.Pairwise _ _))

theorem ordered_nil : Ordered ([] : Table α) := List.Pairwise.nil

theorem find?_insert_self (key : String) (a : α) (t : Table α) :
    find? key (insert key a t) = some a := by
  induction t with
  | nil => simp [insert, find?]
  | cons e rest ih =>
    obtain ⟨k, b⟩ := e
    unfold insert
    split
    · simp [find?]
    · split
      · simp [find?]
      · next _ h => simp [find?, Ne.symm h, ih]

theorem find?_insert_ne {key other : String} (h : other ≠ key) (a : α) (t : Table α) :
    find? other (insert key a t) = find? other t := by
  induction t with
  | nil => simp [insert, find?, Ne.symm h]
  | cons e rest ih =>
    obtain ⟨k, b⟩ := e
    unfold insert
    split
    · simp [find?, Ne.symm h]
    · split
      · next _ hk => subst hk; simp [find?, Ne.symm h]
      · simp [find?, ih]

theorem find?_insert (key other : String) (a : α) (t : Table α) :
    find? other (insert key a t) = if other = key then some a else find? other t := by
  split
  · next h => subst h; exact find?_insert_self other a t
  · next h => exact find?_insert_ne h a t

theorem mem_of_find? {key : String} {a : α} {t : Table α} (h : find? key t = some a) :
    (key, a) ∈ t := by
  induction t with
  | nil => cases h
  | cons e rest ih =>
    obtain ⟨k, b⟩ := e
    rw [find?] at h
    by_cases hk : k = key
    · rw [if_pos hk] at h
      obtain rfl := Option.some.inj h
      rw [hk]
      exact List.mem_cons_self
    · rw [if_neg hk] at h
      exact List.mem_cons_of_mem _ (ih h)

theorem find?_of_mem {key : String} {a : α} {t : Table α} (ht : Ordered t) (h : (key, a) ∈ t) :
    find? key t = some a := by
  induction t with
  | nil => cases h
  | cons e rest ih =>
    obtain ⟨k, b⟩ := e
    obtain ⟨hk, hrest⟩ := List.pairwise_cons.mp ht
    rw [find?]
    cases List.mem_cons.mp h with
    | inl he =>
      obtain ⟨rfl, rfl⟩ := Prod.mk.inj he
      exact if_pos rfl
    | inr he =>
      have hlt : k < key := hk _ he
      have hne : k ≠ key := by
        intro heq
        subst heq
        exact String.lt_irrefl k hlt
      rw [if_neg hne]
      exact ih hrest he

theorem find?_isSome {key : String} {t : Table α} : (find? key t).isSome = true ↔ key ∈ t.keys := by
  induction t with
  | nil => simp [find?, keys]
  | cons e rest ih =>
    obtain ⟨k, b⟩ := e
    rw [find?, keys, List.map_cons, List.mem_cons]
    by_cases hk : k = key
    · simp [hk]
    · rw [if_neg hk, ih]
      simp [keys, Ne.symm hk]

theorem mem_keys_insert {key other : String} {a : α} {t : Table α} :
    other ∈ (insert key a t).keys ↔ other = key ∨ other ∈ t.keys := by
  rw [← find?_isSome, ← find?_isSome, find?_insert]
  by_cases h : other = key
  · simp [h]
  · simp [h]

theorem find?_insertAll (key : String) (entries : List (String × α)) (t : Table α) :
    find? key (insertAll entries t) = (entries.reverse.lookup key).or (find? key t) := by
  induction entries generalizing t with
  | nil => rfl
  | cons e rest ih =>
    have hstep : insertAll (e :: rest) t = insertAll rest (insert e.1 e.2 t) := rfl
    rw [hstep, ih, find?_insert, List.reverse_cons, List.lookup_append, Option.or_assoc,
      List.lookup_cons, List.lookup_nil]
    by_cases h : key = e.1
    · simp [h]
    · simp [h, beq_eq_false_iff_ne.mpr h]

theorem find?_ofList (key : String) (entries : List (String × α)) :
    find? key (ofList entries) = entries.reverse.lookup key := by
  rw [ofList, find?_insertAll]
  exact Option.or_none

theorem mem_keys_insertAll {entries : List (String × α)} {key : String} {t : Table α} :
    key ∈ (insertAll entries t).keys ↔ key ∈ entries.map Prod.fst ∨ key ∈ t.keys := by
  induction entries generalizing t with
  | nil => simp [insertAll]
  | cons e rest ih =>
    have hstep : insertAll (e :: rest) t = insertAll rest (insert e.1 e.2 t) := rfl
    rw [hstep, ih, mem_keys_insert, List.map_cons, List.mem_cons]
    constructor
    · rintro (hrest | hkey | ht)
      · exact .inl (.inr hrest)
      · exact .inl (.inl hkey)
      · exact .inr ht
    · rintro ((hkey | hrest) | ht)
      · exact .inr (.inl hkey)
      · exact .inl hrest
      · exact .inr (.inr ht)

theorem mem_keys_ofList {entries : List (String × α)} {key : String} :
    key ∈ (ofList entries).keys ↔ key ∈ entries.map Prod.fst := by
  rw [ofList, mem_keys_insertAll]
  simp [keys]

theorem mem_insert {key : String} {a : α} {e : String × α} {t : Table α}
    (h : e ∈ insert key a t) : e = (key, a) ∨ e ∈ t := by
  induction t with
  | nil => simpa [insert] using h
  | cons d rest ih =>
    obtain ⟨k, b⟩ := d
    unfold insert at h
    split at h
    · simpa using h
    · split at h
      · simp only [List.mem_cons] at h ⊢
        exact h.elim Or.inl (fun h => .inr (.inr h))
      · simp only [List.mem_cons] at h ⊢
        cases h with
        | inl h => exact .inr (.inl h)
        | inr h => exact (ih h).elim .inl (fun h => .inr (.inr h))

theorem ordered_insert {key : String} {a : α} {t : Table α} (h : Ordered t) :
    Ordered (insert key a t) := by
  induction t with
  | nil => simp [insert, Ordered]
  | cons d rest ih =>
    obtain ⟨k, b⟩ := d
    obtain ⟨hk, hrest⟩ := List.pairwise_cons.mp h
    unfold insert
    split
    · next hlt =>
      refine List.pairwise_cons.mpr ⟨fun e he => ?_, h⟩
      cases List.mem_cons.mp he with
      | inl heq =>
        subst heq
        exact hlt
      | inr he => exact String.lt_trans hlt (hk e he)
    · next hnlt =>
      split
      · next heq => subst heq; exact List.pairwise_cons.mpr ⟨hk, hrest⟩
      · next hne =>
        refine List.pairwise_cons.mpr ⟨fun e he => ?_, ih hrest⟩
        cases mem_insert he with
        | inl heq =>
          subst heq
          exact Decidable.byContradiction fun hk' =>
            hne (String.le_antisymm (String.not_lt.mp hk') (String.not_lt.mp hnlt))
        | inr he => exact hk e he

theorem ordered_ofList (entries : List (String × α)) : Ordered (ofList entries) :=
  List.foldlRecOn (motive := Ordered) entries _ ordered_nil fun _ ht _ _ => ordered_insert ht

theorem insert_of_greatest {key : String} {t : Table α} (h : ∀ e ∈ t, e.1 < key) (a : α) :
    insert key a t = t ++ [(key, a)] := by
  induction t with
  | nil => rfl
  | cons e rest ih =>
    obtain ⟨k, b⟩ := e
    obtain ⟨hk, hrest⟩ := List.forall_mem_cons.mp h
    have hne : key ≠ k := fun heq => String.lt_irrefl k (heq ▸ hk)
    rw [insert, if_neg (String.lt_asymm hk), if_neg hne, ih hrest, List.cons_append]

theorem insertAll_of_ordered {t entries : Table α} (h : Ordered (t ++ entries)) :
    insertAll entries t = t ++ entries := by
  induction entries generalizing t with
  | nil => exact (List.append_nil t).symm
  | cons e rest ih =>
    have hbefore : ∀ d ∈ t, d.1 < e.1 := fun d hd =>
      (List.pairwise_append.mp h).2.2 d hd e List.mem_cons_self
    have hstep : insertAll (e :: rest) t = insertAll rest (insert e.1 e.2 t) := rfl
    rw [hstep, insert_of_greatest hbefore, ih (by simpa using h), List.append_assoc,
      List.singleton_append]

theorem ofList_of_ordered {t : Table α} (ht : Ordered t) : ofList t = t := insertAll_of_ordered ht

theorem find?_mapValues (f : α → β) (key : String) (t : Table α) :
    find? key (t.mapValues f) = (find? key t).map f := by
  induction t with
  | nil => rfl
  | cons e rest ih =>
    obtain ⟨k, b⟩ := e
    rw [mapValues, List.map_cons, find?, find?]
    by_cases hk : k = key
    · rw [if_pos hk, if_pos hk, Option.map_some]
    · rw [if_neg hk, if_neg hk]
      exact ih

theorem Ordered.mapValues {t : Table α} (ht : t.Ordered) (f : α → β) : (t.mapValues f).Ordered :=
  List.pairwise_map.mpr ht

theorem mapValues_insert (f : α → β) (key : String) (a : α) (t : Table α) :
    (insert key a t).mapValues f = insert key (f a) (t.mapValues f) := by
  induction t with
  | nil => rfl
  | cons e rest ih =>
    obtain ⟨k, b⟩ := e
    have hcons : mapValues f ((k, b) :: rest) = (k, f b) :: mapValues f rest := rfl
    rw [hcons, insert, insert]
    split
    · rfl
    · split
      · rfl
      · rw [← ih]
        rfl

theorem Ordered.nodup {t : Table α} (ht : t.Ordered) : t.Nodup := by
  refine List.Pairwise.imp ?_ ht
  rintro a b hlt rfl
  exact String.lt_irrefl a.1 hlt

theorem Ordered.nodup_keys {t : Table α} (ht : t.Ordered) : t.keys.Nodup := by
  refine List.pairwise_map.mpr (List.Pairwise.imp ?_ ht)
  intro a b hlt heq
  rw [heq] at hlt
  exact String.lt_irrefl b.1 hlt

/-- Tables in order that find the same are the same. -/
theorem Ordered.eq_of_find? {t t' : Table α} (ht : t.Ordered) (ht' : t'.Ordered)
    (h : ∀ key, find? key t = find? key t') : t = t' := by
  have hmem : ∀ e, e ∈ t ↔ e ∈ t' := by
    intro e
    constructor
    · intro he
      exact mem_of_find? ((h e.1).symm.trans (find?_of_mem ht he))
    · intro he
      exact mem_of_find? ((h e.1).trans (find?_of_mem ht' he))
  have hperm : t.Perm t' := (List.perm_ext_iff_of_nodup ht.nodup ht'.nodup).mpr hmem
  have hanti : ∀ a b, a ∈ t → b ∈ t' → a.1 < b.1 → b.1 < a.1 → a = b := by
    intro a b _ _ hab hba
    exact absurd (String.lt_trans hab hba) (String.lt_irrefl a.1)
  exact List.Perm.eq_of_pairwise hanti ht ht' hperm

end Table
end PipeExpr
