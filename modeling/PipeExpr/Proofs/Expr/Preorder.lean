import PipeExpr.Proofs.Expr.Limits

/-!
The order of a walk. A walk looks at the nodes in preorder, announces each one, and stops at the first
one that lies deeper than the limit.
-/
namespace PipeExpr.Expr
open Traced

/-- A node where it stands; `depth` counts the nodes on the way to it, itself included. -/
structure Place where
  depth : Nat
  node : Expr

/-- The nodes of an expression that stands at a depth: each one before its parts, and these from left
to right. -/
def places (depth : Nat) (e : Expr) : List Place :=
  ⟨depth, e⟩ :: e.parts.attach.flatMap fun part => part.1.places (depth + 1)
termination_by e.height
decreasing_by exact height_lt_of_part part.2

theorem places_eq_cons (depth : Nat) (e : Expr) :
    e.places depth = ⟨depth, e⟩ :: e.parts.flatMap (places (depth + 1)) := by
  have hparts : (e.parts.attach.map Subtype.val).flatMap (places (depth + 1)) =
      e.parts.flatMap (places (depth + 1)) := by rw [List.attach_map_subtype_val]
  rw [places, ← hparts, List.flatMap_map]

def visits (places : List Place) : List Visit := places.filterMap fun place => place.node.visit?

theorem visits_cons (place : Place) (rest : List Place) :
    visits (place :: rest) = place.node.visit?.toList ++ visits rest := by
  rw [visits, List.filterMap_cons]
  cases place.node.visit? <;> rfl

theorem map_node_places (depth : Nat) (e : Expr) : (e.places depth).map Place.node = e.nodes := by
  induction e using induction_parts generalizing depth with
  | h e ih =>
    have hparts : e.parts.map (fun part => (part.places (depth + 1)).map Place.node) =
        e.parts.map nodes :=
      List.map_congr_left fun part hpart => ih part hpart (depth + 1)
    rw [places_eq_cons, List.map_cons, List.map_flatMap, List.flatMap_def, hparts, ← List.flatMap_def,
      nodes_eq_cons]

theorem visits_places (depth : Nat) (e : Expr) :
    visits (e.places depth) = e.nodes.filterMap visit? := by
  rw [← map_node_places depth e, List.filterMap_map]
  rfl

def look (limit : Nat) (place : Place) : Traced Visit Unit :=
  if place.depth ≤ limit then ⟨place.node.visit?.toList, .ok ()⟩ else fail (.depthExceeded limit)

theorem look_ok_iff {limit : Nat} {place : Place} :
    (look limit place).outcome = .ok () ↔ place.depth ≤ limit := by
  unfold look
  split
  · next h => exact iff_of_true rfl h
  · next h => exact iff_of_false nofun h

theorem walkWithin_eq_each {limit levels depth : Nat} (h : depth + levels = limit + 1) (e : Expr) :
    walkWithin limit levels e = each (look limit) (e.places depth) := by
  induction levels generalizing depth e with
  | zero =>
    rw [places_eq_cons, each, look, if_neg (by dsimp only; omega)]
    rfl
  | succ levels ih =>
    -- The parts stand one deeper and have one level less left.
    have hparts : walkWithin limit levels = fun part => each (look limit) (part.places (depth + 1)) :=
      funext fun part => ih (by omega) part
    rw [walkWithin_succ, hparts, places_eq_cons, each, look, if_pos (by dsimp only; omega),
      each_flatMap]

theorem walk_eq_each (limit : Nat) (e : Expr) : e.walk limit = each (look limit) (e.places 1) :=
  walkWithin_eq_each (Nat.add_comm 1 limit) e

theorem places_within_iff {limit : Nat} {e : Expr} :
    (∀ place ∈ e.places 1, place.depth ≤ limit) ↔ e.height ≤ limit := by
  rw [← walk_ok_iff, walk_eq_each, ok_each]
  exact forall₂_congr fun place _ => look_ok_iff.symm

theorem each_look_within {limit : Nat} {places : List Place}
    (h : ∀ place ∈ places, place.depth ≤ limit) :
    each (look limit) places = ⟨visits places, .ok ()⟩ := by
  induction places with
  | nil => rfl
  | cons place rest ih =>
    obtain ⟨hplace, hrest⟩ := List.forall_mem_cons.mp h
    rw [each, look, if_pos hplace, ih hrest, visits_cons]
    rfl

theorem events_of_walk {limit : Nat} {e : Expr} (h : (e.walk limit).outcome = .ok ()) :
    (e.walk limit).events = e.nodes.filterMap visit? := by
  rw [walk_eq_each, each_look_within (places_within_iff.mpr (walk_ok_iff.mp h)), visits_places]

theorem each_look_beyond {limit : Nat} {before : List Place} {first : Place}
    (hbefore : ∀ place ∈ before, place.depth ≤ limit) (hfirst : limit < first.depth)
    (after : List Place) :
    each (look limit) (before ++ first :: after) =
      ⟨visits before, .error (.depthExceeded limit)⟩ := by
  rw [each_append, each_look_within hbefore, each, look, if_neg (Nat.not_le_of_lt hfirst)]
  simp [bind_eq, andThen, fail]

/-- A walk comes to its end exactly if the expression is no higher than the limit, and then it has
announced all nodes in preorder. Otherwise it has announced those before the first one that lies
deeper than the limit. -/
theorem walk_in_preorder (limit : Nat) (e : Expr) :
    ((e.walk limit).outcome = .ok () ↔ e.height ≤ limit) ∧
    (e.height ≤ limit → (e.walk limit).events = visits (e.places 1)) ∧
    (limit < e.height →
      (e.walk limit).outcome = .error (.depthExceeded limit) ∧
      ∃ before first after, e.places 1 = before ++ first :: after ∧
        (∀ place ∈ before, place.depth ≤ limit) ∧ limit < first.depth ∧
        (e.walk limit).events = visits before) := by
  refine ⟨walk_ok_iff, ?_, ?_⟩
  · intro hheight
    rw [walk_eq_each, each_look_within (places_within_iff.mpr hheight)]
  · intro hheight
    have hdeep : ¬∀ place ∈ e.places 1, place.depth ≤ limit :=
      fun hall => Nat.not_le_of_lt hheight (places_within_iff.mp hall)
    obtain ⟨first, hfind⟩ : ∃ first, (e.places 1).find? (limit < ·.depth) = some first := by
      simpa [List.find?_isSome, ← Option.isSome_iff_exists] using hdeep
    obtain ⟨hfirst, before, after, hsplit, hbefore⟩ := List.find?_eq_some_iff_append.mp hfind
    have hfirst' : limit < first.depth := of_decide_eq_true hfirst
    have hbefore' : ∀ place ∈ before, place.depth ≤ limit := by simpa using hbefore
    rw [walk_eq_each, hsplit, each_look_beyond hbefore' hfirst']
    exact ⟨rfl, before, first, after, rfl, hbefore', hfirst', rfl⟩

/-- The walk that is cut off at `y` does not come back to `z`, which lies within the limit. -/
theorem walk_stops_at_deep :
    let e : Expr := .array
      [.transform "count" (.identifier "x") [], .not (.not (.identifier "y")), .identifier "z"]
    e.height = 4 ∧ (e.walk 4).events = visits (e.places 1) ∧
      (e.walk 3).outcome = .error (.depthExceeded 3) ∧
      (e.walk 3).events = [.transform "count" (.identifier "x") [], .identifier "x"] := by
  intro e
  have hheight : e.height = 4 := rfl
  have hwhole := (walk_in_preorder 4 e).2.1 (Nat.le_of_eq hheight)
  have hcut := (walk_in_preorder 3 e).2.2 (by omega)
  exact ⟨hheight, hwhole, hcut.1, rfl⟩

end PipeExpr.Expr
