import LoxLang.Proofs.Running.Sessions
import LoxLang.Proofs.Scoping.Spots

/-!
# The ledger of a session

What the requests of a session have given out and recorded: identities of nodes, distances, and
nodes at their spots.

* `Issued.ids`, `Issued.recorded`, `Issued.spotted`: what is known of a request by itself;
* `Ledger`: how the table of the distances and the next free identity follow from all of that;
* `Ledger.record`: one more request keeps this;
* `Ledger.admits`: by the table, every node of an accepted program may stand where it does.
-/

namespace LoxLang

namespace Issued

/-- The identities of the nodes that were read, also if the program was not accepted then. -/
def ids (r : Issued) : List NodeId :=
  match r.request with
  | .run source =>
    match (parseSource source r.nextId).1 with
    | .ok p => Stmt.allIds p
    | .error _ => []
  | .evaluate source =>
    match (parseExpressionSource source r.nextId).1 with
    | .ok e => e.ids
    | .error _ => []

/-- The next free identity when the request has been read. -/
def next (r : Issued) : NodeId :=
  match r.request with
  | .run source => (checkSource source r.nextId).2
  | .evaluate source => (parseExpressionSource source r.nextId).2

/-- The distances that were recorded for the program, if one was accepted. -/
def recorded (r : Issued) : Distances :=
  match r.request with
  | .run source =>
    match (checkSource source r.nextId).1 with
    | .ok checked => checked.distances
    | .error _ => []
  | .evaluate _ => []

/-- The nodes of the program, if one was accepted. -/
def spotted (r : Issued) : List (Spot × Node) :=
  match r.request with
  | .run source =>
    match (checkSource source r.nextId).1 with
    | .ok checked => checked.program.spotted
    | .error _ => []
  | .evaluate _ => []

theorem fresh (r : Issued) : Fresh r.nextId r.next r.ids := by
  obtain ⟨request, nextId⟩ := r
  cases request with
  | run source =>
    have hle := checkSource_advances source nextId
    simp only [ids, next]
    cases hparse : parseSource source nextId with
    | mk answer next =>
      cases answer with
      | error problems => exact .nil hle
      | ok p =>
        have hnext : (checkSource source nextId).2 = next := by
          simp only [checkSource, hparse]
          split <;> rfl
        rw [hnext]
        exact (parseSource_regular hparse).2
  | evaluate source =>
    have hle := parseExpressionSource_advances source nextId
    simp only [ids, next]
    cases hparse : parseExpressionSource source nextId with
    | mk answer next =>
      cases answer with
      | error problems =>
        rw [hparse] at hle
        exact .nil hle
      | ok e => exact parseExpressionSource_fresh hparse

theorem recorded_along (r : Issued) : r.recorded.Along r.ids := by
  obtain ⟨request, nextId⟩ := r
  cases request with
  | run source =>
    simp only [recorded, ids]
    cases hcheck : checkSource source nextId with
    | mk answer next =>
      cases answer with
      | error problems => exact Distances.along_nil _
      | ok checked =>
        obtain ⟨hparse, hresolve⟩ := checkSource_eq_ok hcheck
        rw [hparse]
        exact resolve_along hresolve
  | evaluate source => exact Distances.along_nil _

/-- No node has two distances. -/
theorem recorded_nodup (r : Issued) : (r.recorded.map (·.1)).Nodup :=
  r.recorded_along.nodup r.fresh.nodup

theorem spotted_admitted (r : Issued) : AllAdmitted r.recorded r.spotted := by
  obtain ⟨request, nextId⟩ := r
  cases request with
  | run source =>
    simp only [recorded, spotted]
    cases hcheck : checkSource source nextId with
    | mk answer next =>
      cases answer with
      | error problems => exact fun _ h => nomatch h
      | ok checked =>
        obtain ⟨hparse, hresolve⟩ := checkSource_eq_ok hcheck
        refine resolve_spotted (fun hthis => ?_) hresolve
        exact absurd (parseSource_names hparse "this" hthis) (by decide)
  | evaluate source => exact fun _ h => nomatch h

end Issued

/-- What a session has given out and recorded, by its requests. -/
structure Ledger (history : List Issued) (nextId : NodeId) (table : DistanceTable) : Prop where
  /-- No two nodes have the same identity. -/
  ids : (history.flatMap Issued.ids).Nodup
  below : ∀ r ∈ history, ∀ id ∈ r.ids, id < nextId
  /-- The table says of a node what was recorded for its own program. -/
  recorded : ∀ r ∈ history, ∀ id ∈ r.ids, table.of? id = r.recorded.of? id
  unused (id : NodeId) : nextId ≤ id → table.of? id = none

namespace Ledger

variable {history : List Issued} {nextId : NodeId} {table : DistanceTable}

theorem empty : Ledger [] 0 .empty where
  ids := List.nodup_nil
  below _ h := nomatch h
  recorded _ h := nomatch h
  unused id _ := DistanceTable.of?_empty id

/-- What is recorded for the next request is about nodes that the table does not know. -/
theorem unrecorded (h : Ledger history nextId table) {r : Issued} (hr : r.nextId = nextId) :
    ∀ id ∈ r.recorded.map (·.1), table.of? id = none := by
  intro id hid
  obtain ⟨entry, hentry, rfl⟩ := List.mem_map.mp hid
  have hmem := r.recorded_along.mem hentry
  exact h.unused entry.1 (hr ▸ (r.fresh.within entry.1 hmem).1)

/-- One more request. -/
theorem record (h : Ledger history nextId table) {r : Issued} (hr : r.nextId = nextId) :
    Ledger (r :: history) r.next (table.extend r.recorded) where
  ids := by
    rw [List.flatMap_cons]
    refine List.nodup_append.mpr ⟨r.fresh.nodup, h.ids, fun id hid id' hid' heq => ?_⟩
    subst heq
    obtain ⟨r', hr', hid'⟩ := List.mem_flatMap.mp hid'
    have hold := h.below r' hr' id hid'
    have hnew := (r.fresh.within id hid).1
    rw [hr] at hnew
    exact Nat.not_lt_of_le hnew hold
  below r' hr' id hid := by
    obtain rfl | hr' := List.mem_cons.mp hr'
    · exact (r'.fresh.within id hid).2
    · exact Nat.lt_of_lt_of_le (h.below r' hr' id hid) (hr ▸ r.fresh.le)
  recorded r' hr' id hid := by
    rw [DistanceTable.of?_extend]
    obtain rfl | hr' := List.mem_cons.mp hr'
    · rw [h.unused id (hr ▸ (r'.fresh.within id hid).1), Option.or_none]
    · -- An earlier node is none of those that are read now.
      have hnot : id ∉ r.ids := by
        intro hmem
        have hnew := (r.fresh.within id hmem).1
        rw [hr] at hnew
        exact Nat.not_lt_of_le hnew (h.below r' hr' id hid)
      rw [r.recorded_along.within id hnot, Option.none_or]
      exact h.recorded r' hr' id hid
  unused id hid := by
    have hnot : id ∉ r.ids := fun hmem => Nat.not_lt_of_le hid (r.fresh.within id hmem).2
    have hold : nextId ≤ id := Nat.le_trans (hr ▸ r.fresh.le) hid
    rw [DistanceTable.of?_extend, r.recorded_along.within id hnot, h.unused id hold]
    rfl

/-- By the table, every node of an accepted program may stand where it does. -/
theorem admits (h : Ledger history nextId table) :
    ∀ node ∈ history.flatMap Issued.spotted,
      node.1.Admits (fun id k => table.of? id = some k) node.2 := by
  intro node hnode
  obtain ⟨r, hr, hnode⟩ := List.mem_flatMap.mp hnode
  refine (r.spotted_admitted node hnode).mono fun id _ k _ hk => ?_
  rw [h.recorded r hr id (r.recorded_along.mem hk)]
  exact Distances.of?_of_mem r.recorded_nodup hk

end Ledger

end LoxLang
