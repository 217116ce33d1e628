import LoxLang.Program
import Std.Data.ExtTreeMap

/-!
# Distances

For each reference to a local variable, how many scopes out the variable lives. A reference
without an entry is to a global variable.

* `Distances`: the entries of one program, in a list;
* `DistanceTable`: the entries of several programs, for looking up by node;
* `of?_extend`: a later program's entries count over those of earlier programs.
-/

namespace LoxLang

/-- Distances by node, the newest entries first. -/
abbrev Distances : Type := List (NodeId × Nat)

namespace Distances

def of? (d : Distances) (id : NodeId) : Option Nat := d.lookup id

@[simp] theorem of?_nil (id : NodeId) : of? [] id = none := rfl

theorem of?_cons (node distance : Nat) (d : Distances) (id : NodeId) :
    of? ((node, distance) :: d) id = if node = id then some distance else d.of? id := by
  by_cases h : node = id
  · simp [of?, h]
  · have h' : (id == node) = false := by simpa using fun e => h e.symm
    simp only [of?, List.lookup_cons, h', h, if_false]

end Distances

/-- The distances of all programs so far. -/
structure DistanceTable where
  byNode : Std.ExtTreeMap NodeId Nat

namespace DistanceTable

def empty : DistanceTable := ⟨∅⟩

def of? (t : DistanceTable) (id : NodeId) : Option Nat := t.byNode[id]?

/-- Adds the entries of a later program. -/
def extend (earlier : DistanceTable) (later : Distances) : DistanceTable :=
  ⟨later.foldr (fun entry byNode => byNode.insert entry.1 entry.2) earlier.byNode⟩

@[simp] theorem of?_empty (id : NodeId) : empty.of? id = none :=
  Std.ExtTreeMap.getElem?_empty

@[simp] theorem extend_nil (t : DistanceTable) : t.extend [] = t := rfl

theorem of?_extend (earlier : DistanceTable) (later : Distances) (id : NodeId) :
    (earlier.extend later).of? id = (later.of? id).or (earlier.of? id) := by
  induction later with
  | nil => simp
  | cons entry rest ih =>
    obtain ⟨node, distance⟩ := entry
    have hstep : (earlier.extend ((node, distance) :: rest)).of? id
        = if compare node id = .eq then some distance else (earlier.extend rest).of? id :=
      Std.ExtTreeMap.getElem?_insert
    rw [hstep, ih, Distances.of?_cons]
    by_cases h : node = id <;> simp [h]

end DistanceTable

end LoxLang
