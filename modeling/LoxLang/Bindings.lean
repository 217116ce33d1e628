/-!
# Bindings

Names with what they are bound to, each name once, in the order of their first binding.

* `find?_insert`: a binding replaces the earlier one of its name and no other;
* `isBound_insert`: exactly one more name may be bound.
-/

namespace LoxLang

abbrev Bindings (α : Type) : Type := List (String × α)

namespace Bindings

variable {α : Type}

def find? (b : Bindings α) (name : String) : Option α := b.lookup name

def isBound (b : Bindings α) (name : String) : Bool := (b.find? name).isSome

/-- Binds a name, in place of an earlier binding of it. -/
def insert (name : String) (value : α) : Bindings α → Bindings α
  | [] => [(name, value)]
  | (n, v) :: rest => if n = name then (name, value) :: rest else (n, v) :: insert name value rest

/-- Binds several names in turn. -/
def insertAll (b : Bindings α) (entries : List (String × α)) : Bindings α :=
  entries.foldl (fun b e => b.insert e.1 e.2) b

def names (b : Bindings α) : List String := b.map (·.1)

@[simp] theorem find?_nil (name : String) : find? ([] : Bindings α) name = none := rfl

theorem find?_cons (n : String) (v : α) (rest : Bindings α) (name : String) :
    find? ((n, v) :: rest) name = if n = name then some v else find? rest name := by
  by_cases h : n = name
  · simp [find?, h]
  · have h' : (name == n) = false := by simpa using fun e => h e.symm
    simp [find?, List.lookup_cons, h, h']

theorem find?_insert (name x : String) (value : α) (b : Bindings α) :
    (b.insert name value).find? x = if name = x then some value else b.find? x := by
  induction b with
  | nil => simp [insert, find?_cons]
  | cons e rest ih =>
    obtain ⟨n, v⟩ := e
    by_cases hn : n = name
    · subst hn
      by_cases hx : n = x <;> simp [insert, find?_cons, hx]
    · by_cases hx : n = x
      · subst hx
        simp [insert, find?_cons, hn, Ne.symm hn]
      · simp [insert, find?_cons, hn, hx, ih]

theorem isBound_insert (name x : String) (value : α) (b : Bindings α) :
    (b.insert name value).isBound x = (decide (name = x) || b.isBound x) := by
  by_cases h : name = x <;> simp [isBound, find?_insert, h]

end Bindings

end LoxLang
