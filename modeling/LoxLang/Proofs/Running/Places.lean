import Mathlib.Logic.Relation
import LoxLang.Proofs.Scoping.Distances
import LoxLang.Proofs.Store
import LoxLang.Running.Machine

/-!
# The places that a store leads to

A frame leads to the frame around it and to what its variables hold; an object leads to what its
fields hold and to what the methods of its class close over.

* `Value.places`, `Store.placesAt`: what a value, and what a frame or an object, leads to at once;
* `Store.LeadsTo`: what it leads to in any number of steps;
* `Store.Sealed`: a region of the store that no place in it leads out of;
* `Sealed.define`, `Sealed.newFrame` and the like: the region stays sealed when what is done to the
  store is done in it, and `Spared.define` and the like: all else stays as it was.
-/

namespace LoxLang

namespace Bindings

variable {α : Type} {name : String} {value : α} {b : Bindings α}

theorem mem_of_find? (h : b.find? name = some value) : (name, value) ∈ b := by
  induction b with
  | nil => cases h
  | cons e rest ih =>
    obtain ⟨n, v⟩ := e
    rw [find?_cons] at h
    split at h
    · rename_i hn
      cases h
      rw [hn]
      exact List.mem_cons_self
    · exact List.mem_cons_of_mem _ (ih h)

theorem mem_insert {e : String × α} (h : e ∈ b.insert name value) : e = (name, value) ∨ e ∈ b := by
  induction b with
  | nil => exact .inl (List.mem_singleton.mp h)
  | cons first rest ih =>
    obtain ⟨n, v⟩ := first
    unfold insert at h
    split at h
    · obtain rfl | hrest := List.mem_cons.mp h
      · exact .inl rfl
      · exact .inr (List.mem_cons_of_mem _ hrest)
    · obtain rfl | hrest := List.mem_cons.mp h
      · exact .inr List.mem_cons_self
      · exact (ih hrest).imp_right (List.mem_cons_of_mem _)

theorem mem_insertAll {entries : List (String × α)} {e : String × α}
    (h : e ∈ b.insertAll entries) : e ∈ entries ∨ e ∈ b := by
  induction entries generalizing b with
  | nil => exact .inr h
  | cons first rest ih =>
    obtain hrest | hinsert := ih h
    · exact .inl (List.mem_cons_of_mem _ hrest)
    · obtain rfl | hb := mem_insert hinsert
      · exact .inl List.mem_cons_self
      · exact .inr hb

end Bindings

/-- A frame or an object. -/
inductive Place
  | frame (f : FrameId)
  | object (o : ObjectId)
  deriving DecidableEq

/-- The frames that the methods of a class close over. -/
def Class.places (c : Class) : List Place := c.methods.map fun e => .frame e.2.frame

/-- What a value leads to. -/
def Value.places : Value → List Place
  | .function f => [.frame f.frame]
  | .ofClass c => c.places
  | .object o => [.object o]
  | _ => []

/-- What the values of some variables or fields lead to. -/
def Bindings.places (b : Bindings Value) : List Place := b.flatMap fun e => e.2.places

namespace Store

/-- What a frame or an object leads to. -/
def placesAt (s : Store) : Place → List Place
  | .frame f => (s.enclosing? f).toList.map .frame ++ (s.frame f).bindings.places
  | .object o =>
    match s.objects[o]? with
    | some obj => obj.ofClass.places ++ obj.fields.places
    | none => []

/-- From one place to another, in any number of steps. -/
def LeadsTo (s : Store) : Place → Place → Prop := Relation.ReflTransGen fun p q => q ∈ s.placesAt p

/-- No place of the region leads out of it. All places that are still free are in the region, and
so are the global variables. -/
structure Sealed (region : Place → Prop) (s : Store) : Prop where
  globals : region (.frame globals)
  closed (p : Place) : region p → ∀ q ∈ s.placesAt p, region q
  newFrames (f : FrameId) : s.frames.size ≤ f → region (.frame f)
  newObjects (o : ObjectId) : s.objects.size ≤ o → region (.object o)

/-- Outside of the region everything is as it was. -/
structure Spared (region : Place → Prop) (s s' : Store) : Prop where
  frames (f : FrameId) : ¬region (.frame f) → s'.frame f = s.frame f
  objects (o : ObjectId) : ¬region (.object o) → s'.objects[o]? = s.objects[o]?

end Store

/-- The value leads into the region only. -/
def Value.Inside (region : Place → Prop) (v : Value) : Prop := ∀ p ∈ v.places, region p

variable {region : Place → Prop} {s s' : Store} {f g : FrameId} {o : ObjectId} {v : Value}
  {c : Class} {m : Closure} {name : String}

theorem Bindings.places_inside {b : Bindings Value} :
    (∀ q ∈ b.places, region q) ↔ ∀ e ∈ b, e.2.Inside region := by
  simp only [places, List.forall_mem_flatMap]
  rfl

theorem Value.Inside.method (h : (Value.ofClass c).Inside region)
    (hm : c.method? name = some m) : region (.frame m.frame) :=
  h _ (List.mem_map_of_mem (Bindings.mem_of_find? hm))

namespace Store

/-! ## What is read in a sealed region -/

/-- What can be reached from a region that no place leads out of is in it. -/
theorem LeadsTo.inside {p q : Place} (h : s.LeadsTo p q) (hp : region p)
    (hclosed : ∀ p, region p → ∀ q ∈ s.placesAt p, region q) : region q := by
  induction h with
  | refl => exact hp
  | tail _ hstep ih => exact hclosed _ ih _ hstep

namespace Sealed

variable (h : s.Sealed region)
include h

theorem enclosing {e : FrameId} (hf : region (.frame f)) (he : s.enclosing? f = some e) :
    region (.frame e) := by
  refine h.closed _ hf _ (List.mem_append_left _ ?_)
  rw [he]
  exact List.mem_singleton_self _

theorem binding (hf : region (.frame f)) {e : String × Value} (he : e ∈ (s.frame f).bindings) :
    e.2.Inside region :=
  Bindings.places_inside.mp (fun q hq => h.closed _ hf q (List.mem_append_right _ hq)) e he

theorem local? (hf : region (.frame f)) (hv : s.local? f name = some v) : v.Inside region :=
  h.binding hf (Bindings.mem_of_find? hv)

theorem object {obj : Object} (ho : region (.object o)) (hobj : s.objects[o]? = some obj) :
    (Value.ofClass obj.ofClass).Inside region ∧ ∀ e ∈ obj.fields, e.2.Inside region := by
  have hclosed := h.closed _ ho
  simp only [placesAt, hobj, List.forall_mem_append, Bindings.places_inside] at hclosed
  exact hclosed

theorem climb {d : Nat} {t : FrameId} (hf : region (.frame f)) (ht : s.climb d f = .ok t) :
    region (.frame t) := by
  induction d generalizing f with
  | zero =>
    cases ht
    exact hf
  | succ d ih =>
    unfold Store.climb at ht
    cases he : s.enclosing? f with
    | none =>
      rw [he] at ht
      cases ht
    | some e =>
      simp only [he] at ht
      cases hinner : s.climb d e with
      | error n =>
        rw [hinner] at ht
        cases ht
      | ok t' =>
        rw [hinner] at ht
        cases ht
        exact ih (h.enclosing hf he) hinner

theorem chain (hf : region (.frame f)) : ∀ e ∈ s.chain f, region (.frame e) := by
  fun_induction s.chain f with
  | case1 f he => simpa using hf
  | case2 f e he hlt ih => exact List.forall_mem_cons.mpr ⟨hf, ih (h.enclosing hf he)⟩
  | case3 f e he hlt => simpa using hf

theorem binder? (hf : region (.frame f)) (hb : s.binder? f name = some g) : region (.frame g) :=
  h.chain hf g (List.mem_of_find?_eq_some hb)

theorem get {line : Nat} (hf : region (.frame f)) (hv : s.get f name line = .ok v) :
    v.Inside region := by
  obtain ⟨b, hb, hlocal⟩ := Store.local?_of_get hv
  exact h.local? (h.binder? hf hb) hlocal

theorem assignee {line : Nat} (hf : region (.frame f)) (hg : s.assignee f name line = .ok g) :
    region (.frame g) := by
  unfold Store.assignee at hg
  split at hg
  · rename_i b hb
    cases hg
    exact h.binder? hf hb
  · cases hg

/-- A property is a value of the region, or a method that closes over a frame of it. -/
theorem property {name : Identifier} {found : Property} (ho : region (.object o))
    (hfound : s.property o name = .ok found) :
    match found with
    | .field v => v.Inside region
    | .method m => region (.frame m.frame) := by
  unfold Store.property at hfound
  cases hobj : s.objects[o]? with
  | none =>
    rw [hobj] at hfound
    cases hfound
  | some obj =>
    obtain ⟨hclass, hfields⟩ := h.object ho hobj
    simp only [hobj, Option.bind_some] at hfound
    split at hfound
    · rename_i hfield
      cases hfound
      exact hfields _ (Bindings.mem_of_find? hfield)
    · rename_i hmethod
      cases hfound
      exact hclass.method hmethod
    · cases hfound

theorem ancestor {d : Nat} (hf : region (.frame f)) (hg : s.ancestor f d = .ok g) :
    region (.frame g) := by
  unfold Store.ancestor at hg
  cases hclimb : s.climb d f with
  | error n =>
    rw [hclimb] at hg
    cases hg
  | ok t =>
    rw [hclimb] at hg
    cases hg
    exact h.climb hf hclimb

theorem getAt {d : Nat} (hf : region (.frame f)) (hv : s.getAt f d name = .ok v) :
    v.Inside region := by
  obtain ⟨b, hb, hlocal⟩ := except_bind_eq_ok.mp hv
  split at hlocal
  · rename_i w hw
    cases hlocal
    exact h.local? (h.ancestor hf hb) hw
  · cases hlocal

theorem assigneeAt {d : Nat} (hf : region (.frame f)) (hg : s.assigneeAt f d name = .ok g) :
    region (.frame g) := by
  obtain ⟨b, hb, hbinds⟩ := except_bind_eq_ok.mp hg
  split at hbinds
  · cases hbinds
    exact h.ancestor hf hb
  · cases hbinds

end Sealed

/-! ## What is done in a sealed region -/

namespace Spared

theorem refl (region : Place → Prop) (s : Store) : Spared region s s := ⟨fun _ _ => rfl, fun _ _ => rfl⟩

theorem trans {s'' : Store} (h : Spared region s s') (h' : Spared region s' s'') :
    Spared region s s'' where
  frames f hf := (h'.frames f hf).trans (h.frames f hf)
  objects o ho := (h'.objects o ho).trans (h.objects o ho)

end Spared

/-- A store in which there is more, and what is new leads into the region. -/
theorem Sealed.later (h : s.Sealed region) (hframes : s.frames.size ≤ s'.frames.size)
    (hobjects : s.objects.size ≤ s'.objects.size)
    (hplaces : ∀ p, region p → ∀ q ∈ s'.placesAt p, q ∈ s.placesAt p ∨ region q) :
    s'.Sealed region where
  globals := h.globals
  closed p hp q hq := (hplaces p hp q hq).elim (h.closed p hp q) id
  newFrames f hf := h.newFrames f (Nat.le_trans hframes hf)
  newObjects o ho := h.newObjects o (Nat.le_trans hobjects ho)

/-- Two stores that differ in their stamps only. -/
theorem Sealed.withStamp (h : s.Sealed region) (n : Nat) :
    { s with nextStamp := n }.Sealed region :=
  h.later (Nat.le_refl _) (Nat.le_refl _) fun _ _ _ hq => .inl hq

theorem mem_placesAt_frame {p : Place} : p ∈ s.placesAt (.frame f) ↔
    (∃ e, s.enclosing? f = some e ∧ p = .frame e) ∨ p ∈ (s.frame f).bindings.places := by
  simp [placesAt, eq_comm]

theorem mem_bindings_define {e : String × Value} (he : e ∈ ((s.define f name v).frame g).bindings) :
    e = (name, v) ∨ e ∈ (s.frame g).bindings := by
  by_cases hg : g = f
  · subst hg
    by_cases hsize : g < s.frames.size
    · rw [frame_define_self hsize] at he
      exact Bindings.mem_insert he
    · simp only [frame, define, Array.getElem?_modify] at he
      simp_all
  · rw [frame_define_of_ne hg] at he
    exact .inr he

/-- The region stays sealed when a value from it is bound. -/
theorem Sealed.define (h : s.Sealed region) (hv : v.Inside region) :
    (s.define f name v).Sealed region := by
  refine h.later (Nat.le_of_eq define_size.symm) (Nat.le_refl _) fun p hp q hq => ?_
  cases p with
  | object o => exact .inl hq
  | frame g =>
    rw [mem_placesAt_frame, enclosing_define] at hq
    obtain henclosing | hbound := hq
    · exact .inl (mem_placesAt_frame.mpr (.inl henclosing))
    · obtain ⟨e, he, hqe⟩ := List.mem_flatMap.mp hbound
      obtain rfl | hold := mem_bindings_define he
      · exact .inr (hv q hqe)
      · exact .inr (h.binding hp hold q hqe)

theorem Spared.define (hf : region (.frame f)) (name : String) (v : Value) :
    Spared region s (s.define f name v) where
  frames _ hg := frame_define_of_ne fun heq => hg (heq ▸ hf)
  objects _ _ := rfl

theorem Sealed.newFrame {enclosing : Option FrameId} {bindings : Bindings Value}
    (h : s.Sealed region) (he : ∀ e, enclosing = some e → region (.frame e))
    (hb : ∀ b ∈ bindings, b.2.Inside region) : (s.newFrame enclosing bindings).2.Sealed region := by
  refine h.later ?_ (Nat.le_refl _) fun p hp q hq => ?_
  · rw [newFrame_size]
    exact Nat.le_succ _
  · cases p with
    | object o => exact .inl hq
    | frame g =>
      by_cases hg : g = s.frames.size
      · subst hg
        rw [mem_placesAt_frame, enclosing?, frame_newFrame_new] at hq
        obtain ⟨e, hsome, rfl⟩ | hbound := hq
        · exact .inr (he e hsome)
        · exact .inr (Bindings.places_inside.mpr hb q hbound)
      · rw [mem_placesAt_frame, enclosing?, frame_newFrame_of_ne hg] at hq
        exact .inl (mem_placesAt_frame.mpr hq)

theorem Spared.newFrame (h : s.Sealed region) (enclosing : Option FrameId)
    (bindings : Bindings Value) : Spared region s (s.newFrame enclosing bindings).2 where
  frames _ hg := frame_newFrame_of_ne fun heq => hg (h.newFrames _ (Nat.le_of_eq heq.symm))
  objects _ _ := rfl

theorem Sealed.bindMethod (h : s.Sealed region) (hm : region (.frame m.frame))
    (ho : region (.object o)) :
    (s.bindMethod m o).2.Sealed region ∧ Spared region s (s.bindMethod m o).2 ∧
      (Value.function (s.bindMethod m o).1).Inside region := by
  have hthis : ∀ b ∈ [("this", Value.object o)], b.2.Inside region := by
    simpa [Value.Inside, Value.places] using ho
  have hframe : ∀ e, some m.frame = some e → region (.frame e) := fun e heq => by
    cases heq
    exact hm
  have hspared := Spared.newFrame h (some m.frame) [("this", .object o)]
  refine ⟨(h.newFrame hframe hthis).withStamp _, ⟨hspared.frames, hspared.objects⟩, fun p hp => ?_⟩
  obtain rfl := List.mem_singleton.mp hp
  exact h.newFrames _ (Nat.le_refl _)

theorem Sealed.newObject (h : s.Sealed region) (hc : (Value.ofClass c).Inside region) :
    (s.newObject c).2.Sealed region := by
  refine h.later (Nat.le_refl _) ?_ fun p hp q hq => ?_
  · simp [Store.newObject]
  · cases p with
    | frame g => exact .inl hq
    | object o =>
      simp only [placesAt, Store.newObject, Array.getElem?_push] at hq ⊢
      split at hq
      · rename_i obj hobj
        split at hobj
        · cases hobj
          exact .inr (hc q (by simpa [Bindings.places, Value.places] using hq))
        · rw [hobj]
          exact .inl hq
      · cases hq

theorem Spared.newObject (h : s.Sealed region) (c : Class) :
    Spared region s (s.newObject c).2 where
  frames _ _ := rfl
  objects o ho := by
    have hne : o ≠ s.objects.size := fun heq => ho (h.newObjects o (Nat.le_of_eq heq.symm))
    simp only [Store.newObject, Array.getElem?_push, if_neg hne]

theorem Sealed.setField (h : s.Sealed region) (hv : v.Inside region) :
    (s.setField o name v).Sealed region := by
  refine h.later (Nat.le_refl _) (Nat.le_of_eq Array.size_modify.symm) fun p hp q hq => ?_
  cases p with
  | frame g => exact .inl hq
  | object o' =>
    simp only [placesAt, Store.setField, Array.getElem?_modify] at hq ⊢
    split at hq
    · rename_i obj hobj
      split at hobj
      · obtain ⟨obj', hobj', rfl⟩ := Option.map_eq_some_iff.mp hobj
        obtain ⟨hclass, hfields⟩ := h.object hp hobj'
        obtain hq | hq := List.mem_append.mp hq
        · exact .inr (hclass q hq)
        · obtain ⟨e, he, hqe⟩ := List.mem_flatMap.mp hq
          obtain rfl | hold := Bindings.mem_insert he
          · exact .inr (hv q hqe)
          · exact .inr (hfields e hold q hqe)
      · rw [hobj]
        exact .inl hq
    · cases hq

theorem Spared.setField (ho : region (.object o)) (name : String) (v : Value) :
    Spared region s (s.setField o name v) where
  frames _ _ := rfl
  objects o' ho' := by
    have hne : o ≠ o' := fun heq => ho' (heq ▸ ho)
    simp only [Store.setField, Array.getElem?_modify, if_neg hne]

theorem mem_methodsFrom {ds : List FunctionDecl} {stamp : Nat} {methods : Bindings Closure}
    {e : String × Closure} (he : e ∈ methodsFrom f ds stamp methods) :
    e.2.frame = f ∨ e ∈ methods := by
  induction ds generalizing stamp methods with
  | nil => exact .inr he
  | cons d rest ih =>
    obtain hframe | hinsert := ih he
    · exact .inl hframe
    · obtain rfl | hold := Bindings.mem_insert hinsert
      · exact .inl rfl
      · exact .inr hold

/-- A class closes over the frame that it is declared in. -/
theorem newClass_inside (hf : region (.frame f)) (name : String) (ds : List FunctionDecl) :
    (Value.ofClass (s.newClass name ds f).1).Inside region := by
  rw [newClass_eq]
  intro p hp
  obtain ⟨e, he, rfl⟩ := List.mem_map.mp hp
  obtain hframe | hnil := mem_methodsFrom he
  · rwa [hframe]
  · cases hnil

end Store

end LoxLang
