import LoxLang.Proofs.Running.Ledger
import LoxLang.Proofs.Running.Relations
import LoxLang.Proofs.Running.Staging
import LoxLang.Proofs.Store

/-!
# Objects and the code that runs for them

What a staged machine holds: which functions it can call, for which objects their bodies would run,
and which class statements have made the classes of these objects.

* `Stands`: code at a spot can run in a frame, and its `this` is bound there to the right object;
* `FunctionHeld`, `MethodHeld`, `ClassHeld`, `ValueHeld`: functions, methods and classes come from
  accepted programs, and stand in the frames that they close over;
* `Upright`: all variables and fields hold such values, and the record so far is as it should be;
* `Grows`: a later machine, in which everything that stood still does;
* `Reaches`: a run leads from one upright machine to a later one.
-/

namespace LoxLang

open Scoping (Routine)

namespace Store

/-- The class of an object. -/
def class? (s : Store) (o : ObjectId) : Option Class := s.objects[o]?.map (·.ofClass)

/-- What a field of an object holds. -/
def field? (s : Store) (o : ObjectId) (name : String) : Option Value :=
  s.objects[o]?.bind (·.fields.find? name)

variable {s : Store} {o o' : ObjectId} {c c' : Class} {name x : String} {value v : Value}

theorem class?_newObject (h : (s.newObject c).2.class? o = some c') :
    c' = c ∨ s.class? o = some c' := by
  simp only [class?, newObject, Array.getElem?_push] at h
  split at h
  · cases h
    exact .inl rfl
  · exact .inr h

theorem class?_newObject_of_some (h : s.class? o = some c') :
    (s.newObject c).2.class? o = some c' := by
  simp only [class?, newObject, Array.getElem?_push]
  split
  · rename_i heq
    simp [class?, heq] at h
  · exact h

theorem class?_newObject_self : (s.newObject c).2.class? s.objects.size = some c := by
  simp [class?, newObject]

theorem field?_newObject (h : (s.newObject c).2.field? o name = some v) :
    s.field? o name = some v := by
  simp only [field?, newObject, Array.getElem?_push] at h
  split at h
  · cases h
  · exact h

theorem field?_newObject_of_some (h : s.field? o name = some v) :
    (s.newObject c).2.field? o name = some v := by
  simp only [field?, newObject, Array.getElem?_push]
  split
  · rename_i heq
    simp [field?, heq] at h
  · exact h

theorem class?_setField : (s.setField o name value).class? o' = s.class? o' := by
  simp only [class?, setField, Array.getElem?_modify]
  split
  · cases s.objects[o']? <;> rfl
  · rfl

theorem field?_setField (h : (s.setField o name value).field? o' x = some v) :
    v = value ∨ s.field? o' x = some v := by
  simp only [field?, setField, Array.getElem?_modify] at h
  split at h
  · cases hobj : s.objects[o']? with
    | none =>
      rw [hobj] at h
      cases h
    | some obj =>
      rw [hobj] at h
      simp only [Option.map_some, Option.bind_some, Bindings.find?_insert] at h
      split at h
      · cases h
        exact .inl rfl
      · right
        simp only [field?, hobj, Option.bind_some]
        exact h
  · exact .inr h

/-- A field can get another value, and stays. -/
theorem field?_setField_isSome (h : (s.field? o' x).isSome) :
    ((s.setField o name value).field? o' x).isSome := by
  obtain ⟨v, hv⟩ := Option.isSome_iff_exists.mp h
  obtain ⟨obj, hobj, hfound⟩ := Option.bind_eq_some_iff.mp hv
  simp only [field?, setField, Array.getElem?_modify, hobj]
  split
  · simp only [Option.map_some, Option.bind_some, Bindings.find?_insert]
    split
    · rfl
    · rw [hfound]
      rfl
  · rw [Option.bind_some, hfound]
    rfl

/-- A property that is a field is held by it. -/
theorem field?_of_property {name : Identifier} (h : s.property o name = .ok (.field v)) :
    s.field? o name.name = some v := by
  simp only [property] at h
  split at h
  · rename_i hfield
    cases h
    exact hfield
  · cases h
  · cases h

/-- A property that is a method is one of the class. -/
theorem method?_of_property {name : Identifier} {f : Closure}
    (h : s.property o name = .ok (.method f)) :
    ∃ c, s.class? o = some c ∧ c.method? name.name = some f := by
  simp only [property] at h
  split at h
  · cases h
  · rename_i hmethod
    cases h
    obtain ⟨obj, hobj, hf⟩ := Option.bind_eq_some_iff.mp hmethod
    exact ⟨obj.ofClass, by simp only [class?, hobj, Option.map_some], hf⟩
  · cases h

end Store

/-! ## Later machines -/

/-- A later machine of one run. What was there before is still as it was, but for variables and
fields. -/
structure Grows (t t' : Staged) : Prop where
  enclosing (f e : FrameId) :
    t.machine.store.enclosing? f = some e → t'.machine.store.enclosing? f = some e
  this (f : FrameId) (v : Value) :
    t.machine.store.local? f "this" = some v → t'.machine.store.local? f "this" = some v
  classes (o : ObjectId) (c : Class) :
    t.machine.store.class? o = some c → t'.machine.store.class? o = some c
  stamps : t.machine.store.nextStamp ≤ t'.machine.store.nextStamp
  scenes (stamp : Nat) : stamp < t.machine.store.nextStamp → t'.scenes stamp = t.scenes stamp

namespace Grows

variable {t t' t'' : Staged}

theorem refl (t : Staged) : Grows t t where
  enclosing _ _ h := h
  this _ _ h := h
  classes _ _ h := h
  stamps := Nat.le_refl _
  scenes _ _ := rfl

theorem trans (h : Grows t t') (h' : Grows t' t'') : Grows t t'' where
  enclosing f e hf := h'.enclosing f e (h.enclosing f e hf)
  this f v hf := h'.this f v (h.this f v hf)
  classes o c ho := h'.classes o c (h.classes o c ho)
  stamps := Nat.le_trans h.stamps h'.stamps
  scenes stamp hs :=
    (h'.scenes stamp (Nat.lt_of_lt_of_le hs h.stamps)).trans (h.scenes stamp hs)

/-- The same store, whatever else the machines differ in. -/
theorem sameStore (hstore : t'.machine.store = t.machine.store) (hscenes : t'.scenes = t.scenes) :
    Grows t t' where
  enclosing _ _ h := by rw [hstore]; exact h
  this _ _ h := by rw [hstore]; exact h
  classes _ _ h := by rw [hstore]; exact h
  stamps := Nat.le_of_eq (by rw [hstore])
  scenes _ _ := by rw [hscenes]

theorem climb (h : Grows t t') {k : Nat} {f b : FrameId}
    (hf : t.machine.store.climb k f = .ok b) : t'.machine.store.climb k f = .ok b := by
  induction k generalizing f with
  | zero => exact hf
  | succ k ih =>
    unfold Store.climb at hf
    cases he : t.machine.store.enclosing? f with
    | none =>
      simp only [he] at hf
      cases hf
    | some e =>
      simp only [he] at hf
      cases hinner : t.machine.store.climb k e with
      | error n =>
        rw [hinner] at hf
        cases hf
      | ok b' =>
        rw [hinner] at hf
        cases hf
        exact Store.climb_succ (h.enclosing f e he) (ih hinner)

end Grows

/-! ## Where code stands -/

namespace Staged

/-- The machine with another store. -/
def withStore (t : Staged) (s : Store) : Staged := { t with machine := { t.machine with store := s } }

/-- The object is of a class that the statement has made. -/
def MadeBy (t : Staged) (o : ObjectId) (decl : ClassDecl) : Prop :=
  ∃ c, t.machine.store.class? o = some c ∧ c.stamp < t.machine.store.nextStamp ∧
    (t.scenes c.stamp).classAround = some decl

/-- Code at the spot can run in the frame, for whom the scene says: at the distance of its `this`
there is the object, and the class statement around the code has made the class of this object. -/
structure Stands (t : Staged) (spot : Spot) (scene : Scene) (frame : FrameId) : Prop where
  classAround : scene.classAround = spot.classAround.map (·.1)
  this (decl : ClassDecl) (k : Nat) : spot.classAround = some (decl, k) →
    ∃ o b, scene.receiver = some o ∧ t.machine.store.climb k frame = .ok b ∧
      t.machine.store.local? b "this" = some (.object o) ∧ t.MadeBy o decl

/-- What is made next has this scene. -/
def Awaits (t : Staged) (scene : Scene) : Prop :=
  ∀ stamp, t.machine.store.nextStamp ≤ stamp → t.scenes stamp = scene

variable {t t' : Staged}

theorem awaits_stage (t : Staged) (scene : Scene) : (t.stage scene).Awaits scene :=
  fun _ hstamp => if_neg (Nat.not_lt_of_le hstamp)

theorem MadeBy.later {o : ObjectId} {decl : ClassDecl} (h : t.MadeBy o decl) (hg : Grows t t') :
    t'.MadeBy o decl := by
  obtain ⟨c, hc, hstamp, hscene⟩ := h
  refine ⟨c, hg.classes o c hc, Nat.lt_of_lt_of_le hstamp hg.stamps, ?_⟩
  rw [hg.scenes c.stamp hstamp]
  exact hscene

namespace Stands

variable {spot : Spot} {scene : Scene} {frame f : FrameId}

theorem later (h : t.Stands spot scene frame) (hg : Grows t t') : t'.Stands spot scene frame where
  classAround := h.classAround
  this decl k hspot := by
    obtain ⟨o, b, ho, hb, hthis, hmade⟩ := h.this decl k hspot
    exact ⟨o, b, ho, hg.climb hb, hg.this b _ hthis, hmade.later hg⟩

/-- In no class. -/
theorem top (t : Staged) (frame : FrameId) : t.Stands .top .top frame where
  classAround := rfl
  this := nofun

/-- One scope further in, in a frame that is enclosed by the current one. -/
theorem inScope (h : t.Stands spot scene frame)
    (henclosing : t.machine.store.enclosing? f = some frame) : t.Stands spot.inScope scene f where
  classAround := by
    rw [h.classAround]
    simp [Spot.inScope, Function.comp_def]
  this decl k hspot := by
    obtain ⟨⟨_, outer⟩, hc, heq⟩ := Option.map_eq_some_iff.mp hspot
    cases heq
    obtain ⟨o, b, ho, hb, hthis, hmade⟩ := h.this _ outer hc
    exact ⟨o, b, ho, Store.climb_succ henclosing hb, hthis, hmade⟩

theorem inFunction (h : t.Stands spot scene frame)
    (henclosing : t.machine.store.enclosing? f = some frame) (routine : Routine) :
    t.Stands (spot.inFunction routine) scene f :=
  ⟨(h.inScope henclosing).classAround, (h.inScope henclosing).this⟩

theorem inLoopBody (h : t.Stands spot scene frame) : t.Stands spot.inLoopBody scene frame :=
  ⟨h.classAround, h.this⟩

end Stands

end Staged

/-! ## What a machine holds -/

/-- The body of the function is among the nodes, as that of a function at the spot. -/
def Closure.WrittenAt (nodes : List (Spot × Node)) (spot : Spot) (f : Closure) : Prop :=
  ∃ routine, f.declaration.spotted spot routine ⊆ nodes ∧
    (f.isInitializer = true → routine = .initializer)

section
variable (nodes : List (Spot × Node))

/-- A function that can be called. -/
structure FunctionHeld (t : Staged) (f : Closure) : Prop where
  stamp : f.stamp < t.machine.store.nextStamp
  stands : ∃ spot, f.WrittenAt nodes spot ∧ t.Stands spot (t.scenes f.stamp) f.frame

/-- A method of a class that the statement has made. It is bound to an object before it is
called. -/
structure MethodHeld (t : Staged) (decl : ClassDecl) (f : Closure) : Prop where
  stamp : f.stamp < t.machine.store.nextStamp
  classAround : (t.scenes f.stamp).classAround = some decl
  written : ∃ spot : Spot, f.WrittenAt nodes (spot.inClassBody decl)

structure ClassHeld (t : Staged) (c : Class) : Prop where
  stamp : c.stamp < t.machine.store.nextStamp
  methods : ∃ decl, (t.scenes c.stamp).classAround = some decl ∧
    ∀ name f, c.method? name = some f → MethodHeld nodes t decl f

def ValueHeld (t : Staged) : Value → Prop
  | .native f => f = .clock
  | .function f => FunctionHeld nodes t f
  | .ofClass c => ClassHeld nodes t c
  | _ => True

variable {nodes}
variable {t t' : Staged}

theorem FunctionHeld.later {f : Closure} (h : FunctionHeld nodes t f) (hg : Grows t t') :
    FunctionHeld nodes t' f where
  stamp := Nat.lt_of_lt_of_le h.stamp hg.stamps
  stands := by
    obtain ⟨spot, hwritten, hstands⟩ := h.stands
    refine ⟨spot, hwritten, ?_⟩
    rw [hg.scenes f.stamp h.stamp]
    exact hstands.later hg

theorem MethodHeld.later {decl : ClassDecl} {f : Closure} (h : MethodHeld nodes t decl f)
    (hg : Grows t t') : MethodHeld nodes t' decl f where
  stamp := Nat.lt_of_lt_of_le h.stamp hg.stamps
  classAround := by
    rw [hg.scenes f.stamp h.stamp]
    exact h.classAround
  written := h.written

theorem ClassHeld.later {c : Class} (h : ClassHeld nodes t c) (hg : Grows t t') :
    ClassHeld nodes t' c where
  stamp := Nat.lt_of_lt_of_le h.stamp hg.stamps
  methods := by
    obtain ⟨decl, hdecl, hmethods⟩ := h.methods
    refine ⟨decl, ?_, fun name f hf => (hmethods name f hf).later hg⟩
    rw [hg.scenes c.stamp h.stamp]
    exact hdecl

theorem ValueHeld.later {v : Value} (h : ValueHeld nodes t v) (hg : Grows t t') :
    ValueHeld nodes t' v := by
  cases v with
  | function f => exact FunctionHeld.later h hg
  | ofClass c => exact ClassHeld.later h hg
  | _ => exact h

end

/-! ## The record -/

/-- A `this` gives the object that the method around it is bound to, and the innermost class
statement around it has made the class of this object. There is only one such statement, since no
other one has the identity of the `this` in it. -/
def Entrance.Receives (nodes : List (Spot × Node)) (v : Entrance) (id : NodeId) (line : Nat) :
    Prop :=
  ∃ spot decl k o c, (spot, .expr (.this id line)) ∈ nodes ∧ spot.classAround = some (decl, k) ∧
    v.scene = ⟨some o, some decl⟩ ∧ Run.lookUp id "this" line v.machine = .ok (.object o) v.machine ∧
    v.machine.store.class? o = some c ∧ (v.scenes c.stamp).classAround = some decl

/-- No more than this can come of code that was accepted: a statement of a program completes
normally, a body of a function and a loop do not break, and an initializer returns nothing. -/
def Ending.IsCalm : Ending → Prop
  | .statement completion => completion = .normal
  | .body f completion => completion ≠ .breaking ∧
      (f.isInitializer = true → ∀ v, completion = .returning v → v = .nil)
  | .loop completion => completion ≠ .breaking

/-- All variables and fields hold functions and classes of the programs with these nodes, and the
record is as it should be. Beside the programs an expression may be evaluated, whose parts stand
aside. -/
structure Upright (nodes : List (Spot × Node)) (aside : List Expr) (t : Staged) : Prop where
  locals (f : FrameId) (name : String) (v : Value) :
    t.machine.store.local? f name = some v → ValueHeld nodes t v
  fields (o : ObjectId) (name : String) (v : Value) :
    t.machine.store.field? o name = some v → ValueHeld nodes t v
  classes (o : ObjectId) (c : Class) :
    t.machine.store.class? o = some c → ClassHeld nodes t c
  admits : ∀ node ∈ nodes,
    node.1.Admits (fun id k => t.machine.distances.of? id = some k) node.2
  entrances : ∀ v ∈ t.entrances, v.machine.distances = t.machine.distances ∧
    ∀ id line, v.expr = .this id line → v.expr ∈ aside ∨ v.Receives nodes id line
  endings : ∀ ending ∈ t.endings, ending.IsCalm

/-- A run leads from a machine to an upright one behind it, in the same frame. -/
structure Reaches (nodes : List (Spot × Node)) (aside : List Expr) (t t' : Staged) : Prop where
  upright : Upright nodes aside t'
  grows : Grows t t'
  frame : t'.machine.frame = t.machine.frame
  distances : t'.machine.distances = t.machine.distances

section
variable {nodes : List (Spot × Node)} {aside : List Expr} {t t' t'' : Staged}

theorem Reaches.refl (h : Upright nodes aside t) : Reaches nodes aside t t :=
  ⟨h, .refl t, rfl, rfl⟩

theorem Reaches.trans (h : Reaches nodes aside t t') (h' : Reaches nodes aside t' t'') :
    Reaches nodes aside t t'' :=
  ⟨h'.upright, h.grows.trans h'.grows, h'.frame.trans h.frame, h'.distances.trans h.distances⟩

/-- Code that stands in the current frame still does. -/
theorem Reaches.stands {spot : Spot} {scene : Scene} (hreach : Reaches nodes aside t t')
    (h : t.Stands spot scene t.machine.frame) : t'.Stands spot scene t'.machine.frame := by
  rw [hreach.frame]
  exact h.later hreach.grows

/-- Nothing new is in the record or among the distances. -/
def SameRecord (t t' : Staged) : Prop :=
  t'.machine.distances = t.machine.distances ∧ t'.entrances = t.entrances ∧ t'.endings = t.endings

/-- A later machine with the same record is upright if all that is new in it is held. -/
theorem Upright.later (h : Upright nodes aside t) (hg : Grows t t')
    (hrecord : SameRecord t t')
    (hlocals : ∀ f name v, t'.machine.store.local? f name = some v →
      t.machine.store.local? f name = some v ∨ ValueHeld nodes t' v)
    (hfields : ∀ o name v, t'.machine.store.field? o name = some v →
      t.machine.store.field? o name = some v ∨ ValueHeld nodes t' v)
    (hclasses : ∀ o c, t'.machine.store.class? o = some c →
      t.machine.store.class? o = some c ∨ ClassHeld nodes t' c) : Upright nodes aside t' where
  locals f name v hv := by
    obtain hv | hv := hlocals f name v hv
    · exact (h.locals f name v hv).later hg
    · exact hv
  fields o name v hv := by
    obtain hv | hv := hfields o name v hv
    · exact (h.fields o name v hv).later hg
    · exact hv
  classes o c hc := by
    obtain hc | hc := hclasses o c hc
    · exact (h.classes o c hc).later hg
    · exact hc
  admits := by
    rw [hrecord.1]
    exact h.admits
  entrances := by
    rw [hrecord.1, hrecord.2.1]
    exact h.entrances
  endings := by
    rw [hrecord.2.2]
    exact h.endings

/-- A later machine with the same store. -/
theorem Upright.sameStore (h : Upright nodes aside t) (hg : Grows t t')
    (hrecord : SameRecord t t')
    (hstore : t'.machine.store = t.machine.store) : Upright nodes aside t' := by
  apply h.later hg hrecord <;> rw [hstore]
  · exact fun _ _ _ hv => .inl hv
  · exact fun _ _ _ hv => .inl hv
  · exact fun _ _ hc => .inl hc

/-- The same machine with another record. -/
theorem Upright.recorded (h : Upright nodes aside t) {entrances : List Entrance}
    {endings : List Ending}
    (hentrances : ∀ v ∈ entrances, v.machine.distances = t.machine.distances ∧
      ∀ id line, v.expr = .this id line → v.expr ∈ aside ∨ v.Receives nodes id line)
    (hendings : ∀ ending ∈ endings, ending.IsCalm) :
    Upright nodes aside { t with entrances, endings } := by
  have hgrows : Grows t { t with entrances, endings } := .sameStore rfl rfl
  refine ⟨?_, ?_, ?_, h.admits, hentrances, hendings⟩
  · exact fun f name v hv => (h.locals f name v hv).later hgrows
  · exact fun o name v hv => (h.fields o name v hv).later hgrows
  · exact fun o c hc => (h.classes o c hc).later hgrows

end

end LoxLang
