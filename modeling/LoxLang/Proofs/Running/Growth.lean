import LoxLang.Proofs.Running.Receivers
import LoxLang.Proofs.Running.Resemblance

/-!
# Stores that only grow

Nothing is ever taken out of a store. What changes is what variables and fields hold.

* `Store.Offers`: the values that a store holds;
* `Store.GrowsTo`: a later store, in which frames, objects, functions and classes are what they
  were;
* `Store.Rooted`: every frame is enclosed by an older one, up to that of the global variables;
* `Store.Tracked`: what the store holds is among the values made so far, which their stamps tell
  apart;
* `Store.Advances`: a step from a tracked store to a later one, for each operation.
-/

namespace LoxLang.Store

variable {s s' s'' : Store}

/-- The values there are: those without parts, objects, and what the store holds in variables and
fields, with the classes of objects and the methods of classes. -/
inductive Offers (s : Store) : Value → Prop
  | plain {v : Value} : v.IsPlain → Offers s v
  | object (o : ObjectId) : Offers s (.object o)
  | bound {f : FrameId} {x : String} {v : Value} : s.local? f x = some v → Offers s v
  | field {o : ObjectId} {x : String} {v : Value} : s.field? o x = some v → Offers s v
  | ofClass {o : ObjectId} {c : Class} : s.class? o = some c → Offers s (.ofClass c)
  | method {c : Class} {x : String} {f : Closure} :
      Offers s (.ofClass c) → c.method? x = some f → Offers s (.function f)

/-! ## Frames and objects -/

/-- Frames are still enclosed by the same frames and bind what they bound, and objects still have
their classes and their fields. Each further frame is enclosed by one made before it. -/
structure Widens (s s' : Store) : Prop where
  size : s.frames.size ≤ s'.frames.size
  enclosing (f : FrameId) : f < s.frames.size → s'.enclosing? f = s.enclosing? f
  names (f : FrameId) (x : String) : s.binds f x = true → s'.binds f x = true
  classes (o : ObjectId) (c : Class) : s.class? o = some c → s'.class? o = some c
  fields (o : ObjectId) (x : String) : (s.field? o x).isSome → (s'.field? o x).isSome
  newFrames (f : FrameId) : s.frames.size ≤ f → f < s'.frames.size →
    ∃ e, s'.enclosing? f = some e ∧ e < f

namespace Widens

theorem of_frames (hframes : s'.frames = s.frames)
    (hclasses : ∀ o c, s.class? o = some c → s'.class? o = some c)
    (hfields : ∀ o x, (s.field? o x).isSome → (s'.field? o x).isSome) : s.Widens s' where
  size := Nat.le_of_eq (congrArg Array.size hframes.symm)
  enclosing f _ := by simp only [enclosing?, frame, hframes]
  names f x h := by simpa only [binds, local?, frame, hframes] using h
  classes := hclasses
  fields := hfields
  newFrames f hle hlt := absurd (hframes ▸ hlt) (Nat.not_lt_of_le hle)

theorem refl (s : Store) : s.Widens s := .of_frames rfl (fun _ _ h => h) fun _ _ h => h

theorem trans (h : s.Widens s') (h' : s'.Widens s'') : s.Widens s'' where
  size := Nat.le_trans h.size h'.size
  enclosing f hf := by rw [h'.enclosing f (Nat.lt_of_lt_of_le hf h.size), h.enclosing f hf]
  names f x hx := h'.names f x (h.names f x hx)
  classes o c hc := h'.classes o c (h.classes o c hc)
  fields o x hx := h'.fields o x (h.fields o x hx)
  newFrames f hle hlt := by
    by_cases hbetween : f < s'.frames.size
    · rw [h'.enclosing f hbetween]
      exact h.newFrames f hle hbetween
    · exact h'.newFrames f (Nat.le_of_not_lt hbetween) hlt

theorem define (f : FrameId) (name : String) (v : Value) : s.Widens (s.define f name v) where
  size := Nat.le_of_eq define_size.symm
  enclosing _ _ := enclosing_define
  names _ _ h := binds_define_mono h
  classes _ _ h := h
  fields _ _ h := h
  newFrames _ hle hlt := absurd (define_size ▸ hlt) (Nat.not_lt_of_le hle)

theorem newFrame {e : FrameId} (he : e < s.frames.size) (bindings : Bindings Value) :
    s.Widens (s.newFrame (some e) bindings).2 where
  size := by
    rw [newFrame_size]
    exact Nat.le_succ _
  enclosing f hf := by rw [enclosing?, frame_newFrame_of_ne (Nat.ne_of_lt hf), enclosing?]
  names f x hx := by
    obtain ⟨v, hv⟩ := Option.isSome_iff_exists.mp hx
    exact Option.isSome_iff_exists.mpr ⟨v, local?_newFrame_of_some hv⟩
  classes _ _ h := h
  fields _ _ h := h
  newFrames f hle hlt := by
    rw [newFrame_size] at hlt
    obtain rfl := Nat.le_antisymm (Nat.le_of_lt_succ hlt) hle
    exact ⟨e, by rw [enclosing?, frame_newFrame_new], he⟩

theorem newObject (c : Class) : s.Widens (s.newObject c).2 := by
  refine .of_frames rfl (fun o c' h => class?_newObject_of_some h) fun o x h => ?_
  obtain ⟨v, hv⟩ := Option.isSome_iff_exists.mp h
  exact Option.isSome_iff_exists.mpr ⟨v, field?_newObject_of_some hv⟩

theorem setField (o : ObjectId) (name : String) (v : Value) : s.Widens (s.setField o name v) :=
  .of_frames rfl (fun _ _ h => class?_setField.trans h) fun _ _ h => field?_setField_isSome h

end Widens

/-- A later store of the same machine. A function or a class that both stores hold is told by its
stamp, and has stayed what it is: its declaration, the frame it closes over and the mark of an
initializer, or its name and its methods. -/
structure GrowsTo (s s' : Store) : Prop extends s.Widens s' where
  functions (f g : Closure) : s.Offers (.function f) → s'.Offers (.function g) →
    f.stamp = g.stamp → f = g
  methodTables (c d : Class) : s.Offers (.ofClass c) → s'.Offers (.ofClass d) →
    c.stamp = d.stamp → c = d

/-! ## The frame of the global variables -/

/-- The frame of the global variables is there, and no frame is around it. Every other frame is
enclosed by an older one. -/
structure Rooted (s : Store) : Prop where
  globals : globals < s.frames.size
  outermost : s.enclosing? LoxLang.globals = none
  enclosed (f : FrameId) : f < s.frames.size → f ≠ LoxLang.globals →
    ∃ e, s.enclosing? f = some e ∧ e < f

/-- From every frame the way out leads to the global variables. -/
theorem Rooted.climb (h : s.Rooted) (f : FrameId) (hf : f < s.frames.size) :
    ∃ k, s.climb k f = .ok LoxLang.globals := by
  induction f using Nat.strongRecOn with
  | ind f ih =>
    by_cases hglobals : f = LoxLang.globals
    · exact ⟨0, hglobals ▸ rfl⟩
    · obtain ⟨e, he, hlt⟩ := h.enclosed f hf hglobals
      obtain ⟨k, hk⟩ := ih e hlt (Nat.lt_trans hlt hf)
      exact ⟨k + 1, climb_succ he hk⟩

theorem Rooted.chain (h : s.Rooted) (f : FrameId) (hf : f < s.frames.size) :
    (s.chain f).getLast? = some LoxLang.globals := by
  induction f using Nat.strongRecOn with
  | ind f ih =>
    by_cases hglobals : f = LoxLang.globals
    · rw [hglobals, chain_outermost h.outermost]
      rfl
    · obtain ⟨e, he, hlt⟩ := h.enclosed f hf hglobals
      have hchain : s.chain f = f :: s.chain e := by
        rw [Store.chain, he]
        exact if_pos hlt
      rw [hchain, List.getLast?_cons, ih e hlt (Nat.lt_trans hlt hf)]
      rfl

theorem Widens.rooted (h : s.Widens s') (hs : s.Rooted) : s'.Rooted where
  globals := Nat.lt_of_lt_of_le hs.globals h.size
  outermost := (h.enclosing _ hs.globals).trans hs.outermost
  enclosed f hf hne := by
    by_cases hold : f < s.frames.size
    · rw [h.enclosing f hold]
      exact hs.enclosed f hold hne
    · exact h.newFrames f (Nat.le_of_not_lt hold) hf

/-! ## The values made so far -/

/-- All that a store holds is among the values that were made so far. Functions and classes among
them have stamps of their own, which are used up. -/
structure Tracked (s : Store) (made : Value → Prop) : Prop where
  rooted : s.Rooted
  plain (v : Value) : v.IsPlain → made v
  object (o : ObjectId) : made (.object o)
  bound (f : FrameId) (x : String) (v : Value) : s.local? f x = some v → made v
  fields (o : ObjectId) (x : String) (v : Value) : s.field? o x = some v → made v
  classes (o : ObjectId) (c : Class) : s.class? o = some c → made (.ofClass c)
  methods (c : Class) (x : String) (f : Closure) :
    made (.ofClass c) → c.method? x = some f → made (.function f)
  natives (f : Native) : made (.native f) → f = .clock
  closures (f : Closure) : made (.function f) → f.stamp < s.nextStamp ∧ f.frame < s.frames.size
  classStamps (c : Class) : made (.ofClass c) → c.stamp < s.nextStamp
  sameFunction (f g : Closure) : made (.function f) → made (.function g) → f.stamp = g.stamp → f = g
  sameClass (c d : Class) : made (.ofClass c) → made (.ofClass d) → c.stamp = d.stamp → c = d

variable {made made' made'' : Value → Prop}

theorem Tracked.offers (h : s.Tracked made) {v : Value} (hv : s.Offers v) : made v := by
  induction hv with
  | plain hv => exact h.plain _ hv
  | object o => exact h.object o
  | bound hv => exact h.bound _ _ _ hv
  | field hv => exact h.fields _ _ _ hv
  | ofClass hc => exact h.classes _ _ hc
  | method _ hf ih => exact h.methods _ _ _ ih hf

/-- A step to a later store, with what was made by then. -/
structure Advances (made : Value → Prop) (s : Store) (made' : Value → Prop) (s' : Store) :
    Prop where
  made (v : Value) : made v → made' v
  widens : s.Widens s'
  tracked : s'.Tracked made'

namespace Advances

theorem refl (h : s.Tracked made) : Advances made s made s := ⟨fun _ hv => hv, .refl s, h⟩

theorem trans (h : Advances made s made' s') (h' : Advances made' s' made'' s'') :
    Advances made s made'' s'' where
  made v hv := h'.made v (h.made v hv)
  widens := h.widens.trans h'.widens
  tracked := h'.tracked

theorem growsTo (h : Advances made s made' s') (hs : s.Tracked made) : s.GrowsTo s' where
  toWidens := h.widens
  functions f g hf hg hstamp :=
    h.tracked.sameFunction f g (h.made _ (hs.offers hf)) (h.tracked.offers hg) hstamp
  methodTables c d hc hd hstamp :=
    h.tracked.sameClass c d (h.made _ (hs.offers hc)) (h.tracked.offers hd) hstamp

/-- Nothing is made that has a stamp. -/
theorem unstamped (h : s.Tracked made) (hwidens : s.Widens s')
    (hstamp : s'.nextStamp = s.nextStamp)
    (hbound : ∀ f x v, s'.local? f x = some v → made v ∨ s.local? f x = some v)
    (hfields : ∀ o x v, s'.field? o x = some v → made v ∨ s.field? o x = some v)
    (hclasses : ∀ o c, s'.class? o = some c → made (.ofClass c) ∨ s.class? o = some c) :
    Advances made s made s' where
  made _ hv := hv
  widens := hwidens
  tracked :=
    { h with
      rooted := hwidens.rooted h.rooted
      bound := fun f x v hv => (hbound f x v hv).elim id (h.bound f x v)
      fields := fun o x v hv => (hfields o x v hv).elim id (h.fields o x v)
      classes := fun o c hc => (hclasses o c hc).elim id (h.classes o c)
      closures := fun f hf => by
        obtain ⟨hbelow, hframe⟩ := h.closures f hf
        exact ⟨hstamp ▸ hbelow, Nat.lt_of_lt_of_le hframe hwidens.size⟩
      classStamps := fun c hc => hstamp ▸ h.classStamps c hc }

theorem define (h : s.Tracked made) (f : FrameId) (name : String) {v : Value} (hv : made v) :
    Advances made s made (s.define f name v) := by
  refine .unstamped h (.define f name v) rfl (fun g x w hw => ?_) (fun _ _ _ => .inr)
    fun _ _ => .inr
  obtain rfl | hw := local?_define hw
  · exact .inl hv
  · exact .inr hw

theorem newFrame (h : s.Tracked made) {e : FrameId} (he : e < s.frames.size)
    {bindings : Bindings Value} (hb : ∀ x v, bindings.find? x = some v → made v) :
    Advances made s made (s.newFrame (some e) bindings).2 :=
  .unstamped h (.newFrame he bindings) rfl
    (fun _ x v hw => (local?_newFrame hw).imp_left (hb x v)) (fun _ _ _ => .inr) fun _ _ => .inr

theorem newObject (h : s.Tracked made) {c : Class} (hc : made (.ofClass c)) :
    Advances made s made (s.newObject c).2 := by
  refine .unstamped h (.newObject c) rfl (fun _ _ _ => .inr)
    (fun _ _ _ hw => .inr (field?_newObject hw)) fun o c' hc' => ?_
  obtain rfl | hc' := class?_newObject hc'
  · exact .inl hc
  · exact .inr hc'

theorem setField (h : s.Tracked made) (o : ObjectId) (name : String) {v : Value} (hv : made v) :
    Advances made s made (s.setField o name v) := by
  refine .unstamped h (.setField o name v) rfl (fun _ _ _ => .inr) (fun o' x w hw => ?_)
    fun _ _ hc => .inr (class?_setField.symm.trans hc)
  obtain rfl | hw := field?_setField hw
  · exact .inl hv
  · exact .inr hw

/-- New functions and classes with the next stamps. -/
theorem stamped (h : s.Tracked made) (n : Nat) (new : Value → Prop)
    (hclosures : ∀ f, new (.function f) →
      s.nextStamp ≤ f.stamp ∧ f.stamp < s.nextStamp + n ∧ f.frame < s.frames.size)
    (hclasses : ∀ c, new (.ofClass c) → s.nextStamp ≤ c.stamp ∧ c.stamp < s.nextStamp + n)
    (hmethods : ∀ c x f, new (.ofClass c) → c.method? x = some f → new (.function f))
    (hnatives : ∀ f, ¬new (.native f))
    (hfunction : ∀ f g, new (.function f) → new (.function g) → f.stamp = g.stamp → f = g)
    (hclass : ∀ c d, new (.ofClass c) → new (.ofClass d) → c.stamp = d.stamp → c = d) :
    Advances made s (fun v => made v ∨ new v) { s with nextStamp := s.nextStamp + n } where
  made _ := .inl
  widens := .of_frames rfl (fun _ _ hc => hc) fun _ _ hx => hx
  tracked := by
    -- Among what is new and what was there before, a stamp can only be of one of the two.
    have hapart {old latest : Nat} (hold : old < s.nextStamp) (hnew : s.nextStamp ≤ latest) :
        old ≠ latest := Nat.ne_of_lt (Nat.lt_of_lt_of_le hold hnew)
    exact {
      rooted := ⟨h.rooted.globals, h.rooted.outermost, h.rooted.enclosed⟩
      plain := fun v hv => .inl (h.plain v hv)
      object := fun o => .inl (h.object o)
      bound := fun f x v hv => .inl (h.bound f x v hv)
      fields := fun o x v hv => .inl (h.fields o x v hv)
      classes := fun o c hc => .inl (h.classes o c hc)
      methods := fun c x f hc hf => hc.imp (h.methods c x f · hf) (hmethods c x f · hf)
      natives := fun f hf => hf.elim (h.natives f) fun hnew => absurd hnew (hnatives f)
      closures := by
        rintro f (hf | hf)
        · obtain ⟨hbelow, hframe⟩ := h.closures f hf
          exact ⟨Nat.lt_of_lt_of_le hbelow (Nat.le_add_right _ _), hframe⟩
        · exact (hclosures f hf).2
      classStamps := by
        rintro c (hc | hc)
        · exact Nat.lt_of_lt_of_le (h.classStamps c hc) (Nat.le_add_right _ _)
        · exact (hclasses c hc).2
      sameFunction := by
        rintro f g (hf | hf) (hg | hg) hstamp
        · exact h.sameFunction f g hf hg hstamp
        · exact absurd hstamp (hapart (h.closures f hf).1 (hclosures g hg).1)
        · exact absurd hstamp.symm (hapart (h.closures g hg).1 (hclosures f hf).1)
        · exact hfunction f g hf hg hstamp
      sameClass := by
        rintro c d (hc | hc) (hd | hd) hstamp
        · exact h.sameClass c d hc hd hstamp
        · exact absurd hstamp (hapart (h.classStamps c hc) (hclasses d hd).1)
        · exact absurd hstamp.symm (hapart (h.classStamps d hd) (hclasses c hc).1)
        · exact hclass c d hc hd hstamp }

theorem newClosure (h : s.Tracked made) (d : FunctionDecl) {frame : FrameId}
    (hframe : frame < s.frames.size) (isInitializer : Bool) :
    let r := s.newClosure d frame isInitializer
    ∃ made', Advances made s made' r.2 ∧ made' (.function r.1) := by
  refine ⟨_, stamped h 1 (· = .function ⟨s.nextStamp, d, frame, isInitializer⟩)
    ?_ nofun nofun nofun ?_ nofun, .inr rfl⟩
  · rintro f ⟨⟩
    exact ⟨Nat.le_refl _, Nat.lt_succ_self _, hframe⟩
  · rintro f g ⟨⟩ ⟨⟩ -
    rfl

theorem newClass (h : s.Tracked made) (name : String) (ds : List FunctionDecl) {frame : FrameId}
    (hframe : frame < s.frames.size) :
    let r := s.newClass name ds frame
    ∃ made', Advances made s made' r.2 ∧ made' (.ofClass r.1) := by
  let c : Class := ⟨s.nextStamp + ds.length, name, methodsFrom frame ds s.nextStamp []⟩
  have hmethod {x : String} {f : Closure} (hf : c.method? x = some f) :
      ∃ i d, ds[i]? = some d ∧ f = ⟨s.nextStamp + i, d, frame, d.isInitializer⟩ :=
    (find?_methodsFrom_stamp hf).resolve_left nofun
  rw [newClass_eq]
  refine ⟨_, stamped h (ds.length + 1)
    (fun v => v = .ofClass c ∨ ∃ x f, c.method? x = some f ∧ v = .function f)
    ?_ ?_ ?_ ?_ ?_ ?_, .inr (.inl rfl)⟩
  · rintro f (⟨⟨⟩⟩ | ⟨x, f, hf, ⟨⟩⟩)
    obtain ⟨i, d, hd, rfl⟩ := hmethod hf
    obtain ⟨hi, -⟩ := List.getElem?_eq_some_iff.mp hd
    exact ⟨Nat.le_add_right _ _, Nat.add_lt_add_left (Nat.lt_succ_of_lt hi) _, hframe⟩
  · rintro _ (⟨⟨⟩⟩ | ⟨_, _, _, ⟨⟩⟩)
    exact ⟨Nat.le_add_right _ _, Nat.lt_succ_self _⟩
  · rintro _ x f (⟨⟨⟩⟩ | ⟨_, _, _, ⟨⟩⟩) hf
    exact .inr ⟨x, f, hf, rfl⟩
  · rintro _ (⟨⟨⟩⟩ | ⟨_, _, _, ⟨⟩⟩)
  · rintro _ _ (⟨⟨⟩⟩ | ⟨x, f, hf, ⟨⟩⟩) (⟨⟨⟩⟩ | ⟨y, g, hg, ⟨⟩⟩) hstamp
    obtain ⟨i, d, hd, rfl⟩ := hmethod hf
    obtain ⟨j, d', hd', rfl⟩ := hmethod hg
    cases Nat.add_left_cancel hstamp
    cases hd.symm.trans hd'
    rfl
  · rintro _ _ (⟨⟨⟩⟩ | ⟨_, _, _, ⟨⟩⟩) (⟨⟨⟩⟩ | ⟨_, _, _, ⟨⟩⟩) -
    rfl

/-- A method is bound to an object. -/
theorem bindMethod (h : s.Tracked made) {f : Closure} (hf : made (.function f)) (o : ObjectId) :
    let r := s.bindMethod f o
    ∃ made', Advances made s made' r.2 ∧ made' (.function r.1) := by
  have hthis : ∀ x v, Bindings.find? [("this", Value.object o)] x = some v → made v := by
    intro x v hv
    rw [Bindings.find?_cons] at hv
    split at hv <;> cases hv
    exact h.object o
  have hframe := newFrame h (h.closures f hf).2 hthis
  have hnew : s.frames.size
      < (s.newFrame (some f.frame) [("this", .object o)]).2.frames.size := by
    rw [newFrame_size]
    exact Nat.lt_succ_self _
  obtain ⟨made', hadvances, hbound⟩ :=
    newClosure hframe.tracked f.declaration hnew f.isInitializer
  exact ⟨made', hframe.trans hadvances, hbound⟩

end Advances

end LoxLang.Store
