import LoxLang.Proofs.Running.Simulation

/-!
# Linked stores

What reading and changing both stores alike gives: a name is found in a frame on both sides or on
neither, and after a new binding, a new frame, a new object, a set field or a new stamp the stores
are linked again.
-/

namespace LoxLang

open Scoping (Context Scope)

variable {ρ : Renaming} {w : World} {m : Machine} {s : Store}

/-! ## Reading -/

namespace StoreLinked

theorem lt (h : StoreLinked ρ w s) {f : FrameId} {l : Option Label} (hl : w.labels[f]? = some l) :
    f < w.store.frames.size := h.size ▸ lt_of_getElem? hl

theorem enclosing (h : StoreLinked ρ w s) (f : FrameId) :
    s.enclosing? f = w.store.enclosing? f := by
  by_cases hf : f < w.labels.length
  · exact (h.frames f _ (List.getElem?_eq_getElem hf)).enclosing
  · have hs : ¬f < s.frames.size := by rw [h.size']; exact hf
    have hw : ¬f < w.store.frames.size := by rw [h.size]; exact hf
    simp [Store.enclosing?, Store.frame, hs, hw]

theorem climb (h : StoreLinked ρ w s) (d : Nat) (f : FrameId) :
    s.climb d f = w.store.climb d f := by
  induction d generalizing f with
  | zero => rfl
  | succ d ih =>
    simp only [Store.climb, h.enclosing]
    cases w.store.enclosing? f with
    | none => rfl
    | some e => simp only [ih]

/-- What a frame binds is declared in its scope. -/
theorem declared (h : StoreLinked ρ w s) {f : FrameId} {label : Label}
    (hl : w.labels[f]? = some (some label)) {name : String} (hb : w.store.binds f name = true) :
    name ∈ label.names := (h.frames f _ hl).declared label rfl name hb

theorem inj (h : StoreLinked ρ w s) {f : FrameId} {l : Option Label} (hl : w.labels[f]? = some l)
    {name : String} (hname : ∀ label ∈ l, name ∈ label.names) (x : String)
    (hx : (w.store.frame f).bindings.isBound x = true)
    (hw : ρ.inScope l x = ρ.inScope l name) : x = name := by
  cases l with
  | none => exact hw
  | some label =>
    have hframe := h.frames f _ hl
    exact Renaming.inScope_inj (hframe.proper label rfl) (hframe.declared label rfl x hx)
      (hname label rfl) hw

/-- A name is bound on both sides or on neither. -/
theorem local? (h : StoreLinked ρ w s) {f : FrameId} {l : Option Label}
    (hl : w.labels[f]? = some l) {name : String} (hname : ∀ label ∈ l, name ∈ label.names) :
    (w.store.local? f name = none ∧ s.local? f (ρ.inScope l name) = none) ∨
      ∃ v v', w.store.local? f name = some v ∧ s.local? f (ρ.inScope l name) = some v' ∧
        ValueLinked ρ w v v' :=
  (h.frames f l hl).bindings.find? (h.inj hl hname)

theorem local?_of_binds (h : StoreLinked ρ w s) {f : FrameId} {l : Option Label}
    (hl : w.labels[f]? = some l) {name : String} (hb : w.store.binds f name = true) :
    ∃ v v', w.store.local? f name = some v ∧ s.local? f (ρ.inScope l name) = some v' ∧
      ValueLinked ρ w v v' := by
  have hname : ∀ label ∈ l, name ∈ label.names := fun label hlabel =>
    (h.frames f l hl).declared label hlabel name hb
  obtain ⟨hnone, -⟩ | hsome := h.local? hl hname
  · rw [Store.binds, hnone] at hb
    cases hb
  · exact hsome

theorem binds (h : StoreLinked ρ w s) {f : FrameId} {l : Option Label}
    (hl : w.labels[f]? = some l) {name : String} (hname : ∀ label ∈ l, name ∈ label.names) :
    s.binds f (ρ.inScope l name) = w.store.binds f name := by
  obtain ⟨hnone, hnone'⟩ | ⟨v, v', hsome, hsome', -⟩ := h.local? hl hname
  · rw [Store.binds, Store.binds, hnone, hnone']
  · rw [Store.binds, Store.binds, hsome, hsome']
    rfl

theorem className (h : StoreLinked ρ w s) (o : ObjectId) :
    s.className o = w.store.className o := by
  unfold Store.className
  by_cases ho : o < w.store.objects.size
  · have ho' : o < s.objects.size := by rw [h.objectsSize]; exact ho
    have hob := h.objects o _ _ (Array.getElem?_eq_getElem ho) (Array.getElem?_eq_getElem ho')
    rw [Array.getElem?_eq_getElem ho, Array.getElem?_eq_getElem ho']
    exact hob.ofClass.name
  · have ho' : ¬o < s.objects.size := by rw [h.objectsSize]; exact ho
    simp [ho, ho']

end StoreLinked

/-! ## Changing -/

section
variable {f : FrameId} {l : Option Label} {name : String} {v v' : Value}

theorem later_define (hl : f < w.store.frames.size) :
    Later (some f) w (w.withStore (w.store.define f name v)) where
  labels _ _ h := h
  size := Nat.le_refl _
  enclosing _ _ := Store.enclosing_define
  binds _ _ h := Store.binds_define_mono h
  kept g _ hg x hx := by
    change (w.store.define f name v).binds g x = true at hx
    rw [Store.binds_define hl] at hx
    simpa [show ¬g = f from fun e => hg (by rw [e])] using hx
  stamps := Nat.le_refl _
  origins _ _ := rfl
  next := Nat.le_refl _
  placed _ _ h := h
  distances _ _ := rfl

/-- A frame that binds the name already gets no further name. -/
theorem later_define_bound (hl : f < w.store.frames.size) (hb : w.store.binds f name = true) :
    Later none w (w.withStore (w.store.define f name v)) :=
  { later_define hl with
    kept := fun g _ _ x hx => by
      change (w.store.define f name v).binds g x = true at hx
      rw [Store.binds_define hl] at hx
      by_cases hg : g = f ∧ name = x
      · obtain ⟨rfl, rfl⟩ := hg
        exact hb
      · simpa [hg] using hx }

theorem StoreLinked.define (h : StoreLinked ρ w s) (hl : w.labels[f]? = some l)
    (hname : ∀ label ∈ l, name ∈ label.names)
    (hv : ValueLinked ρ (w.withStore (w.store.define f name v)) v v') :
    StoreLinked ρ (w.withStore (w.store.define f name v)) (s.define f (ρ.inScope l name) v') where
  stamps := h.stamps
  size := Store.define_size.trans h.size
  size' := Store.define_size.trans h.size'
  frames g l' hg := by
    have hlater : Later (some f) w (w.withStore (w.store.define f name v)) :=
      later_define (h.lt hl)
    by_cases hgf : g = f
    · subst hgf
      rw [show l' = l from Option.some.inj (hg.symm.trans hl)]
      have hframe := h.frames g l hl
      have hs : g < s.frames.size := by rw [h.size', ← h.size]; exact h.lt hl
      change FrameLinked ρ _ l ((w.store.define g name v).frame g) _
      rw [Store.frame_define_self (h.lt hl), Store.frame_define_self hs]
      exact {
        enclosing := hframe.enclosing
        bindings := (hframe.bindings.mono fun _ _ h => h.later hlater).insert (h.inj hl hname) hv
        declared := fun label hlabel x hx => by
          simp only [Bindings.isBound_insert, Bool.or_eq_true, decide_eq_true_eq] at hx
          obtain rfl | hx := hx
          · exact hname label hlabel
          · exact hframe.declared label hlabel x hx
        proper := hframe.proper }
    · change FrameLinked ρ _ l' ((w.store.define f name v).frame g) _
      rw [Store.frame_define_of_ne hgf, Store.frame_define_of_ne hgf]
      exact (h.frames g l' hg).later hlater
  objectsSize := h.objectsSize
  objects o ob ob' ho ho' := (h.objects o ob ob' ho ho').later (later_define (h.lt hl))
  global := h.global
  outermost := Store.enclosing_define.trans h.outermost

/-- A name of the scope is bound in a frame, on both sides. The value may be a function that uses
the binding. -/
theorem Reached.define (h : Settled ρ w m) (hl : w.labels[f]? = some l)
    (hname : ∀ label ∈ l, name ∈ label.names)
    (hv : ValueLinked ρ (w.withStore (w.store.define f name v)) v v') :
    Reached ρ (some f) w (w.withStore (w.store.define f name v))
      { m with store := m.store.define f (ρ.inScope l name) v' } where
  settled := ⟨{ h.linked with store := h.linked.store.define hl hname hv }, h.calm⟩
  later := later_define (h.linked.store.lt hl)
  frame := rfl
  distances := rfl
  next := rfl
  placed := rfl
  visits _ h := h

theorem Reached.define_bound (h : Settled ρ w m) (hl : w.labels[f]? = some l)
    (hb : w.store.binds f name = true) (hv : ValueLinked ρ w v v') :
    Reached ρ none w (w.withStore (w.store.define f name v))
      { m with store := m.store.define f (ρ.inScope l name) v' } where
  settled := (Reached.define h hl
    (fun label hlabel => (h.linked.store.frames f l hl).declared label hlabel name hb)
    (hv.later (later_define_bound (h.linked.store.lt hl) hb))).settled
  later := later_define_bound (h.linked.store.lt hl) hb
  frame := rfl
  distances := rfl
  next := rfl
  placed := rfl
  visits _ h := h

end

section
variable {label : Label} {e : FrameId} {b b' : Bindings Value}

/-- The world with a further frame. -/
def World.withFrame (w : World) (label : Label) (e : FrameId) (b : Bindings Value) : World :=
  { w.withStore (w.store.newFrame (some e) b).2 with labels := w.labels ++ [some label] }

theorem later_newFrame (hsize : w.store.frames.size = w.labels.length) :
    Later none w (w.withFrame label e b) where
  labels f l hf := List.getElem?_append_left (lt_of_getElem? hf) ▸ hf
  size := by simp [World.withFrame]
  enclosing f hf := by
    have hne : f ≠ w.store.frames.size := by omega
    change ((w.store.newFrame (some e) b).2.frame f).enclosing = _
    rw [Store.frame_newFrame_of_ne hne]
    rfl
  binds f name hb := by
    have hne : f ≠ w.store.frames.size := by
      intro heq
      subst heq
      simp [Store.binds, Store.local?, Store.frame, Bindings.find?] at hb
    change (((w.store.newFrame (some e) b).2.frame f).bindings.find? name).isSome = true
    rw [Store.frame_newFrame_of_ne hne]
    exact hb
  kept f hf _ name hb := by
    have hne : f ≠ w.store.frames.size := by omega
    change (((w.store.newFrame (some e) b).2.frame f).bindings.find? name).isSome = true at hb
    rw [Store.frame_newFrame_of_ne hne] at hb
    exact hb
  stamps := Nat.le_refl _
  origins _ _ := rfl
  next := Nat.le_refl _
  placed _ _ h := h
  distances _ _ := rfl

/-- A further frame, on both sides. -/
theorem Reached.newFrame (h : Settled ρ w m) (hproper : label.Proper ρ)
    (hb : Bindings.Linked (ρ.inScope (some label)) (ValueLinked ρ w) b b')
    (hdeclared : ∀ name, b.isBound name = true → name ∈ label.names) :
    Reached ρ none w (w.withFrame label e b)
      { m with store := (m.store.newFrame (some e) b').2 } := by
  have hs := h.linked.store
  have hlater : Later none w (w.withFrame label e b) := later_newFrame hs.size
  have hstore : StoreLinked ρ (w.withFrame label e b) (m.store.newFrame (some e) b').2 := {
    stamps := hs.stamps
    size := by
      change (w.store.newFrame (some e) b).2.frames.size = _
      simp [World.withFrame, hs.size]
    size' := by simp [World.withFrame, hs.size']
    frames := by
      intro f l hf
      change FrameLinked ρ _ l ((w.store.newFrame (some e) b).2.frame f) _
      rw [Store.frame_newFrame, Store.frame_newFrame, hs.size, hs.size']
      by_cases hnew : f = w.labels.length
      · rw [if_pos hnew, if_pos hnew]
        subst hnew
        have hl : l = some label := by simpa [World.withFrame] using hf.symm
        subst hl
        exact {
          enclosing := rfl
          bindings := hb.mono fun _ _ hv => hv.later hlater
          declared := fun label' hlabel name hname => by
            cases hlabel
            exact hdeclared name hname
          proper := fun label' hlabel => by
            cases hlabel
            exact hproper }
      · rw [if_neg hnew, if_neg hnew]
        have hlt : f < w.labels.length := by
          have hlt := lt_of_getElem? hf
          simp only [World.withFrame, List.length_append, List.length_singleton] at hlt
          exact Nat.lt_of_le_of_ne (Nat.le_of_lt_succ hlt) hnew
        have hold : w.labels[f]? = some l := by
          rw [← hf]
          exact (List.getElem?_append_left hlt).symm
        exact (hs.frames f l hold).later hlater
    objectsSize := hs.objectsSize
    objects := fun o ob ob' ho ho' => (hs.objects o ob ob' ho ho').later hlater
    global := hlater.labels _ _ hs.global
    outermost := (hlater.enclosing _ (lt_of_getElem? hs.global)).trans hs.outermost }
  exact ⟨⟨{ h.linked with store := hstore }, h.calm⟩, hlater, rfl, rfl, rfl, rfl, fun _ h => h⟩

end

/-! ## The record -/

/-- Only the record has changed on the left. -/
theorem Reached.record {o : Option FrameId} {t : Traced} (h : Settled ρ w m)
    (hmachine : t.machine = w.machine)
    (horigins : ∀ stamp < w.store.nextStamp, t.origins stamp = w.left.origins stamp)
    (hkept : ∀ v ∈ w.left.visits, v ∈ t.visits) (hvisits : ∀ v ∈ t.visits, v.Sound w.placed)
    (hcalm : t.early = false) :
    Reached ρ o w { w with left := t } m := by
  have hlater : ∀ o, Later o w { w with left := t } := fun o =>
    .of_frames rfl (by simp only [World.store, World.machine, hmachine])
      (by simp only [World.store, World.machine, hmachine]; exact Nat.le_refl _) horigins
      (Nat.le_refl _) (fun _ _ h => h) fun _ _ => by simp only [World.machine, hmachine]
  have hm := h.linked
  refine ⟨⟨?_, hcalm⟩, hlater o, by simp only [World.frame, World.machine, hmachine], hmachine ▸ rfl,
    rfl, rfl, hkept⟩
  exact {
    store := hm.store.later (hlater none) rfl (by simp only [World.store, World.machine, hmachine])
    frame := by simp only [World.frame, World.machine, hmachine, hm.frame]
    depth := by simp only [World.machine, hmachine, hm.depth]
    distances := by simp only [World.machine, hmachine, hm.distances]
    maxDepth := by simp only [World.machine, hmachine, hm.maxDepth]
    output := by simp only [World.machine, hmachine, hm.output]
    host := by simp only [World.machine, hmachine, hm.host]
    readings := by simp only [World.machine, hmachine, hm.readings]
    visits := hvisits }

/-- The world in which it is recorded where the bodies of the next functions start. -/
def World.originate (w : World) (sites : List Site) : World :=
  { w with left := { w.left with origins := fun stamp =>
      if stamp < w.store.nextStamp then w.left.origins stamp
      else (sites[stamp - w.store.nextStamp]?).getD (w.left.origins stamp) } }

theorem Reached.originate {o : Option FrameId} (h : Settled ρ w m) (sites : List Site) :
    Reached ρ o w (w.originate sites) m :=
  .record h rfl (fun _ hstamp => if_pos hstamp) (fun _ h => h) h.linked.visits h.calm

theorem originate_origins (w : World) (sites : List Site) {i : Nat} {site : Site}
    (h : sites[i]? = some site) :
    (w.originate sites).left.origins (w.store.nextStamp + i) = site := by
  have hnot : ¬w.store.nextStamp + i < w.store.nextStamp := by omega
  simp only [World.originate, if_neg hnot, Nat.add_sub_cancel_left, h, Option.getD_some]

/-- The world in which this many further stamps are given out. -/
def World.withStamps (w : World) (k : Nat) : World :=
  w.withStore { w.store with nextStamp := w.store.nextStamp + k }

theorem Reached.withStamps {o : Option FrameId} (h : Settled ρ w m) (k : Nat) :
    Reached ρ o w (w.withStamps k)
      { m with store := { m.store with nextStamp := m.store.nextStamp + k } } := by
  have hs := h.linked.store
  have hlater : ∀ o, Later o w (w.withStamps k) := fun o =>
    .of_frames rfl rfl (Nat.le_add_right _ _) (fun _ _ => rfl) (Nat.le_refl _) (fun _ _ h => h)
      fun _ _ => rfl
  have hstore : StoreLinked ρ (w.withStamps k)
      { m.store with nextStamp := m.store.nextStamp + k } := {
    stamps := congrArg (· + k) hs.stamps
    size := hs.size
    size' := hs.size'
    frames := fun f l hf => (hs.frames f l hf).later (hlater none)
    objectsSize := hs.objectsSize
    objects := fun o ob ob' ho ho' => (hs.objects o ob ob' ho ho').later (hlater none)
    global := hs.global
    outermost := hs.outermost }
  exact ⟨⟨{ h.linked with store := hstore }, h.calm⟩, hlater o, rfl, rfl, rfl, rfl, fun _ h => h⟩

/-! ## Objects -/

/-- Nothing has happened to the frames. -/
theorem StoreLinked.of_frames {w' : World} {s' : Store} (h : StoreLinked ρ w s)
    (hl : Later none w w') (hlabels : w'.labels = w.labels)
    (hframes : w'.store.frames = w.store.frames) (hframes' : s'.frames = s.frames)
    (hstamps : s'.nextStamp = w'.store.nextStamp)
    (hsize : s'.objects.size = w'.store.objects.size)
    (hobjects : ∀ (o : ObjectId) (ob ob' : Object), w'.store.objects[o]? = some ob →
      s'.objects[o]? = some ob' → ObjectLinked ρ w' ob ob') : StoreLinked ρ w' s' where
  stamps := hstamps
  size := by rw [hframes, hlabels, h.size]
  size' := by rw [hframes', hlabels, h.size']
  frames f l hf := by
    rw [hlabels] at hf
    have hw : w'.store.frame f = w.store.frame f := by simp only [Store.frame, hframes]
    have hs : s'.frame f = s.frame f := by simp only [Store.frame, hframes']
    rw [hw, hs]
    exact (h.frames f l hf).later hl
  objectsSize := hsize
  objects := hobjects
  global := by rw [hlabels, h.global]
  outermost := by
    have hw : w'.store.enclosing? globals = w.store.enclosing? globals := by
      simp only [Store.enclosing?, Store.frame, hframes]
    rw [hw, h.outermost]

/-- Only objects have changed on the left. -/
theorem later_objects {s' : Store} (hframes : s'.frames = w.store.frames)
    (hstamps : s'.nextStamp = w.store.nextStamp) : Later none w (w.withStore s') :=
  .of_frames rfl hframes (Nat.le_of_eq hstamps.symm) (fun _ _ => rfl) (Nat.le_refl _)
    (fun _ _ h => h) fun _ _ => rfl

/-- A further object, on both sides. -/
theorem Reached.newObject (h : Settled ρ w m) {c c' : Class} (hc : ClassLinked ρ w c c') :
    Reached ρ none w (w.withStore (w.store.newObject c).2)
      { m with store := (m.store.newObject c').2 } := by
  have hs := h.linked.store
  have hlater : Later none w (w.withStore (w.store.newObject c).2) := later_objects rfl rfl
  have hstore : StoreLinked ρ (w.withStore (w.store.newObject c).2) (m.store.newObject c').2 := by
    refine hs.of_frames hlater rfl rfl rfl hs.stamps ?_ ?_
    · change (m.store.objects.push _).size = (w.store.objects.push _).size
      rw [Array.size_push, Array.size_push, hs.objectsSize]
    · intro o ob ob' ho ho'
      change (w.store.objects.push _)[o]? = _ at ho
      change (m.store.objects.push _)[o]? = _ at ho'
      rw [Array.getElem?_push] at ho ho'
      rw [hs.objectsSize] at ho'
      split at ho
      · rename_i heq
        rw [if_pos heq] at ho'
        cases ho
        cases ho'
        exact ⟨hc.later hlater, .nil⟩
      · rename_i hne
        rw [if_neg hne] at ho'
        exact (hs.objects o ob ob' ho ho').later hlater
  exact ⟨⟨{ h.linked with store := hstore }, h.calm⟩, hlater, rfl, rfl, rfl, rfl, fun _ h => h⟩

/-- A field is set, on both sides. -/
theorem Reached.setField (h : Settled ρ w m) (o : ObjectId) (name : String) {v v' : Value}
    (hv : ValueLinked ρ w v v') :
    Reached ρ none w (w.withStore (w.store.setField o name v))
      { m with store := m.store.setField o name v' } := by
  have hs := h.linked.store
  have hlater : Later none w (w.withStore (w.store.setField o name v)) := later_objects rfl rfl
  have hstore : StoreLinked ρ (w.withStore (w.store.setField o name v))
      (m.store.setField o name v') := by
    refine hs.of_frames hlater rfl rfl rfl hs.stamps ?_ ?_
    · change (m.store.objects.modify _ _).size = (w.store.objects.modify _ _).size
      rw [Array.size_modify, Array.size_modify, hs.objectsSize]
    · intro p ob ob' hp hp'
      change (w.store.objects.modify _ _)[p]? = _ at hp
      change (m.store.objects.modify _ _)[p]? = _ at hp'
      rw [Array.getElem?_modify] at hp hp'
      split at hp
      · rename_i heq
        rw [if_pos heq] at hp'
        obtain ⟨ob, hob, rfl⟩ := Option.map_eq_some_iff.mp hp
        obtain ⟨ob', hob', rfl⟩ := Option.map_eq_some_iff.mp hp'
        have hlinked := hs.objects p ob ob' hob hob'
        exact {
          ofClass := hlinked.ofClass.later hlater
          fields := (hlinked.fields.insert (fun _ _ h => h) hv).mono fun _ _ h => h.later hlater }
      · rename_i hne
        rw [if_neg hne] at hp'
        exact (hs.objects p ob ob' hp hp').later hlater
  exact ⟨⟨{ h.linked with store := hstore }, h.calm⟩, hlater, rfl, rfl, rfl, rfl, fun _ h => h⟩

end LoxLang
