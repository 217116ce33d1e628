import LoxLang.Proofs.Running.Twins

/-!
# What is done to both stores

After a new binding in twins, new frames, new objects, a field that is set or new stamps, two sound
machines are sound again, and what were twins are so still.

* `Twins.withStores`: two machines with other stores;
* `Twins.Reached`: sound machines after some running, in the same frames;
* `Reached.define`, `Reached.newPair`, `Reached.newExtra` and the like: one lemma for each change.
-/

namespace LoxLang.Twins

section
variable (chosen : Choice)

/-- Sound machines after some running, in the same frames. -/
structure Reached (w w' : Twins) : Prop where
  sound : Sound chosen w'
  later : Later w w'
  frame : w'.left.frame = w.left.frame
  frame' : w'.right.frame = w.right.frame
  distances : w'.left.distances = w.left.distances
  distances' : w'.right.distances = w.right.distances
  nodes : w'.nodes = w.nodes

end

/-- The machines with other stores, in which other frames are twins. -/
def withStores (w : Twins) (pairs : FrameId → FrameId → Prop) (s s' : Store) : Twins :=
  { w with pairs, left := { w.left with store := s }, right := { w.right with store := s' } }

variable {chosen : Choice} {w w' w'' : Twins} {layers : Layers} {v v' : Value}
  {f g e e' : FrameId} {name : String} {pairs : FrameId → FrameId → Prop} {s s' : Store}

theorem Reached.refl (h : Sound chosen w) : Reached chosen w w :=
  ⟨h, .refl w, rfl, rfl, rfl, rfl, rfl⟩

theorem Reached.trans (h : Reached chosen w w') (h' : Reached chosen w' w'') :
    Reached chosen w w'' where
  sound := h'.sound
  later := h.later.trans h'.later
  frame := h'.frame.trans h.frame
  frame' := h'.frame'.trans h.frame'
  distances := h'.distances.trans h.distances
  distances' := h'.distances'.trans h.distances'
  nodes := h'.nodes.trans h.nodes

theorem Reached.withStores (h : Sound chosen w) (hstores : Stores chosen (w.withStores pairs s s'))
    (hlater : Later w (w.withStores pairs s s')) : Reached chosen w (w.withStores pairs s s') where
  sound := { h with stores := hstores }
  later := hlater
  frame := rfl
  frame' := rfl
  distances := rfl
  distances' := rfl
  nodes := rfl

theorem Here.reached (h : w.Here layers) (hw : Reached chosen w w') : w'.Here layers := by
  unfold Here
  rw [hw.frame, hw.frame']
  exact Meets.later h hw.later

/-! ## A new binding -/

theorem later_define {g : FrameId} : Later w (w.withStores w.pairs (w.left.store.define f name v)
    (w.right.store.define g name v')) where
  pairs _ _ h := h
  left _ _ h := Store.enclosing_define.trans h
  right _ _ h := Store.enclosing_define.trans h
  nodes _ _ h := h

/-- A name is bound in twins. -/
theorem Reached.define (h : Sound chosen w) (hpair : w.pairs f g)
    (hv : ValueTwin chosen w v v') :
    Reached chosen w (w.withStores w.pairs (w.left.store.define f name v)
      (w.right.store.define g name v')) := by
  have hs := h.stores
  have hlater : Later w (w.withStores w.pairs (w.left.store.define f name v)
      (w.right.store.define g name v')) := later_define
  refine .withStores h ?_ hlater
  exact {
    bounds := fun f' g' h' => by
      simpa only [Twins.withStores, Store.define_size] using hs.bounds f' g' h'
    functional := hs.functional
    injective := hs.injective
    onto := fun g' hg' => hs.onto g' (by simpa only [Twins.withStores, Store.define_size] using hg')
    spare := fun f' hf' => by
      have hne : f' ≠ f := fun heq => hf' g (heq ▸ hpair)
      exact (congrArg Frame.bindings (Store.frame_define_of_ne hne)).trans (hs.spare f' hf')
    bindings := fun f' g' h' => by
      change BindingsTwin chosen _ ((w.left.store.define f name v).frame f').bindings
        ((w.right.store.define g name v').frame g').bindings
      have hold := (hs.bindings f' g' h').mono fun _ _ h => h.later hlater
      by_cases hf : f' = f
      · subst hf
        obtain rfl := hs.functional _ _ _ hpair h'
        obtain ⟨hbound, hbound'⟩ := hs.bounds _ _ h'
        rw [Store.frame_define_self hbound, Store.frame_define_self hbound']
        exact hold.insert (fun _ _ h => h) (hv.later hlater)
      · have hg : g' ≠ g := fun heq => hf (hs.injective _ _ _ h' (heq ▸ hpair))
        rw [Store.frame_define_of_ne hf, Store.frame_define_of_ne hg]
        exact hold
    global := hs.global
    outermost := Store.enclosing_define.trans hs.outermost
    outermost' := Store.enclosing_define.trans hs.outermost'
    objectsSize := hs.objectsSize
    objects := fun o ob ob' ho ho' => (hs.objects o ob ob' ho ho').later hlater
    stamps := hs.stamps }

/-! ## New frames -/

/-- The frames that come next are twins. -/
def nextPair (w : Twins) (f g : FrameId) : Prop :=
  w.pairs f g ∨ f = w.left.store.frames.size ∧ g = w.right.store.frames.size

/-- A new frame on both sides. -/
def withPair (w : Twins) (e e' : FrameId) (b b' : Bindings Value) : Twins :=
  w.withStores w.nextPair (w.left.store.newFrame (some e) b).2
    (w.right.store.newFrame (some e') b').2

/-- A new frame on the left, where nothing is bound. -/
def withExtra (w : Twins) (e : FrameId) : Twins :=
  w.withStores w.pairs (w.left.store.newFrame (some e) []).2 w.right.store

section
variable {b b' : Bindings Value}

theorem later_withPair : Later w (w.withPair e e' b b') where
  pairs _ _ h := .inl h
  left _ _ h := Store.enclosing?_newFrame_of_some h
  right _ _ h := Store.enclosing?_newFrame_of_some h
  nodes _ _ h := h

theorem later_withExtra : Later w (w.withExtra e) where
  pairs _ _ h := h
  left _ _ h := Store.enclosing?_newFrame_of_some h
  right _ _ h := h
  nodes _ _ h := h

theorem Stores.ne_new (h : Stores chosen w) (hpair : w.pairs f g) :
    f ≠ w.left.store.frames.size ∧ g ≠ w.right.store.frames.size :=
  ⟨Nat.ne_of_lt (h.bounds f g hpair).1, Nat.ne_of_lt (h.bounds f g hpair).2⟩

/-- The frame of the global variables stays the outermost one. -/
theorem Stores.outermost_newFrame (h : Stores chosen w) :
    (w.left.store.newFrame (some e) b).2.enclosing? globals = none :=
  (congrArg Frame.enclosing (Store.frame_newFrame_of_ne (h.ne_new h.global).1)).trans h.outermost

theorem Stores.outermost_newFrame' (h : Stores chosen w) :
    (w.right.store.newFrame (some e) b).2.enclosing? globals = none :=
  (congrArg Frame.enclosing (Store.frame_newFrame_of_ne (h.ne_new h.global).2)).trans h.outermost'

/-- A frame without a twin still binds nothing when there is one more frame. -/
theorem Stores.spare_newFrame (h : Stores chosen w) (hnew : f = w.left.store.frames.size → b = [])
    (hf : ∀ g, ¬w.pairs f g) :
    ((w.left.store.newFrame (some e) b).2.frame f).bindings = [] := by
  rw [Store.frame_newFrame]
  split
  · exact hnew ‹_›
  · exact h.spare f hf

/-- A new frame on both sides. -/
theorem Reached.newPair (h : Sound chosen w) (hb : BindingsTwin chosen w b b') :
    Reached chosen w (w.withPair e e' b b') := by
  have hs := h.stores
  have hlater : Later w (w.withPair e e' b b') := later_withPair
  refine .withStores h ?_ hlater
  exact {
    bounds := fun f g hfg => by
      simp only [Twins.withStores, Store.newFrame_size]
      obtain hold | ⟨rfl, rfl⟩ := hfg
      · obtain ⟨hbound, hbound'⟩ := hs.bounds f g hold
        exact ⟨Nat.lt_succ_of_lt hbound, Nat.lt_succ_of_lt hbound'⟩
      · exact ⟨Nat.lt_succ_self _, Nat.lt_succ_self _⟩
    functional := fun f g g' hg hg' => by
      obtain hg | ⟨rfl, rfl⟩ := hg
      · obtain hg' | ⟨rfl, -⟩ := hg'
        · exact hs.functional f g g' hg hg'
        · exact absurd rfl (hs.ne_new hg).1
      · obtain hg' | ⟨-, rfl⟩ := hg'
        · exact absurd rfl (hs.ne_new hg').1
        · rfl
    injective := fun f f' g hf hf' => by
      obtain hf | ⟨rfl, rfl⟩ := hf
      · obtain hf' | ⟨-, rfl⟩ := hf'
        · exact hs.injective f f' g hf hf'
        · exact absurd rfl (hs.ne_new hf).2
      · obtain hf' | ⟨rfl, -⟩ := hf'
        · exact absurd rfl (hs.ne_new hf').2
        · rfl
    onto := fun g hg => by
      simp only [Twins.withStores, Store.newFrame_size] at hg
      obtain hold | rfl := Nat.lt_succ_iff_lt_or_eq.mp hg
      · obtain ⟨f, hf⟩ := hs.onto g hold
        exact ⟨f, .inl hf⟩
      · exact ⟨_, .inr ⟨rfl, rfl⟩⟩
    spare := fun f hf =>
      hs.spare_newFrame (fun heq => absurd (.inr ⟨heq, rfl⟩) (hf _)) fun g hg => hf g (.inl hg)
    bindings := fun f g hfg => by
      change BindingsTwin chosen _ ((w.left.store.newFrame (some e) b).2.frame f).bindings
        ((w.right.store.newFrame (some e') b').2.frame g).bindings
      obtain hold | ⟨rfl, rfl⟩ := hfg
      · obtain ⟨hne, hne'⟩ := hs.ne_new hold
        rw [Store.frame_newFrame_of_ne hne, Store.frame_newFrame_of_ne hne']
        exact (hs.bindings f g hold).mono fun _ _ h => h.later hlater
      · rw [Store.frame_newFrame_new, Store.frame_newFrame_new]
        exact hb.mono fun _ _ h => h.later hlater
    global := .inl hs.global
    outermost := hs.outermost_newFrame
    outermost' := hs.outermost_newFrame'
    objectsSize := hs.objectsSize
    objects := fun o ob ob' ho ho' => (hs.objects o ob ob' ho ho').later hlater
    stamps := hs.stamps }

/-- A new frame on the left, where nothing is bound. -/
theorem Reached.newExtra (h : Sound chosen w) : Reached chosen w (w.withExtra e) := by
  have hs := h.stores
  have hlater : Later w (w.withExtra e) := later_withExtra
  refine .withStores h ?_ hlater
  exact {
    bounds := fun f g hfg => by
      simp only [Twins.withStores, Store.newFrame_size]
      exact ⟨Nat.lt_succ_of_lt (hs.bounds f g hfg).1, (hs.bounds f g hfg).2⟩
    functional := hs.functional
    injective := hs.injective
    onto := hs.onto
    spare := fun f hf => hs.spare_newFrame (fun _ => rfl) hf
    bindings := fun f g hfg => by
      change BindingsTwin chosen _ ((w.left.store.newFrame (some e) []).2.frame f).bindings
        (w.right.store.frame g).bindings
      rw [Store.frame_newFrame_of_ne (hs.ne_new hfg).1]
      exact (hs.bindings f g hfg).mono fun _ _ h => h.later hlater
    global := hs.global
    outermost := hs.outermost_newFrame
    outermost' := hs.outermost'
    objectsSize := hs.objectsSize
    objects := fun o ob ob' ho ho' => (hs.objects o ob ob' ho ho').later hlater
    stamps := hs.stamps }

/-- From new twins outwards there is one more scope. -/
theorem Meets.newPair (h : w.Meets layers e e') : (w.withPair e e' b b').Meets (.shared :: layers)
    w.left.store.frames.size w.right.store.frames.size :=
  .shared (.inr ⟨rfl, rfl⟩) (congrArg Frame.enclosing Store.frame_newFrame_new)
    (congrArg Frame.enclosing Store.frame_newFrame_new) (h.later later_withPair)

/-- From a new frame on the left outwards there is one more scope, which is extra. -/
theorem Meets.newExtra (h : w.Meets layers e g) :
    (w.withExtra e).Meets (.extra :: layers) w.left.store.frames.size g :=
  .extra (congrArg Frame.enclosing Store.frame_newFrame_new) (h.later later_withExtra)

end

/-! ## Stamps, objects and fields -/

/-- Nothing happens to the frames. -/
theorem later_frames (hframes : s.frames = w.left.store.frames)
    (hframes' : s'.frames = w.right.store.frames) : Later w (w.withStores w.pairs s s') where
  pairs _ _ h := h
  left f e h := by
    rw [← h]
    simp only [withStores, Store.enclosing?, Store.frame, hframes]
  right f e h := by
    rw [← h]
    simp only [withStores, Store.enclosing?, Store.frame, hframes']
  nodes _ _ h := h

theorem Reached.frames (h : Sound chosen w) (hframes : s.frames = w.left.store.frames)
    (hframes' : s'.frames = w.right.store.frames) (hstamps : s'.nextStamp = s.nextStamp)
    (hsize : s'.objects.size = s.objects.size)
    (hobjects : ∀ (o : ObjectId) (ob ob' : Object), s.objects[o]? = some ob →
      s'.objects[o]? = some ob' → ObjectTwin chosen (w.withStores w.pairs s s') ob ob') :
    Reached chosen w (w.withStores w.pairs s s') := by
  have hs := h.stores
  have hlater := later_frames hframes hframes'
  have hframe : ∀ f, s.frame f = w.left.store.frame f := fun f => by
    simp only [Store.frame, hframes]
  have hframe' : ∀ f, s'.frame f = w.right.store.frame f := fun f => by
    simp only [Store.frame, hframes']
  refine .withStores h ?_ hlater
  exact {
    bounds := fun f g hfg => by
      simpa only [Twins.withStores, hframes, hframes'] using hs.bounds f g hfg
    functional := hs.functional
    injective := hs.injective
    onto := fun g hg => hs.onto g (by simpa only [Twins.withStores, hframes'] using hg)
    spare := fun f hf => (congrArg Frame.bindings (hframe f)).trans (hs.spare f hf)
    bindings := fun f g hfg => by
      change BindingsTwin chosen _ (s.frame f).bindings (s'.frame g).bindings
      rw [hframe, hframe']
      exact (hs.bindings f g hfg).mono fun _ _ h => h.later hlater
    global := hs.global
    outermost := (congrArg Frame.enclosing (hframe _)).trans hs.outermost
    outermost' := (congrArg Frame.enclosing (hframe' _)).trans hs.outermost'
    objectsSize := hsize
    objects := hobjects
    stamps := hstamps }

/-- So many further stamps are given out. -/
def withStamps (w : Twins) (k : Nat) : Twins :=
  w.withStores w.pairs { w.left.store with nextStamp := w.left.store.nextStamp + k }
    { w.right.store with nextStamp := w.right.store.nextStamp + k }

theorem Reached.withStamps (h : Sound chosen w) (k : Nat) : Reached chosen w (w.withStamps k) :=
  .frames h rfl rfl (congrArg (· + k) h.stores.stamps) h.stores.objectsSize
    fun o ob ob' ho ho' => (h.stores.objects o ob ob' ho ho').later (later_frames rfl rfl)

/-- A further object. -/
theorem Reached.newObject (h : Sound chosen w) {c c' : Class} (hc : ClassTwin chosen w c c') :
    Reached chosen w
      (w.withStores w.pairs (w.left.store.newObject c).2 (w.right.store.newObject c').2) := by
  have hs := h.stores
  have hlater : Later w
      (w.withStores w.pairs (w.left.store.newObject c).2 (w.right.store.newObject c').2) :=
    later_frames rfl rfl
  refine .frames h rfl rfl hs.stamps ?_ fun o ob ob' ho ho' => ?_
  · change (w.right.store.objects.push _).size = (w.left.store.objects.push _).size
    rw [Array.size_push, Array.size_push, hs.objectsSize]
  · change (w.left.store.objects.push _)[o]? = _ at ho
    change (w.right.store.objects.push _)[o]? = _ at ho'
    rw [Array.getElem?_push] at ho ho'
    rw [hs.objectsSize] at ho'
    split at ho
    · rename_i heq
      rw [if_pos heq] at ho'
      cases ho
      cases ho'
      exact ⟨hc.later hlater, .nil⟩
    · rename_i hne
      rw [if_neg hne] at ho'
      exact (hs.objects o ob ob' ho ho').later hlater

/-- A field is set. -/
theorem Reached.setField (h : Sound chosen w) (o : ObjectId) (name : String)
    (hv : ValueTwin chosen w v v') :
    Reached chosen w (w.withStores w.pairs (w.left.store.setField o name v)
      (w.right.store.setField o name v')) := by
  have hs := h.stores
  have hlater : Later w (w.withStores w.pairs (w.left.store.setField o name v)
      (w.right.store.setField o name v')) := later_frames rfl rfl
  refine .frames h rfl rfl hs.stamps ?_ fun p ob ob' hp hp' => ?_
  · change (w.right.store.objects.modify _ _).size = (w.left.store.objects.modify _ _).size
    rw [Array.size_modify, Array.size_modify, hs.objectsSize]
  · change (w.left.store.objects.modify _ _)[p]? = _ at hp
    change (w.right.store.objects.modify _ _)[p]? = _ at hp'
    rw [Array.getElem?_modify] at hp hp'
    split at hp
    · rename_i heq
      rw [if_pos heq] at hp'
      obtain ⟨ob, hob, rfl⟩ := Option.map_eq_some_iff.mp hp
      obtain ⟨ob', hob', rfl⟩ := Option.map_eq_some_iff.mp hp'
      have htwin := hs.objects p ob ob' hob hob'
      exact {
        ofClass := htwin.ofClass.later hlater
        fields := (htwin.fields.insert (fun _ _ h => h) hv).mono fun _ _ h => h.later hlater }
    · rename_i hne
      rw [if_neg hne] at hp'
      exact (hs.objects p ob ob' hp hp').later hlater

end LoxLang.Twins
