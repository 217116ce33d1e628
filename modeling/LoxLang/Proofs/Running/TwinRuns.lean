import LoxLang.Proofs.Running.Relations
import LoxLang.Proofs.Running.TwinStores

/-!
# Running with and without the frames of blocks

* `Twins.ErrorTwin`: failures that are the same, or of two references that lead to no variable;
* `Twins.Runs`: two runs end alike, on machines that are sound again;
* `Runs.bind`, `Runs.inNewPair`, `Runs.inNewExtra`, `Runs.ifRoom`: what runs are put together from;
* `lookUp_runs`, `assign_runs`, `define_runs` and the like: single steps.
-/

namespace LoxLang

theorem Layers.eq_zero_of_lift {layers : Layers} {d : Nat} (h : layers.lift d = 0) : d = 0 := by
  cases layers with
  | nil => exact h
  | cons layer outer =>
    cases layer with
    | shared =>
      cases d with
      | zero => rfl
      | succ d => cases h
    | extra => cases h

namespace Twins

/-- Failures are the same, but for references that lead to no variable where the distance with the
blocks is not zero. -/
inductive ErrorTwin : RuntimeError → RuntimeError → Prop
  | same {e : RuntimeError} : ErrorTwin e e
  | afar {a b : String} {d d' : Nat} : d ≠ 0 → ErrorTwin (.unresolved a d) (.unresolved b d')

/-- A variable that is not there is one of the same name, at distances that belong together. -/
theorem ErrorTwin.unresolved (layers : Layers) (d : Nat) (name : String) :
    ErrorTwin (.unresolved name (layers.lift d)) (.unresolved name d) := by
  by_cases h : layers.lift d = 0
  · rw [h, Layers.eq_zero_of_lift h]
    exact .same
  · exact .afar h

/-- Results of two steps that are alike. -/
inductive ResultTwin {α β : Type} (R : α → β → Prop) :
    Except RuntimeError α → Except RuntimeError β → Prop
  | ok {a : α} {b : β} : R a b → ResultTwin R (.ok a) (.ok b)
  | error {e e' : RuntimeError} : ErrorTwin e e' → ResultTwin R (.error e) (.error e')

inductive CompletionTwin (chosen : Choice) (w : Twins) : Completion → Completion → Prop
  | normal : CompletionTwin chosen w .normal .normal
  | breaking : CompletionTwin chosen w .breaking .breaking
  | returning {v v' : Value} :
      ValueTwin chosen w v v' → CompletionTwin chosen w (.returning v) (.returning v')

section
variable (chosen : Choice)

/-- How two runs end alike. -/
inductive EndsAlike {α β : Type} (w : Twins) (R : Twins → α → β → Prop) :
    Outcome RuntimeError Machine α → Outcome RuntimeError Machine β → Prop
  | ok {w' : Twins} {a : α} {b : β} :
      Reached chosen w w' → R w' a b → EndsAlike w R (.ok a w'.left) (.ok b w'.right)
  | error {w' : Twins} {e e' : RuntimeError} :
      Reached chosen w w' → ErrorTwin e e' → EndsAlike w R (.error e w'.left) (.error e' w'.right)
  | outOfFuel : EndsAlike w R .outOfFuel .outOfFuel

/-- A run on the left and a run on the right end alike. -/
def Runs {α β : Type} (w : Twins) (R : Twins → α → β → Prop) (x : Run α) (y : Run β) : Prop :=
  EndsAlike chosen w R (x w.left) (y w.right)

end

variable {chosen : Choice} {α β γ δ : Type} {w w' v : Twins} {R S : Twins → α → β → Prop}
  {layers : Layers} {f g e e' : FrameId}

/-! ## What runs are put together from -/

/-- Ending alike, seen from before. -/
theorem EndsAlike.earlier {x : Outcome RuntimeError Machine α} {y : Outcome RuntimeError Machine β}
    (h : EndsAlike chosen w' R x y) (hw : Reached chosen w w') : EndsAlike chosen w R x y := by
  cases h with
  | ok hreached hR => exact .ok (hw.trans hreached) hR
  | error hreached he => exact .error (hw.trans hreached) he
  | outOfFuel => exact .outOfFuel

theorem EndsAlike.bind {x : Run α} {y : Run β} {m m' : Machine} {k : α → Run γ} {l : β → Run δ}
    {S : Twins → γ → δ → Prop} (h : EndsAlike chosen w R (x m) (y m'))
    (hkl : ∀ w' a b, Reached chosen w w' → R w' a b → Runs chosen w' S (k a) (l b)) :
    EndsAlike chosen w S ((x >>= k) m) ((y >>= l) m') := by
  generalize hx : x m = out at h
  generalize hy : y m' = out' at h
  cases h with
  | ok hreached hR =>
    rw [Action.bind_of_ok hx, Action.bind_of_ok hy]
    exact (hkl _ _ _ hreached hR).earlier hreached
  | error hreached he =>
    rw [Action.bind_of_error hx, Action.bind_of_error hy]
    exact .error hreached he
  | outOfFuel =>
    rw [Action.bind_of_outOfFuel hx, Action.bind_of_outOfFuel hy]
    exact .outOfFuel

namespace Runs

variable {x : Run α} {y : Run β}

/-- Two runs in a row. -/
theorem bind {k : α → Run γ} {l : β → Run δ} {S : Twins → γ → δ → Prop} (h : Runs chosen w R x y)
    (hkl : ∀ w' a b, Reached chosen w w' → R w' a b → Runs chosen w' S (k a) (l b)) :
    Runs chosen w S (x >>= k) (y >>= l) := EndsAlike.bind h hkl

theorem ok {a : α} {b : β} (hx : x w.left = .ok a w'.left) (hy : y w.right = .ok b w'.right)
    (hreached : Reached chosen w w') (hR : R w' a b) : Runs chosen w R x y := by
  unfold Runs
  rw [hx, hy]
  exact .ok hreached hR

theorem pure {a : α} {b : β} (h : Sound chosen w) (hR : R w a b) :
    Runs chosen w R (Pure.pure a) (Pure.pure b) := ok rfl rfl (.refl h) hR

theorem error {e e' : RuntimeError} (h : Sound chosen w) (he : ErrorTwin e e')
    (hx : x w.left = .error e w.left) (hy : y w.right = .error e' w.right) :
    Runs chosen w R x y := by
  unfold Runs
  rw [hx, hy]
  exact .error (.refl h) he

theorem fail {e : RuntimeError} (h : Sound chosen w) :
    Runs chosen w R (Action.fail e) (Action.fail e) := error h .same rfl rfl

theorem ofExcept {r : Except RuntimeError α} {r' : Except RuntimeError β} (h : Sound chosen w)
    (hr : ResultTwin (R w) r r') : Runs chosen w R (Action.ofExcept r) (Action.ofExcept r') := by
  cases hr with
  | ok hR => exact ok rfl rfl (.refl h) hR
  | error he => exact error h he rfl rfl

/-- A look at both machines. -/
theorem get {k : Machine → Run α} {l : Machine → Run β}
    (h : Runs chosen w R (k w.left) (l w.right)) :
    Runs chosen w R (Action.get >>= k) (Action.get >>= l) := h

/-- A look at the machine on the left only. -/
theorem look {k : Machine → Run α} (h : Runs chosen w R (k w.left) y) :
    Runs chosen w R (Action.get >>= k) y := h

/-- A step on both sides, and what comes after it. -/
theorem after {x' : Run γ} {y' : Run δ} {k : γ → Run α} {l : δ → Run β} {a : γ} {b : δ}
    (hx : x' w.left = .ok a w'.left) (hy : y' w.right = .ok b w'.right)
    (hreached : Reached chosen w w') (h : Runs chosen w' R (k a) (l b)) :
    Runs chosen w R (x' >>= k) (y' >>= l) := by
  unfold Runs
  rw [Action.bind_of_ok hx, Action.bind_of_ok hy]
  exact EndsAlike.earlier h hreached

end Runs

/-! ## Other machines with the same stores -/

/-- Two machines in place of the ones at hand. -/
def on (w : Twins) (m m' : Machine) : Twins := { w with left := m, right := m' }

section
variable {m m' : Machine}

theorem later_on (hstore : m.store = w.left.store) (hstore' : m'.store = w.right.store) :
    Later w (w.on m m') where
  pairs _ _ h := h
  left _ _ h := by rwa [on, hstore]
  right _ _ h := by rwa [on, hstore']
  nodes _ _ h := h

/-- Nothing happens to the stores, and no twins are lost. -/
theorem Stores.unchanged (h : Stores chosen w) (hlater : Later w w')
    (hpairs : w'.pairs = w.pairs) (hleft : w'.left.store = w.left.store)
    (hright : w'.right.store = w.right.store) : Stores chosen w' := by
  obtain ⟨⟨_, _, _, _, _, _, _, _⟩, ⟨_, _, _, _, _, _, _, _⟩, _, _⟩ := w'
  cases hpairs
  cases hleft
  cases hright
  exact { h with
    bindings := fun f g hfg => (h.bindings f g hfg).mono fun _ _ h => h.later hlater
    objects := fun o ob ob' ho ho' => (h.objects o ob ob' ho ho').later hlater }

theorem Stores.on (h : Stores chosen w) (hstore : m.store = w.left.store)
    (hstore' : m'.store = w.right.store) : Stores chosen (w.on m m') :=
  h.unchanged (later_on hstore hstore') rfl hstore hstore'

theorem Reached.on (h : Sound chosen (w.on m m')) (hstore : m.store = w.left.store)
    (hstore' : m'.store = w.right.store) (hframe : m.frame = w.left.frame)
    (hframe' : m'.frame = w.right.frame) (hdistances : m.distances = w.left.distances)
    (hdistances' : m'.distances = w.right.distances) : Reached chosen w (w.on m m') :=
  ⟨h, later_on hstore hstore', hframe, hframe', hdistances, hdistances', rfl⟩

end

/-- The machines in other frames. -/
def inFrames (w : Twins) (f g : FrameId) : Twins :=
  w.on { w.left with frame := f } { w.right with frame := g }

theorem later_inFrames (f g : FrameId) : Later w (w.inFrames f g) := later_on rfl rfl

theorem Sound.inFrames (h : Sound chosen w) (f g : FrameId) : Sound chosen (w.inFrames f g) :=
  { h with stores := h.stores.on rfl rfl }

/-- The machines with so many calls in progress. -/
def withDepth (w : Twins) (depth : Nat) : Twins :=
  w.on { w.left with depth } { w.right with depth }

theorem Reached.withDepth (h : Sound chosen w) (depth : Nat) :
    Reached chosen w (w.withDepth depth) :=
  .on { h with stores := h.stores.on rfl rfl, depth := rfl } rfl rfl rfl rfl rfl rfl

/-! ## Running in other frames -/

/-- What are twins are so on later machines. -/
def Lasting (R : Twins → α → β → Prop) : Prop :=
  ∀ w w' a b, Later w w' → R w a b → R w' a b

theorem ValueTwin.lasting : Lasting (ValueTwin chosen) := fun _ _ _ _ hl h => h.later hl

theorem CompletionTwin.lasting : Lasting (CompletionTwin chosen) := by
  intro w w' c c' hl h
  cases h with
  | normal => exact .normal
  | breaking => exact .breaking
  | returning hv => exact .returning (hv.later hl)

/-- Back in the frames of two earlier machines. -/
theorem EndsAlike.back {x : Outcome RuntimeError Machine α} {y : Outcome RuntimeError Machine β}
    (hR : Lasting R) (hw : Reached chosen w v) (h : EndsAlike chosen (v.inFrames f g) R x y) :
    EndsAlike chosen w R (x.mapState fun m => { m with frame := v.left.frame })
      (y.mapState fun m => { m with frame := v.right.frame }) := by
  have back : ∀ {u : Twins}, Reached chosen (v.inFrames f g) u →
      Reached chosen w (u.inFrames v.left.frame v.right.frame) := fun {u} hreached => {
    sound := hreached.sound.inFrames _ _
    later := ((hw.later.trans (later_inFrames f g)).trans hreached.later).trans
      (later_inFrames _ _)
    frame := hw.frame
    frame' := hw.frame'
    distances := hreached.distances.trans hw.distances
    distances' := hreached.distances'.trans hw.distances'
    nodes := hreached.nodes.trans hw.nodes }
  cases h with
  | ok hreached hab => exact .ok (back hreached) (hR _ _ _ _ (later_inFrames _ _) hab)
  | error hreached he => exact .error (back hreached) he
  | outOfFuel => exact .outOfFuel

/-- The run on the right ends in the frame in which it began. -/
theorem EndsAlike.frame_right {x : Outcome RuntimeError Machine α}
    {y : Outcome RuntimeError Machine β} (h : EndsAlike chosen w R x y) :
    y.mapState (fun m => { m with frame := w.right.frame }) = y := by
  cases h with
  | ok hreached _ => simp only [Outcome.mapState, ← hreached.frame']
  | error hreached _ => simp only [Outcome.mapState, ← hreached.frame']
  | outOfFuel => rfl

section
variable {x : Run α} {y : Run β} {b b' : Bindings Value}

/-- New twins, and a run in them. -/
theorem Runs.inNewPair (e e' : FrameId) (h : Sound chosen w) (hR : Lasting R)
    (hb : BindingsTwin chosen w b b')
    (hxy : Sound chosen ((w.withPair e e' b b').inFrames w.left.store.frames.size
        w.right.store.frames.size) →
      Runs chosen ((w.withPair e e' b b').inFrames w.left.store.frames.size
        w.right.store.frames.size) R x y) :
    Runs chosen w R (do Run.inFrame (← Run.make (·.newFrame (some e) b)) x)
      (do Run.inFrame (← Run.make (·.newFrame (some e') b')) y) := by
  have hnew : Reached chosen w (w.withPair e e' b b') := .newPair h hb
  change EndsAlike chosen w R (Run.inFrame w.left.store.frames.size x (w.withPair e e' b b').left)
    (Run.inFrame w.right.store.frames.size y (w.withPair e e' b b').right)
  rw [Run.inFrame_apply, Run.inFrame_apply]
  exact (hxy (hnew.sound.inFrames _ _)).back hR hnew

/-- A new frame on the left, and a run in it that takes place in the current frame on the right. -/
theorem Runs.inNewExtra (h : Sound chosen w) (hR : Lasting R)
    (hxy : Sound chosen ((w.withExtra e).inFrames w.left.store.frames.size w.right.frame) →
      Runs chosen ((w.withExtra e).inFrames w.left.store.frames.size w.right.frame) R x y) :
    Runs chosen w R (do Run.inFrame (← Run.make (·.newFrame (some e) [])) x) y := by
  have hnew : Reached chosen w (w.withExtra e) := .newExtra h
  have hruns := hxy (hnew.sound.inFrames _ _)
  have hback := hruns.back hR hnew
  rw [show (w.withExtra e).right.frame
    = ((w.withExtra e).inFrames w.left.store.frames.size w.right.frame).right.frame from rfl,
    hruns.frame_right] at hback
  change EndsAlike chosen w R (Run.inFrame w.left.store.frames.size x (w.withExtra e).left)
    (y w.right)
  rw [Run.inFrame_apply]
  exact hback

/-- One more call in progress, if there is room for it. -/
theorem Runs.ifRoom (h : Sound chosen w) (line : Nat)
    (hR : Lasting R) (hxy : ∀ v, Reached chosen w v → Runs chosen v R x y) :
    Runs chosen w R (Run.ifRoom line x) (Run.ifRoom line y) := by
  have hdeeper : Reached chosen w (w.withDepth (w.left.depth + 1)) := .withDepth h _
  have hruns := hxy _ hdeeper
  have hright : (w.withDepth (w.left.depth + 1)).right
      = { w.right with depth := w.right.depth + 1 } := by rw [h.depth]; rfl
  have hleft : (w.withDepth (w.left.depth + 1)).left
      = { w.left with depth := w.left.depth + 1 } := rfl
  unfold Runs at hruns ⊢
  rw [hleft, hright] at hruns
  unfold Run.ifRoom
  by_cases hfull : w.left.maxDepth ≤ w.left.depth
  · have hfull' : w.right.maxDepth ≤ w.right.depth := by rwa [h.maxDepth, h.depth]
    rw [if_pos hfull, if_pos hfull']
    exact .error (.refl h) .same
  · have hfull' : ¬w.right.maxDepth ≤ w.right.depth := by rwa [h.maxDepth, h.depth]
    rw [if_neg hfull, if_neg hfull', Run.oneDeeper_apply, Run.oneDeeper_apply]
    have back : ∀ {u : Twins}, Reached chosen (w.withDepth (w.left.depth + 1)) u →
        Reached chosen w (u.withDepth (u.left.depth - 1)) ∧
          { u.right with depth := u.right.depth - 1 }
            = (u.withDepth (u.left.depth - 1)).right := fun {u} hreached =>
      ⟨(hdeeper.trans hreached).trans (.withDepth hreached.sound _),
        by rw [hreached.sound.depth]; rfl⟩
    generalize x { w.left with depth := w.left.depth + 1 } = out at hruns
    generalize y { w.right with depth := w.right.depth + 1 } = out' at hruns
    cases hruns with
    | ok hreached hab =>
      obtain ⟨hback, hsame⟩ := back hreached
      simp only [Outcome.mapState, hsame]
      exact .ok hback (hR _ _ _ _ (later_on rfl rfl) hab)
    | error hreached he =>
      obtain ⟨hback, hsame⟩ := back hreached
      simp only [Outcome.mapState, hsame]
      exact .error hback he
    | outOfFuel => exact .outOfFuel

end

/-! ## Single steps -/

section
variable {id : NodeId} {u u' : Value}

theorem IsOrdinary.twin {r : Except RuntimeError Value} (h : IsOrdinary r) :
    ResultTwin (ValueTwin chosen w) r r := by
  obtain ⟨v, rfl, hv⟩ | ⟨e, rfl, -⟩ := h
  · exact .ok (.plain hv)
  · exact .error .same

/-- A reference finds twins. -/
theorem found_twin (h : Sound chosen w) (hhere : w.Here layers) (hid : w.nodes id layers)
    (name : String) (line : Nat) :
    ResultTwin (ValueTwin chosen w)
      (Run.found id name line w.left.distances w.left.frame w.left.store)
      (Run.found id name line w.right.distances w.right.frame w.right.store) := by
  have hs := h.stores
  unfold Run.found
  rw [h.distances id layers hid]
  cases w.right.distances.of? id with
  | none =>
    dsimp only [Option.map_none]
    rw [Store.get_outermost hs.outermost, Store.get_outermost hs.outermost']
    obtain ⟨hv, hv'⟩ | ⟨v, v', hv, hv', htwin⟩ := hs.local? hs.global name
    · rw [hv, hv']
      exact .error .same
    · rw [hv, hv']
      exact .ok htwin
  | some d =>
    dsimp only [Option.map_some]
    obtain ⟨t, t', ht, ht', hpair⟩ | ⟨i, i', hi, hi', hd⟩ := Meets.climb hhere hs d
    · rw [getAt_of_climb ht, getAt_of_climb ht']
      obtain ⟨hv, hv'⟩ | ⟨v, v', hv, hv', htwin⟩ := hs.local? hpair name
      · rw [hv, hv']
        exact .error (.unresolved layers d name)
      · rw [hv, hv']
        exact .ok htwin
    · simp only [Store.getAt, Store.ancestor, hi, hi']
      exact .error (.afar hd)

theorem lookUp_runs (h : Sound chosen w) (hhere : w.Here layers) (hid : w.nodes id layers)
    (name : String) (line : Nat) :
    Runs chosen w (ValueTwin chosen) (Run.lookUp id name line) (Run.lookUp id name line) := by
  have hfound := found_twin h hhere hid name line
  rw [Run.lookUp_eq]
  unfold Runs Run.onStore
  dsimp only
  generalize Run.found id name line w.left.distances w.left.frame w.left.store = r at hfound ⊢
  generalize Run.found id name line w.right.distances w.right.frame w.right.store = r' at hfound ⊢
  cases hfound with
  | ok htwin => exact .ok (.refl h) htwin
  | error he => exact .error (.refl h) he

/-- An assignment takes place in twins. -/
theorem target_twin (h : Sound chosen w) (hhere : w.Here layers) (hid : w.nodes id layers)
    (name : Identifier) :
    ResultTwin w.pairs (Run.target id name w.left.distances w.left.frame w.left.store)
      (Run.target id name w.right.distances w.right.frame w.right.store) := by
  have hs := h.stores
  unfold Run.target
  rw [h.distances id layers hid]
  cases w.right.distances.of? id with
  | none =>
    dsimp only [Option.map_none]
    rw [Store.assignee_outermost hs.outermost, Store.assignee_outermost hs.outermost',
      hs.binds hs.global]
    split
    · exact .ok hs.global
    · exact .error .same
  | some d =>
    dsimp only [Option.map_some]
    obtain ⟨t, t', ht, ht', hpair⟩ | ⟨i, i', hi, hi', hd⟩ := Meets.climb hhere hs d
    · rw [assigneeAt_of_climb ht, assigneeAt_of_climb ht', hs.binds hpair]
      split
      · exact .ok hpair
      · exact .error (.unresolved layers d name.name)
    · simp only [Store.assigneeAt, Store.ancestor, hi, hi']
      exact .error (.afar hd)

theorem assign_runs (h : Sound chosen w) (hhere : w.Here layers) (hid : w.nodes id layers)
    (name : Identifier) (hu : ValueTwin chosen w u u') :
    Runs chosen w (fun _ _ _ => True) (Run.assign id name u) (Run.assign id name u') := by
  have htarget := target_twin h hhere hid name
  rw [Run.assign_eq, Run.assign_eq]
  unfold Runs Run.onStore
  dsimp only
  generalize Run.target id name w.left.distances w.left.frame w.left.store = r at htarget ⊢
  generalize Run.target id name w.right.distances w.right.frame w.right.store = r' at htarget ⊢
  cases htarget with
  | ok hpair => exact .ok (.define h hpair hu) trivial
  | error he => exact .error (.refl h) he

/-- A name is bound in the current frames, which are twins. -/
theorem define_runs (h : Sound chosen w) (hhere : w.pairs w.left.frame w.right.frame)
    (name : String) (hu : ValueTwin chosen w u u') :
    Runs chosen w (fun _ _ _ => True) (Run.define name u) (Run.define name u') :=
  .ok (a := ()) (b := ()) rfl rfl (.define h hhere hu) trivial

theorem setField_runs (h : Sound chosen w) (o : ObjectId) (name : String)
    (hu : ValueTwin chosen w u u') :
    Runs chosen w (fun _ _ _ => True) (Run.modifyStore (·.setField o name u))
      (Run.modifyStore (·.setField o name u')) :=
  .ok (a := ()) (b := ()) rfl rfl (.setField h o name hu) trivial

theorem write_runs (h : Sound chosen w) (text : String) :
    Runs chosen w (fun _ _ _ => True) (Run.write text) (Run.write text) := by
  unfold Runs Run.write
  rw [h.output]
  split
  · exact .ok (.refl h) trivial
  · cases w.left.output.refusal? w.left.output.written with
    | some reason => exact .error (.refl h) .same
    | none =>
      let output := { w.left.output with written := w.left.output.written ++ text }
      have hreached : Reached chosen w (w.on { w.left with output } { w.right with output }) :=
        .on { h with stores := h.stores.on rfl rfl, output := rfl } rfl rfl rfl rfl rfl rfl
      exact .ok hreached trivial

theorem printLine_runs (h : Sound chosen w) (hu : ValueTwin chosen w u u') :
    Runs chosen w (fun _ _ _ => True) (Run.printLine u) (Run.printLine u') := by
  unfold Run.printLine
  refine .get ?_
  rw [hu.resembles.display h.stores.className]
  exact (write_runs h _).bind fun w' _ _ hreached _ => write_runs hreached.sound _

theorem flush_runs (h : Sound chosen w) :
    Runs chosen w (fun _ _ _ => True) Run.flush Run.flush := by
  unfold Runs Run.flush
  rw [h.output]
  cases w.left.output.flushRefusal? with
  | some reason => exact .error (.refl h) .same
  | none => exact .ok (.refl h) trivial

/-- Both sides get the same reading of the clock. -/
theorem callClock_runs (h : Sound chosen w) (arguments arguments' : List Value) :
    Runs chosen w (ValueTwin chosen) (Running.callNative .clock arguments)
      (Running.callNative .clock arguments') := by
  have hclock : w.right.host.clock w.right.readings = w.left.host.clock w.left.readings := by
    rw [h.host, h.readings]
  unfold Runs Running.callNative
  rw [if_pos rfl, if_pos rfl, hclock, h.readings]
  let readings := w.left.readings + 1
  have hreached : Reached chosen w (w.on { w.left with readings } { w.right with readings }) :=
    .on { h with stores := h.stores.on rfl rfl, readings := rfl } rfl rfl rfl rfl rfl rfl
  exact .ok hreached (.plain (v := .number _) trivial)

end

end Twins

end LoxLang
