import LoxLang.Proofs.Running.References
import LoxLang.Proofs.Running.Values

/-!
# New frames and further calls in lockstep

* `Runs.inNewFrame`, `Runs.oneDeeper`: running in a new frame, or as one more call in progress;
* `Here.ready`, `Here.inNewFrame`: the contexts behind a declaration and in a new scope;
* `define_runs`, `printLine_runs`, `flush_runs`, `callClock_runs`: single steps.
-/

namespace LoxLang

open Scoping (Context Scope)

variable {ρ : Renaming} {α β : Type} {o : Option FrameId} {w : World} {m : Machine}
  {R : World → α → β → Prop}

/-! ## Other machines with the same store -/

/-- The machine on the right is the one on the left, but for its store. -/
theorem Linked.machine_eq (h : Linked ρ w m) : m = { w.machine with store := m.store } := by
  obtain ⟨-, hframe, hdepth, hdistances, hmaxDepth, houtput, hhost, hreadings, -⟩ := h
  cases m
  cases hframe
  cases hdepth
  cases hdistances
  cases hmaxDepth
  cases houtput
  cases hhost
  cases hreadings
  rfl

theorem later_withMachine {k : Machine} (hstore : k.store = w.store)
    (hdistances : k.distances = w.machine.distances) : Later o w (w.withMachine k) :=
  .of_frames rfl (congrArg Store.frames hstore)
    (Nat.le_of_eq (congrArg Store.nextStamp hstore.symm)) (fun _ _ => rfl) (Nat.le_refl _)
    (fun _ _ h => h) fun id _ => congrArg (·.of? id) hdistances

theorem Linked.withMachine (h : Linked ρ w m) {k : Machine} (hstore : k.store = w.store)
    (hdistances : k.distances = w.machine.distances) :
    Linked ρ (w.withMachine k) { k with store := m.store } where
  store := h.store.later (later_withMachine (o := none) hstore hdistances) rfl hstore
  frame := rfl
  depth := rfl
  distances := rfl
  maxDepth := rfl
  output := rfl
  host := rfl
  readings := rfl
  visits := h.visits

theorem Reached.withMachine (h : Settled ρ w m) {k : Machine} (hstore : k.store = w.store)
    (hdistances : k.distances = w.machine.distances) (hframe : k.frame = w.frame) :
    Reached ρ o w (w.withMachine k) { k with store := m.store } where
  settled := ⟨h.linked.withMachine hstore hdistances, h.calm⟩
  later := later_withMachine hstore hdistances
  frame := hframe
  distances := hdistances
  next := rfl
  placed := rfl
  visits _ hv := hv

/-- The world in another frame. -/
def World.inFrame (w : World) (frame : FrameId) : World := w.withMachine { w.machine with frame }

theorem Linked.inFrame (h : Linked ρ w m) (frame : FrameId) :
    Linked ρ (w.inFrame frame) { m with frame } := by
  rw [h.machine_eq]
  exact h.withMachine rfl rfl

theorem later_inFrame (frame : FrameId) : Later o w (w.inFrame frame) := later_withMachine rfl rfl

/-- The world with so many calls in progress. -/
def World.withDepth (w : World) (depth : Nat) : World := w.withMachine { w.machine with depth }

theorem Linked.withDepth (h : Linked ρ w m) (depth : Nat) :
    Linked ρ (w.withDepth depth) { m with depth } := by
  rw [h.machine_eq]
  exact h.withMachine rfl rfl

theorem Reached.withDepth (h : Settled ρ w m) (depth : Nat) :
    Reached ρ o w (w.withDepth depth) { m with depth } where
  settled := ⟨h.linked.withDepth depth, h.calm⟩
  later := later_withMachine rfl rfl
  frame := rfl
  distances := rfl
  next := rfl
  placed := rfl
  visits _ hv := hv

/-! ## Running in a new frame -/

/-- What is linked in a world is so in every later one. -/
def Lasting (R : World → α → β → Prop) : Prop :=
  ∀ w w' a b, Later none w w' → R w a b → R w' a b

theorem ValueLinked.lasting : Lasting (ValueLinked ρ) := fun _ _ _ _ hl h => h.later hl

theorem CompletionLinked.lasting : Lasting (CompletionLinked ρ) := fun _ _ _ _ hl h => h.later hl

section
variable {x : Tracing α} {y : Run β}

/-- A run in a frame that is new since an earlier world, and back in the frame of that world. -/
theorem Runs.inFrame {v : World} {k : Machine} {f : FrameId} (h : Reached ρ none w v k)
    (hf : w.labels.length ≤ f) (hR : Lasting R)
    (hx : Runs ρ (some f) (v.inFrame f) { k with frame := f } R x y) :
    EndsAlike ρ none w R (Tracing.inFrame f x v.left) (Run.inFrame f y k) := by
  have hleft : (v.inFrame f).left
      = { v.left with machine := { v.left.machine with frame := f } } := rfl
  have hk : k.frame = v.frame := h.linked.frame
  unfold Tracing.inFrame Run.inFrame
  unfold Runs at hx
  rw [← hleft]
  generalize x (v.inFrame f).left = out at hx
  generalize y { k with frame := f } = out' at hx
  cases hx with
  | ok hreached hab =>
    have hback : Later (some f) w _ := h.later.weaken.trans ((later_inFrame f).trans hreached.later)
    have hlinked := hreached.linked.inFrame v.frame
    rw [hk]
    exact .ok ⟨⟨hlinked, hreached.settled.calm⟩, (hback.of_new hf).trans (later_inFrame _),
      h.frame, hreached.distances.trans h.distances, hreached.next.trans h.next,
      hreached.placed.trans h.placed, fun v hv => hreached.visits v (h.visits v hv)⟩
      (hR _ _ _ _ (later_inFrame _) hab)
  | error hlinked hframe hdistances herror hearly =>
    rw [hk]
    have hlinked' := hlinked.inFrame v.frame
    have hnext : (v.inFrame f).next = w.next := h.next
    have hplaced : (v.inFrame f).placed = w.placed := h.placed
    rw [hnext, hplaced] at hlinked'
    exact .error hlinked' h.frame (hdistances.trans h.distances) herror hearly
  | outOfFuel hvisits hcalm =>
    have hplaced : (v.inFrame f).placed = w.placed := h.placed
    rw [hplaced] at hvisits
    exact .outOfFuel hvisits hcalm

/-- A new frame, and a run in it. -/
theorem Runs.inNewFrame {label : Label} {e : FrameId} {b b' : Bindings Value}
    (h : Settled ρ w m) (hproper : label.Proper ρ)
    (hb : Bindings.Linked (ρ.inScope (some label)) (ValueLinked ρ w) b b')
    (hdeclared : ∀ name, b.isBound name = true → name ∈ label.names) (hR : Lasting R)
    (hx : ∀ k, Settled ρ ((w.withFrame label e b).inFrame w.labels.length) k →
      Runs ρ (some w.labels.length) ((w.withFrame label e b).inFrame w.labels.length) k R x y) :
    Runs ρ none w m R
      (do Tracing.inFrame (← Tracing.quietly (Run.make (·.newFrame (some e) b))) x)
      (do Run.inFrame (← Run.make (·.newFrame (some e) b')) y) := by
  have hnew := Reached.newFrame h hproper hb hdeclared (e := e)
  have hleft : (do Tracing.inFrame (← Tracing.quietly (Run.make (·.newFrame (some e) b))) x :
      Tracing α) w.left = Tracing.inFrame w.labels.length x (w.withFrame label e b).left := by
    rw [← h.linked.store.size]
    rfl
  have hright : (do Run.inFrame (← Run.make (·.newFrame (some e) b')) y : Run β) m
      = Run.inFrame w.labels.length y { m with store := (m.store.newFrame (some e) b').2 } := by
    rw [← h.linked.store.size']
    rfl
  unfold Runs
  rw [hleft, hright]
  have hsettled : Settled ρ ((w.withFrame label e b).inFrame w.labels.length) _ :=
    ⟨hnew.linked.inFrame w.labels.length, h.calm⟩
  exact Runs.inFrame hnew (Nat.le_refl _) hR (hx _ hsettled)

/-- A run as one more call in progress. -/
theorem Runs.oneDeeper (h : Settled ρ w m) (hR : Lasting R)
    (hx : ∀ v k, Reached ρ none w v k → Runs ρ none v k R x y) :
    Runs ρ none w m R (Tracing.oneDeeper x) (Run.oneDeeper y) := by
  have hdeeper : Reached ρ none w (w.withDepth (w.machine.depth + 1))
      { m with depth := m.depth + 1 } := by
    have := Reached.withDepth h (w.machine.depth + 1) (o := none)
    rwa [← h.linked.depth] at this ⊢
  have hrun := hx _ _ hdeeper
  have hleft : (w.withDepth (w.machine.depth + 1)).left
      = { w.left with machine := { w.left.machine with depth := w.left.machine.depth + 1 } } := rfl
  unfold Runs at hrun ⊢
  unfold Tracing.oneDeeper Run.oneDeeper
  rw [← hleft]
  generalize x (w.withDepth (w.machine.depth + 1)).left = out at hrun
  generalize y { m with depth := m.depth + 1 } = out' at hrun
  cases hrun with
  | @ok w' a b m' hreached hab =>
    have hback := Reached.withDepth hreached.settled (w'.machine.depth - 1) (o := none)
    have hdepth := hreached.linked.depth
    dsimp only
    rw [hdepth]
    exact .ok ((hdeeper.trans hreached).trans hback) (hR _ _ _ _ hback.later hab)
  | @error labels t m' e e' hlinked hframe hdistances herror hearly =>
    have hback := hlinked.withDepth (t.machine.depth - 1)
    have hdepth : m'.depth = t.machine.depth := hlinked.depth
    dsimp only
    rw [hdepth]
    exact .error hback hframe hdistances herror hearly
  | outOfFuel hvisits hcalm => exact .outOfFuel hvisits hcalm

end

/-! ## Places -/

section
variable {ctx : Context} {labels : List Label} {label : Label} {scope : Scope} {e : FrameId}
  {b : Bindings Value} {name : String} {v v' : Value}

theorem binds_newFrame (hsize : w.store.frames.size = w.labels.length) (name : String) :
    (w.withFrame label e b).store.binds w.labels.length name = b.isBound name := by
  have hframe : (w.withFrame label e b).store.frame w.labels.length = ⟨b, some e⟩ := by
    rw [← hsize]
    exact Store.frame_newFrame_new
  rw [Store.binds, Store.local?, hframe]
  rfl

/-- A new frame around which the frames are those of a context. -/
theorem Chain.newFrame (h : Chain w e ctx.scopes labels)
    (hsize : w.store.frames.size = w.labels.length)
    (hready : ∀ name, scope.lookup name = some true → b.isBound name = true) :
    Chain (w.withFrame label e b) w.labels.length (scope :: ctx.scopes) (label :: labels) := by
  refine .scope ?_ ?_ (fun name hname => ?_) (h.later (later_newFrame hsize))
  · simp [World.withFrame]
  · rw [← hsize]
    exact congrArg Frame.enclosing Store.frame_newFrame_new
  · rw [binds_newFrame hsize]
    exact hready name hname

/-- In a new frame that binds the names that are ready in its scope. -/
theorem Here.inNewFrame {inside : Context} (h : Chain w e ctx.scopes labels)
    (hsize : w.store.frames.size = w.labels.length) (hinside : inside.scopes = scope :: ctx.scopes)
    (hready : ∀ name, scope.lookup name = some true ↔ b.isBound name = true) :
    Here ((w.withFrame label e b).inFrame w.labels.length) inside (label :: labels) where
  chain := by
    rw [hinside]
    have hchain : Chain (w.withFrame label e b) w.labels.length (scope :: ctx.scopes)
        (label :: labels) := h.newFrame hsize fun name => (hready name).mp
    exact hchain.later (later_inFrame (o := none) _)
  exact scope' hscope name hbinds := by
    rw [hinside] at hscope
    cases hscope
    have hbound : (w.withFrame label e b).store.binds w.labels.length name = b.isBound name :=
      binds_newFrame hsize name
    exact (hready name).mpr (hbound.symm.trans hbinds)

/-- Behind a declaration. -/
theorem Here.ready {s : Store} (h : Here w ctx labels) (hs : StoreLinked ρ w s) (name : String)
    (v : Value) :
    Here (w.withStore (w.store.define w.frame name v)) (ctx.ready name) labels := by
  have hlt := hs.lt (h.label hs)
  have hlater : Later (some w.frame) w (w.withStore (w.store.define w.frame name v)) :=
    later_define hlt
  obtain ⟨hchain, hexact⟩ := h
  cases hscopes : ctx.scopes with
  | nil =>
    rw [Context.ready_of_nil hscopes]
    refine ⟨hchain.later hlater, fun scope hscope => ?_⟩
    rw [hscopes] at hscope
    cases hscope
  | cons scope outer =>
    rw [Context.ready_of_cons hscopes]
    rw [hscopes] at hchain hexact
    obtain ⟨label, labels, e, rfl, hlabel, henclosing, hready, houter⟩ := hchain.of_cons
    constructor
    · refine .scope (hlater.labels _ _ hlabel) (Store.enclosing_define.trans henclosing)
        (fun x hx => ?_) (houter.later hlater)
      change (w.store.define w.frame name v).binds w.frame x = true
      rw [Context.lookup_ready] at hx
      rw [Store.binds_define hlt]
      by_cases hname : name = x
      · simp [hname]
      · rw [if_neg hname] at hx
        simp [hready x hx]
    · intro scope' hscope' x hx
      cases hscope'
      change (w.store.define w.frame name v).binds w.frame x = true at hx
      rw [Context.lookup_ready]
      rw [Store.binds_define hlt] at hx
      by_cases hname : name = x
      · rw [if_pos hname]
      · rw [if_neg hname]
        simp only [hname, and_false, decide_false, Bool.false_or] at hx
        exact hexact scope rfl x hx

/-- In the initializer of a variable. -/
theorem Here.initializing (h : Here w ctx labels) (hname : ctx.hasLocal name = false) :
    Here w ((ctx.mark name false).inInitializer name) labels := by
  obtain ⟨hchain, hexact⟩ := h
  cases hscopes : ctx.scopes with
  | nil =>
    rw [Context.mark_of_nil hscopes]
    exact ⟨by rwa [Context.scopes_inInitializer], by rwa [Context.scopes_inInitializer]⟩
  | cons scope outer =>
    have hnone := Context.hasLocal_of_cons hscopes hname
    -- A name that is ready is another one.
    have hother : ∀ x, List.lookup x ((name, false) :: scope) = some true ↔
        List.lookup x scope = some true := by
      intro x
      rw [Context.lookup_cons]
      by_cases hx : name = x
      · subst hx
        simp [hnone]
      · rw [if_neg hx]
    have hmark : ((ctx.mark name false).inInitializer name).scopes
        = ((name, false) :: scope) :: outer := by
      rw [Context.scopes_inInitializer, Context.mark_of_cons hscopes]
    rw [hscopes] at hchain hexact
    obtain ⟨label, labels, e, rfl, hlabel, henclosing, hready, houter⟩ := hchain.of_cons
    constructor
    · rw [hmark]
      exact .scope hlabel henclosing (fun x hx => hready x ((hother x).mp hx)) houter
    · intro scope' hscope' x hx
      rw [hmark] at hscope'
      cases hscope'
      exact (hother x).mpr (hexact scope rfl x hx)

/-! ## Single steps -/

/-- Binding a name in the current frame, on both sides. -/
theorem define_runs (hsettled : Settled ρ w m) (hhere : Here w ctx labels)
    (hname : ∀ l ∈ labels.head?, name ∈ l.names)
    (hv : ValueLinked ρ (w.withStore (w.store.define w.frame name v)) v v') :
    Runs ρ (some w.frame) w m (fun w' _ _ => Here w' (ctx.ready name) labels)
      (Tracing.quietly (Run.define name v)) (Run.define (ρ.binding labels name) v') := by
  have hs := hsettled.linked.store
  have hreached := Reached.define hsettled (hhere.label hs) hname hv
  have hright : Run.define (ρ.binding labels name) v' m
      = .ok () { m with store := m.store.define w.frame (ρ.binding labels name) v' } := by
    rw [← hsettled.linked.frame]
    rfl
  exact .ok rfl hright hreached (hhere.ready hs name v)

theorem write_runs (h : Settled ρ w m) (text : String) :
    Runs ρ o w m (fun _ _ _ => True) (Tracing.quietly (Run.write text)) (Run.write text) := by
  have houtput := h.linked.output
  unfold Run.write
  by_cases hempty : text.isEmpty = true
  · refine .ok (a := ()) (b := ()) ?_ ?_ (.refl h) trivial
    · simp only [Tracing.quietly, if_pos hempty]
    · simp only [if_pos hempty]
  · cases hrefusal : w.machine.output.refusal? w.machine.output.written with
    | some reason =>
      have hrefusal' : m.output.refusal? m.output.written = some reason := by rwa [houtput]
      refine .error (e := .output reason) h (by simp) ?_ ?_
      · simp only [Tracing.quietly, if_neg hempty, hrefusal]
      · simp only [if_neg hempty, hrefusal']
    | none =>
      have hrefusal' : m.output.refusal? m.output.written = none := by rwa [houtput]
      let output := { w.machine.output with written := w.machine.output.written ++ text }
      have hreached : Reached ρ o w (w.withMachine { w.machine with output })
          { { w.machine with output } with store := m.store } := .withMachine h rfl rfl rfl
      refine .ok (a := ()) (b := ()) ?_ ?_ hreached trivial
      · simp only [Tracing.quietly, if_neg hempty, hrefusal]
        rfl
      · simp only [if_neg hempty, hrefusal']
        rw [h.linked.machine_eq]

/-- Two steps that are not recorded are one. -/
theorem Runs.quietly {γ : Type} {x : Run γ} {f : γ → Run α} {y : Run β}
    (h : Runs ρ o w m R (do Tracing.quietly (f (← Tracing.quietly x))) y) :
    Runs ρ o w m R (Tracing.quietly (x >>= f)) y := by
  unfold Runs at h ⊢
  generalize y m = out at h
  cases hx : x w.machine with
  | ok a k =>
    have hquiet : Tracing.quietly x w.left = .ok a { w.left with machine := k } := by
      simp only [Tracing.quietly, hx]
    rw [Action.bind_of_ok hquiet] at h
    simp only [Tracing.quietly, Action.bind_of_ok hx] at h ⊢
    cases hf : f a k with
    | outOfFuel =>
      rw [hf] at h
      cases h with
      | outOfFuel hvisits hcalm => exact .outOfFuel hvisits hcalm
    | _ =>
      rw [hf] at h
      exact h
  | error e k =>
    have hquiet : Tracing.quietly x w.left = .error (.failure e) { w.left with machine := k } := by
      simp only [Tracing.quietly, hx]
    rw [Action.bind_of_error hquiet] at h
    simpa only [Tracing.quietly, Action.bind_of_error hx] using h
  | outOfFuel =>
    have hquiet : Tracing.quietly x w.left = .error .outOfFuel w.left := by
      simp only [Tracing.quietly, hx]
    rw [Action.bind_of_error hquiet] at h
    simpa only [Tracing.quietly, Action.bind_of_outOfFuel hx] using h

theorem printLine_runs (h : Settled ρ w m) (hv : ValueLinked ρ w v v') :
    Runs ρ o w m (fun _ _ _ => True) (Tracing.quietly (Run.printLine v)) (Run.printLine v') := by
  have hleft : Tracing.quietly (Run.printLine v) w.left
      = Tracing.quietly (do Run.write (w.store.display v); Run.write "\n") w.left := rfl
  have hright : Run.printLine v' m = (do Run.write (w.store.display v); Run.write "\n") m := by
    rw [← hv.display h.linked.store]
    rfl
  unfold Runs
  rw [hleft, hright]
  refine Runs.quietly ((write_runs h _).bind fun w' m' _ _ hreached _ => ?_)
  exact write_runs hreached.settled _

theorem flush_runs (h : Settled ρ w m) :
    Runs ρ o w m (fun _ _ _ => True) (Tracing.quietly Run.flush) Run.flush := by
  have houtput := h.linked.output
  unfold Run.flush
  cases hrefusal : w.machine.output.flushRefusal? with
  | some reason =>
    have hrefusal' : m.output.flushRefusal? = some reason := by rwa [houtput]
    refine .error (e := .output reason) h (by simp) ?_ ?_
    · simp only [Tracing.quietly, hrefusal]
    · simp only [hrefusal']
  | none =>
    have hrefusal' : m.output.flushRefusal? = none := by rwa [houtput]
    refine .ok (a := ()) (b := ()) ?_ ?_ (.refl h) trivial
    · simp only [Tracing.quietly, hrefusal]
    · simp only [hrefusal']

/-- Both sides get the same reading of the clock. -/
theorem callClock_runs (h : Settled ρ w m) (arguments arguments' : List Value) :
    Runs ρ o w m (ValueLinked ρ) (Tracing.quietly (Running.callNative .clock arguments))
      (Running.callNative .clock arguments') := by
  let k := { w.machine with readings := w.machine.readings + 1 }
  have hreached : Reached ρ o w (w.withMachine k) { k with store := m.store } :=
    .withMachine h rfl rfl rfl
  let reading := w.machine.host.clock w.machine.readings
  refine .ok (a := .number reading) (b := .number reading) ?_ ?_ hreached (.plain trivial)
  · simp only [Tracing.quietly, Running.callNative, if_true]
    rfl
  · simp only [Running.callNative, if_true]
    rw [h.linked.machine_eq]

end

end LoxLang
