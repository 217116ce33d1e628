import LoxLang.Proofs.Running.Functions
import LoxLang.Proofs.Running.TwinRuns
import Mathlib.Data.List.Forall2

/-!
# Calls with and without the frames of blocks

* `declareFunction_runs`, `declareClass_runs`: declarations, in frames that are twins;
* `getProperty_runs`: a field, or a method bound to its object in new twins;
* `inSequence_runs`, `callClosure_runs`, `construct_runs`, `call_runs`: statements in a row and
  calls, when statements run alike.
-/

namespace LoxLang.Twins

variable {chosen : Choice} {w : Twins} {layers : Layers} {f g : FrameId}

/-! ## Declarations and objects -/

section
variable {d : FunctionDecl} {o : ObjectId} {c c' : Closure}

/-- A function is declared, in twins. -/
theorem declareFunction_runs (h : Sound chosen w) (hhere : w.Here layers)
    (hpair : w.pairs w.left.frame w.right.frame) (hd : FitsFunction chosen w layers d) :
    Runs chosen w (CompletionTwin chosen)
      (do
        let m ← Action.get
        let closure ← Run.make (·.newClosure d m.frame false)
        Run.define d.name.name (.function closure)
        return .normal)
      (do
        let m ← Action.get
        let closure ← Run.make (·.newClosure d m.frame false)
        Run.define d.name.name (.function closure)
        return .normal) := by
  have hstamped : Reached chosen w (w.withStamps 1) := .withStamps h 1
  have hclosure : ClosureTwin chosen (w.withStamps 1)
      ⟨w.left.store.nextStamp, d, w.left.frame, false⟩
      ⟨w.right.store.nextStamp, d, w.right.frame, false⟩ := {
    stamp := h.stores.stamps
    declaration := rfl
    isInitializer := rfl
    code := ⟨layers, Meets.later hhere hstamped.later, hd.later hstamped.later⟩
    object := fun h => nomatch h }
  refine .get ?_
  refine .after rfl rfl hstamped ?_
  exact (define_runs hstamped.sound hpair d.name.name (.function hclosure)).bind
    fun _ _ _ hreached _ => .pure hreached.sound .normal

/-- The methods of a class are twins, each with the stamp of its own. -/
theorem methodsFrom_twin {ds : List FunctionDecl} (stamp : Nat)
    {methods methods' : Bindings Closure} (hmeets : w.Meets layers f g)
    (hds : ∀ d ∈ ds, FitsFunction chosen w (.shared :: layers) d)
    (hmethods : Bindings.Linked id (MethodTwin chosen w) methods methods') :
    Bindings.Linked id (MethodTwin chosen w) (Store.methodsFrom f ds stamp methods)
      (Store.methodsFrom g ds stamp methods') := by
  induction ds generalizing stamp methods methods' with
  | nil => exact hmethods
  | cons d rest ih =>
    obtain ⟨hd, hrest⟩ := List.forall_mem_cons.mp hds
    have hmethod : MethodTwin chosen w ⟨stamp, d, f, d.isInitializer⟩
        ⟨stamp, d, g, d.isInitializer⟩ := ⟨rfl, rfl, rfl, layers, hmeets, hd⟩
    exact ih (stamp + 1) hrest (hmethods.insert (fun _ _ h => h) hmethod)

/-- A class is declared, in twins. Its name is bound before its methods are made. -/
theorem declareClass_runs {name : Identifier} {ds : List FunctionDecl} (h : Sound chosen w)
    (hhere : w.Here layers) (hpair : w.pairs w.left.frame w.right.frame)
    (hds : ∀ d ∈ ds, FitsFunction chosen w (.shared :: layers) d) :
    Runs chosen w (fun _ _ _ => True) (Running.declareClass name ds)
      (Running.declareClass name ds) := by
  obtain ⟨hbound, hbound'⟩ := h.stores.bounds _ _ hpair
  have hnamed : Reached chosen w (w.withStores w.pairs
      (w.left.store.define w.left.frame name.name .nil)
      (w.right.store.define w.right.frame name.name .nil)) :=
    .define h hpair (.plain trivial)
  have hstamped := Reached.withStamps hnamed.sound (ds.length + 1)
  have hreached := hnamed.trans hstamped
  have hclass := methodsFrom_twin w.left.store.nextStamp (Meets.later hhere hreached.later)
    (fun d hd => (hds d hd).later hreached.later) .nil
  have hc : ClassTwin chosen _ (classFrom w.left.store w.left.frame name.name ds)
      (classFrom w.right.store w.right.frame name.name ds) :=
    ⟨congrArg (· + ds.length) h.stores.stamps, rfl, by
      rw [← h.stores.stamps] at hclass
      unfold classFrom
      rw [← h.stores.stamps]
      exact hclass⟩
  exact .ok (a := ()) (b := ()) (declareClass_eq hbound) (declareClass_eq hbound')
    (hreached.trans (.define hstamped.sound hpair (.ofClass hc))) trivial

/-- A method is bound to an object. -/
def withMethod (w : Twins) (e e' : FrameId) (o : ObjectId) : Twins :=
  (w.withPair e e' [("this", .object o)] [("this", .object o)]).withStamps 1

theorem Reached.bindMethod (h : Sound chosen w) (hc : MethodTwin chosen w c c') (o : ObjectId) :
    Reached chosen w (w.withMethod c.frame c'.frame o) ∧
      ClosureTwin chosen (w.withMethod c.frame c'.frame o) (w.left.store.bindMethod c o).1
        (w.right.store.bindMethod c' o).1 := by
  obtain ⟨hstamp, hdeclaration, hinitializer, layers, hmeets, hfits⟩ := hc
  have hthis : BindingsTwin chosen w [("this", .object o)] [("this", .object o)] :=
    .cons .object .nil
  have hnew : Reached chosen w (w.withPair c.frame c'.frame _ _) := .newPair h hthis
  have hstamped := Reached.withStamps hnew.sound 1
  have hreached := hnew.trans hstamped
  refine ⟨hreached, ?_⟩
  exact {
    stamp := h.stores.stamps
    declaration := hdeclaration
    isInitializer := hinitializer
    code := ⟨.shared :: layers, hmeets.newPair.later hstamped.later, hfits.later hreached.later⟩
    object := fun _ => hstamped.later.pairs _ _ (.inr ⟨rfl, rfl⟩) }

theorem withMethod_left (w : Twins) (c c' : Closure) (o : ObjectId) :
    (w.withMethod c.frame c'.frame o).left
      = { w.left with store := (w.left.store.bindMethod c o).2 } := rfl

theorem withMethod_right (w : Twins) (c c' : Closure) (o : ObjectId) :
    (w.withMethod c.frame c'.frame o).right
      = { w.right with store := (w.right.store.bindMethod c' o).2 } := rfl

/-- What an object has under a name are twins, or nothing on either side. -/
theorem Stores.property (h : Stores chosen w) (o : ObjectId) (name : Identifier) :
    (∃ v v', w.left.store.property o name = .ok (.field v) ∧
      w.right.store.property o name = .ok (.field v') ∧ ValueTwin chosen w v v') ∨
    (∃ c c', w.left.store.property o name = .ok (.method c) ∧
      w.right.store.property o name = .ok (.method c') ∧ MethodTwin chosen w c c') ∨
    (w.left.store.property o name = .error (.undefinedProperty name.name name.line) ∧
      w.right.store.property o name = .error (.undefinedProperty name.name name.line)) := by
  unfold Store.property
  by_cases ho : o < w.left.store.objects.size
  · have ho' : o < w.right.store.objects.size := by rw [h.objectsSize]; exact ho
    have hob := h.objects o _ _ (Array.getElem?_eq_getElem ho) (Array.getElem?_eq_getElem ho')
    rw [Array.getElem?_eq_getElem ho, Array.getElem?_eq_getElem ho']
    simp only [Option.bind_some]
    obtain ⟨hnone, hnone'⟩ | ⟨v, v', hv, hv', htwin⟩ := hob.fields.find?_id name.name
    · obtain ⟨hc, hc'⟩ | ⟨c, c', hc, hc', htwin⟩ := hob.ofClass.method? name.name
      · simp [hnone, hnone', hc, hc']
      · simp only [hnone, hnone', hc, hc']
        exact .inr (.inl ⟨c, c', rfl, rfl, htwin⟩)
    · simp only [hv, hv']
      exact .inl ⟨v, v', rfl, rfl, htwin⟩
  · have ho' : ¬o < w.right.store.objects.size := by rw [h.objectsSize]; exact ho
    simp [ho, ho']

theorem getProperty_runs (h : Sound chosen w) (o : ObjectId) (name : Identifier) :
    Runs chosen w (ValueTwin chosen) (Run.getProperty o name) (Run.getProperty o name) := by
  obtain ⟨v, v', hv, hv', htwin⟩ | ⟨c, c', hc, hc', htwin⟩ | ⟨hnone, hnone'⟩ :=
    h.stores.property o name
  · refine .ok ?_ ?_ (.refl h) htwin
    · simp only [Run.getProperty, hv]
    · simp only [Run.getProperty, hv']
  · obtain ⟨hreached, hbound⟩ := Reached.bindMethod h htwin o
    refine .ok ?_ ?_ hreached (.function hbound)
    · simp only [Run.getProperty, hc, withMethod_left]
    · simp only [Run.getProperty, hc', withMethod_right]
  · refine .error (e := .undefinedProperty name.name name.line) h .same ?_ ?_
    · simp only [Run.getProperty, hnone]
    · simp only [Run.getProperty, hnone']

end

/-! ## Calls -/

abbrev ValuesTwin (chosen : Choice) (w : Twins) : List Value → List Value → Prop :=
  List.Forall₂ (ValueTwin chosen w)

theorem insertAll_twin {params : List Identifier} {vs vs' : List Value} {b b' : Bindings Value}
    (hvs : ValuesTwin chosen w vs vs') (hb : BindingsTwin chosen w b b') :
    BindingsTwin chosen w (b.insertAll ((params.map (·.name)).zip vs))
      (b'.insertAll ((params.map (·.name)).zip vs')) := by
  induction params generalizing vs vs' b b' with
  | nil => exact hb
  | cons p params ih =>
    cases hvs with
    | nil => exact hb
    | cons hv hvs => exact ih hvs (hb.insert (fun _ _ h => h) hv)

/-- What a call gives when its body has completed. -/
theorem result_runs {isInitializer : Bool} {c c' : Completion} (h : Sound chosen w)
    (hobject : isInitializer = true → w.pairs f g) :
    CompletionTwin chosen w c c' → Runs chosen w (ValueTwin chosen)
      (if isInitializer then do
          let m ← Action.get
          Action.ofExcept (m.store.getAt f 0 "this")
        else
          match c with
          | .returning value => return value
          | _ => return .nil)
      (if isInitializer then do
          let m ← Action.get
          Action.ofExcept (m.store.getAt g 0 "this")
        else
          match c' with
          | .returning value => return value
          | _ => return .nil) := by
  intro hc
  cases isInitializer with
  | true =>
    refine .get (.ofExcept h ?_)
    rw [getAt_of_climb (d := 0) rfl, getAt_of_climb (d := 0) rfl]
    obtain ⟨hv, hv'⟩ | ⟨v, v', hv, hv', htwin⟩ := h.stores.local? (hobject rfl) "this"
    · rw [hv, hv']
      exact .error .same
    · rw [hv, hv']
      exact .ok htwin
  | false =>
    cases hc with
    | normal => exact .pure h (.plain trivial)
    | breaking => exact .pure h (.plain trivial)
    | returning hv => exact .pure h hv

/-- Statements run alike, each at its place. -/
def ExecutesAlike (chosen : Choice) (execute execute' : Stmt → Run Completion) : Prop :=
  ∀ (w : Twins) (layers : Layers) (s : Stmt), Sound chosen w → w.Here layers →
    Fits chosen w layers s → Runs chosen w (CompletionTwin chosen) (execute s) (execute' s)

section
variable {execute execute' : Stmt → Run Completion}
  (hexecute : ExecutesAlike chosen execute execute')
include hexecute

theorem inSequence_runs {ss : List Stmt} (h : Sound chosen w) (hhere : w.Here layers)
    (hss : ∀ s ∈ ss, Fits chosen w layers s) :
    Runs chosen w (CompletionTwin chosen) (Running.inSequence execute ss)
      (Running.inSequence execute' ss) := by
  induction ss generalizing w with
  | nil => exact .pure h .normal
  | cons s rest ih =>
    obtain ⟨hs, hrest⟩ := List.forall_mem_cons.mp hss
    refine (hexecute w layers s h hhere hs).bind fun w' c c' hreached hc => ?_
    cases hc with
    | normal =>
      exact ih hreached.sound (Here.reached hhere hreached)
        fun s hs => (hrest s hs).later hreached.later
    | breaking => exact .pure hreached.sound .breaking
    | returning hv => exact .pure hreached.sound (.returning hv)

/-- A call of a function runs its body in new twins that bind the parameters. -/
theorem callClosure_runs {c c' : Closure} {vs vs' : List Value} (h : Sound chosen w)
    (hc : ClosureTwin chosen w c c') (hvs : ValuesTwin chosen w vs vs') :
    Runs chosen w (ValueTwin chosen) (Running.callClosure execute c vs)
      (Running.callClosure execute' c' vs') := by
  obtain ⟨stamp, d, frame, isInitializer⟩ := c
  obtain ⟨stamp', d', frame', isInitializer'⟩ := c'
  obtain ⟨-, hdeclaration, hinitializer, ⟨layers, hmeets, hfits⟩, hobject⟩ := hc
  dsimp only at hdeclaration hinitializer hmeets hfits hobject
  subst hdeclaration hinitializer
  have hb : BindingsTwin chosen w (Running.argumentBindings d'.params vs)
      (Running.argumentBindings d'.params vs') := insertAll_twin hvs .nil
  have hrun := Runs.inNewPair frame frame' h CompletionTwin.lasting hb
    fun hsound => inSequence_runs hexecute hsound
      (hmeets.newPair.later (later_inFrames _ _)) fun s hs =>
        (hfits.body s hs).later (later_withPair.trans (later_inFrames _ _))
  unfold Running.callClosure
  have hall := hrun.bind fun w' c c' hreached hc =>
    result_runs hreached.sound (fun hinit => hreached.later.pairs _ _ (hobject hinit)) hc
  rw [Action.bind_assoc, Action.bind_assoc] at hall
  exact hall

/-- A new object, on which the initializer runs if there is one. -/
theorem construct_runs {c c' : Class} {vs vs' : List Value} (h : Sound chosen w)
    (hc : ClassTwin chosen w c c') (hvs : ValuesTwin chosen w vs vs') :
    Runs chosen w (ValueTwin chosen) (Running.construct execute c vs)
      (Running.construct execute' c' vs') := by
  have hnew := Reached.newObject h hc
  have hright : Run.make (·.newObject c') w.right
      = .ok w.left.store.objects.size { w.right with store := (w.right.store.newObject c').2 } := by
    rw [← h.stores.objectsSize]
    rfl
  unfold Running.construct
  refine .after rfl hright hnew ?_
  unfold Class.initializer?
  obtain ⟨hf, hf'⟩ | ⟨f, f', hf, hf', htwin⟩ := hc.method? "init"
  · rw [hf, hf']
    exact .pure hnew.sound .object
  · rw [hf, hf']
    dsimp only
    obtain ⟨hreached, hbound⟩ :=
      Reached.bindMethod hnew.sound (htwin.later hnew.later) w.left.store.objects.size
    have hvs' := hvs.imp fun _ _ hv => hv.later (hnew.later.trans hreached.later)
    refine .after rfl rfl hreached ?_
    exact (callClosure_runs hexecute hreached.sound hbound hvs').bind fun _ _ _ hreached _ =>
      .pure hreached.sound .object

theorem apply_runs {u u' : Value} {vs vs' : List Value} (h : Sound chosen w)
    (hu : ValueTwin chosen w u u') (hvs : ValuesTwin chosen w vs vs') :
    Runs chosen w (ValueTwin chosen) (Running.apply execute u vs)
      (Running.apply execute' u' vs') := by
  cases hu with
  | plain hplain => cases u <;> first | exact .pure h (.plain trivial) | contradiction
  | clock => exact callClock_runs h vs vs'
  | function hc => exact callClosure_runs hexecute h hc hvs
  | ofClass hc => exact construct_runs hexecute h hc hvs
  | object => exact .pure h (.plain trivial)

/-- A call of any value, with its checks. -/
theorem call_runs {u u' : Value} {vs vs' : List Value} (line : Nat) (h : Sound chosen w)
    (hu : ValueTwin chosen w u u') (hvs : ValuesTwin chosen w vs vs') :
    Runs chosen w (ValueTwin chosen) (Running.call execute u vs line)
      (Running.call execute' u' vs' line) := by
  rw [Running.call_eq, Running.call_eq, hu.resembles.arity?, ← hvs.length_eq]
  cases u.arity? with
  | none => exact .fail h
  | some arity =>
    dsimp only
    split
    · exact .fail h
    · refine .ifRoom h line ValueTwin.lasting fun v hreached => ?_
      exact apply_runs hexecute hreached.sound (hu.later hreached.later)
        (hvs.imp fun _ _ hv => hv.later hreached.later)

end

end LoxLang.Twins
