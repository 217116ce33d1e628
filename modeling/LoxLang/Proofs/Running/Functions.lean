import LoxLang.Proofs.Running.Frames

/-!
# Functions, classes and calls in lockstep

* `declareFunction_runs`, `declareClass_runs`: declarations, with the sites of the new bodies;
* `getProperty_runs`: a field, or a method bound to its object in a frame of its own;
* `callClosure_runs`, `construct_runs`, `call_runs`: calls, when statements run in lockstep.
-/

namespace LoxLang

open Scoping (Context Scope Routine)

variable {ρ : Renaming} {w : World} {m : Machine} {ctx : Context} {labels : List Label}
  {K : Findings}

/-! ## Declarations -/

/-- A function, on both sides. Its body starts behind its name. -/
theorem declareFunction_runs {introduced : Context} {f f' : FunctionDecl} (hsettled : Settled ρ w m)
    (hhere : Here w ctx labels) (hcovers : Covers w K)
    (hintroduced : ctx.introduce f.name = .ok introduced)
    (hname : ∀ l ∈ labels.head?, f.name.name ∈ l.names)
    (hbinding : ρ.binding labels f.name.name = f.name.name)
    (hf : FunctionLinked ρ K (introduced.inRoutine .ordinary) labels f f') :
    Runs ρ (some w.frame) w m (fun w' _ _ => Here w' introduced labels)
      (Tracing.declareFunction (siteOf ctx labels) f) (do
        let m ← Action.get
        let closure ← Run.make (·.newClosure f' m.frame false)
        Run.define f'.name.name (.function closure)) := by
  obtain ⟨-, rfl⟩ := Context.introduce_eq_ok.mp hintroduced
  let site := (siteOf (ctx.ready f.name.name) labels).inFunction .ordinary f
  have horiginate := Reached.originate hsettled [site] (o := none)
  have hstamped := Reached.withStamps horiginate.settled 1 (o := none)
  have hreached := horiginate.trans hstamped
  have hhere' := hhere.reached hreached
  let closure : Closure := ⟨w.store.nextStamp, f, w.frame, false⟩
  let closure' : Closure := ⟨w.store.nextStamp, f', w.frame, false⟩
  -- The function may use its own name, so it is linked where that is bound.
  have hready := hhere'.ready hreached.linked.store f.name.name (.function closure)
  let made := (w.originate [site]).withStamps 1
  have hlater : Later (some w.frame) made
      (made.withStore (made.store.define w.frame f.name.name (.function closure))) :=
    later_define (hreached.linked.store.lt (hhere'.label hreached.linked.store))
  have hclosure : ClosureLinked ρ _ closure closure' := {
    stamp := rfl
    frame := rfl
    isInitializer := rfl
    code := by
      refine ⟨ctx.ready f.name.name, labels, ⟨Nat.lt_succ_self _, K, .ordinary, ?_, hf, ?_⟩,
        hready.chain, fun h => nomatch h⟩
      · exact (hcovers.later hreached.later).later hlater
      · exact originate_origins w [site] (i := 0) rfl }
  have hdefined := define_runs hreached.settled hhere' hname (.function hclosure)
  have hsite : (siteOf ctx labels).introduce f.name = siteOf (ctx.ready f.name.name) labels :=
    siteOf_introduce hintroduced
  have hleft : Tracing.declareFunction (siteOf ctx labels) f w.left
      = Tracing.quietly (Run.define f.name.name (.function closure))
        ((w.originate [site]).withStamps 1).left := by
    unfold Tracing.declareFunction
    rw [hsite]
    rfl
  have hright : (do
      let m ← Action.get
      let closure ← Run.make (·.newClosure f' m.frame false)
      Run.define f'.name.name (.function closure) : Run Unit) m
      = Run.define (ρ.binding labels f.name.name) (.function closure')
        { m with store := { m.store with nextStamp := m.store.nextStamp + 1 } } := by
    have hframe : m.frame = w.frame := hsettled.linked.frame
    have hstamp : m.store.nextStamp = w.store.nextStamp := hsettled.linked.store.stamps
    simp only [closure', hbinding, ← hframe, ← hstamp]
    rw [← hf.name_eq]
    rfl
  unfold Runs
  rw [hleft, hright]
  exact hdefined.earlier hreached.weaken

/-- The methods of a class are linked, each with its own stamp. -/
theorem methodsFrom_linked {frame : FrameId} {ds ds' : List FunctionDecl} {stamp : Nat}
    {methods methods' : Bindings Closure}
    (h : FunctionsLinked ρ K ctx.inClassBody (.this :: labels) ds ds')
    (hchain : Chain w frame ctx.scopes labels) (hcovers : Covers w K)
    (hmade : stamp + ds.length ≤ w.store.nextStamp)
    (horigins : ∀ i d, ds[i]? = some d → w.left.origins (stamp + i)
      = (siteOf ctx.inClassBody (.this :: labels)).inFunction d.routine d)
    (hmethods : Bindings.Linked id (MethodLinked ρ w) methods methods') :
    Bindings.Linked id (MethodLinked ρ w) (Store.methodsFrom frame ds stamp methods)
      (Store.methodsFrom frame ds' stamp methods') := by
  induction ds generalizing ds' stamp methods methods' with
  | nil =>
    cases h
    exact hmethods
  | cons d rest ih =>
    cases h with
    | @cons _ _ _ d' _ rest' hd hrest =>
      simp only [List.length_cons] at hmade
      have hname : d'.name = d.name := hd.name_eq
      have hinitializer : d'.isInitializer = d.isInitializer := by
        simp only [FunctionDecl.isInitializer, hname]
      have hmethod : MethodLinked ρ w ⟨stamp, d, frame, d.isInitializer⟩
          ⟨stamp, d', frame, d.isInitializer⟩ := {
        stamp := rfl
        frame := rfl
        isInitializer := rfl
        code := by
          have hmade' : stamp < w.store.nextStamp := by omega
          exact ⟨ctx, labels, ⟨hmade', K, d.routine, hcovers, hd, horigins 0 d rfl⟩, hchain⟩ }
      unfold Store.methodsFrom
      rw [hname, hinitializer]
      refine ih hrest (by omega) (fun i x hx => ?_) (hmethods.insert (fun _ _ h => h) hmethod)
      rw [Nat.add_assoc, Nat.add_comm 1 i]
      exact horigins (i + 1) x hx

/-- The class that a declaration makes in a store. -/
def classFrom (s : Store) (frame : FrameId) (name : String) (ds : List FunctionDecl) : Class :=
  ⟨s.nextStamp + ds.length, name, Store.methodsFrom frame ds s.nextStamp []⟩

/-- The store with further stamps and a name that is bound to a class. -/
def withClass (s : Store) (frame : FrameId) (name : String) (ds : List FunctionDecl) : Store :=
  let named := s.define frame name .nil
  { named with nextStamp := s.nextStamp + (ds.length + 1) }.define frame name
    (.ofClass (classFrom s frame name ds))

theorem declareClass_eq {name : Identifier} {ds : List FunctionDecl}
    (hlt : m.frame < m.store.frames.size) : Running.declareClass name ds m
      = .ok () { m with store := withClass m.store m.frame name.name ds } := by
  let named := m.store.define m.frame name.name .nil
  have hnew := Store.newClass_eq named name.name ds m.frame
  have hbinds : (named.newClass name.name ds m.frame).2.binds m.frame name.name = true := by
    rw [hnew]
    change named.binds m.frame name.name = true
    simp [named, Store.binds_define hlt]
  have hassignee : (named.newClass name.name ds m.frame).2.assignee m.frame name.name name.line
      = .ok m.frame := by
    rw [Store.assignee, Store.binder?_of_binds hbinds]
  have hassign : Running.declareClass name ds m
      = Run.assignIn (fun m => m.store.assignee m.frame name.name name.line) name.name
        (.ofClass (named.newClass name.name ds m.frame).1)
        { m with store := (named.newClass name.name ds m.frame).2 } := rfl
  rw [hassign]
  unfold Run.assignIn
  simp only [hassignee]
  rw [hnew]
  rfl

/-- A class, on both sides. Its name is bound before its methods are made. -/
theorem declareClass_runs {introduced : Context} {name : Identifier} {ds ds' : List FunctionDecl}
    (hsettled : Settled ρ w m) (hhere : Here w ctx labels) (hcovers : Covers w K)
    (hintroduced : ctx.introduce name = .ok introduced)
    (hname : ∀ l ∈ labels.head?, name.name ∈ l.names)
    (hbinding : ρ.binding labels name.name = name.name)
    (hds : FunctionsLinked ρ K introduced.inClassBody (.this :: labels) ds ds') :
    Runs ρ (some w.frame) w m (fun w' _ _ => Here w' introduced labels)
      (Tracing.declareClass (siteOf ctx labels) name ds) (Running.declareClass name ds') := by
  have hs := hsettled.linked.store
  have hlabel := hhere.label hs
  have hlt := hs.lt hlabel
  have hlt' : m.frame < m.store.frames.size := by
    rw [hsettled.linked.frame, hs.size', ← hs.size]
    exact hlt
  have hframe : m.frame = w.frame := hsettled.linked.frame
  have hstamp : m.store.nextStamp = w.store.nextStamp := hs.stamps
  have hlength : ds'.length = ds.length := hds.length_eq
  have hsite : (siteOf ctx labels).introduce name = siteOf introduced labels :=
    siteOf_introduce hintroduced
  obtain ⟨-, rfl⟩ := Context.introduce_eq_ok.mp hintroduced
  let sites := ds.map fun d =>
    (siteOf (ctx.ready name.name).inClassBody (.this :: labels)).inFunction d.routine d
  have horiginate := Reached.originate hsettled sites (o := none)
  have hhere₁ := hhere.reached horiginate
  have hnamed := Reached.define horiginate.settled hlabel hname (.plain (v := .nil) trivial)
  have hhere₂ := hhere₁.ready horiginate.linked.store name.name .nil
  have hstamped := Reached.withStamps hnamed.settled (ds.length + 1) (o := none)
  have hhere₃ := hhere₂.reached hstamped
  have hreached := (horiginate.weaken.trans hnamed).trans hstamped.weaken
  have hmethods := methodsFrom_linked hds hhere₃.chain (hcovers.later hreached.later)
    (Nat.add_le_add_left (Nat.le_succ _) w.store.nextStamp)
    (fun i d hd => originate_origins w sites (by simp [sites, hd])) .nil
  let c := classFrom w.store w.frame name.name ds
  let c' := classFrom w.store w.frame name.name ds'
  have hc : ClassLinked ρ _ c c' := ⟨by simp only [c, c', classFrom, hlength], rfl, hmethods⟩
  have hbinds : (w.store.define w.frame name.name .nil).binds w.frame name.name = true := by
    simp [Store.binds_define hlt]
  have hdefined := Reached.define_bound hstamped.settled hlabel hbinds (.ofClass hc)
  have hleft : Tracing.declareClass (siteOf ctx labels) name ds w.left
      = .ok () (((w.originate sites).withStore
        (withClass w.store w.frame name.name ds))).left := by
    have hclass : Running.declareClass name ds w.machine = _ := declareClass_eq hlt
    unfold Tracing.declareClass
    rw [hsite]
    refine (Action.bind_of_ok rfl).trans ?_
    simp only [Tracing.quietly, hclass]
    rfl
  have hright : Running.declareClass name ds' m = _ := declareClass_eq hlt'
  refine .ok (a := ()) (b := ()) ?_ ?_ (hreached.trans hdefined.weaken) (hhere₃.reached hdefined)
  · exact hleft
  · rw [hright]
    have hwritten : ρ.inScope labels.head? name.name = name.name := hbinding
    simp only [withClass, classFrom, c', hlength, hframe, hstamp, hwritten, Store.define_nextStamp]

/-! ## Methods -/

/-- The world in which a method with this origin is bound to an object. -/
def World.withMethod (w : World) (f : Closure) (o : ObjectId) : World :=
  ((w.originate [w.left.origins f.stamp]).withFrame .this f.frame [("this", .object o)]).withStamps 1

/-- A method is bound to an object, on both sides. -/
theorem Reached.bindMethod (hsettled : Settled ρ w m) {f f' : Closure}
    (hf : MethodLinked ρ w f f') (o : ObjectId) :
    Reached ρ none w (w.withMethod f o) { m with store := (m.store.bindMethod f' o).2 } ∧
      ClosureLinked ρ (w.withMethod f o) (w.store.bindMethod f o).1
        (m.store.bindMethod f' o).1 := by
  obtain ⟨hstamp, hframe, hinitializer, ctx, labels, hcode, hchain⟩ := hf
  obtain ⟨hmade, K, routine, hcovers, hlinked, horigin⟩ := hcode
  have horiginate := Reached.originate hsettled [w.left.origins f.stamp] (o := none)
  have hsize := horiginate.linked.store.size
  have hobject : Bindings.Linked (ρ.inScope (some .this)) (ValueLinked ρ
      (w.originate [w.left.origins f.stamp])) [("this", .object o)] [("this", .object o)] :=
    .cons .object .nil
  have hthis : ∀ name, Bindings.isBound [("this", Value.object o)] name = true →
      name ∈ Label.this.names := by
    intro name hname
    by_cases h : "this" = name
    · simp [Label.this, h]
    · simp [Bindings.isBound, Bindings.find?_cons, h] at hname
  have hnew := Reached.newFrame horiginate.settled (Label.this_proper ρ) hobject hthis (e := f.frame)
  have hstamped := Reached.withStamps hnew.settled 1 (o := none)
  have hreached := (horiginate.trans hnew).trans hstamped
  constructor
  · unfold Store.bindMethod
    rw [hframe]
    exact hreached
  exact {
    stamp := hsettled.linked.store.stamps
    frame := hsettled.linked.store.size'.trans hsettled.linked.store.size.symm
    isInitializer := hinitializer
    code := by
      refine ⟨ctx.inClassBody, .this :: labels, ⟨Nat.lt_succ_self _, K, routine,
        hcovers.later hreached.later, hlinked, ?_⟩, ?_, fun _ => ⟨rfl, rfl⟩⟩
      · exact (originate_origins w [w.left.origins f.stamp] (i := 0) rfl).trans horigin
      · have hready : ∀ name, List.lookup name [("this", true)] = some true →
            Bindings.isBound [("this", Value.object o)] name = true := by
          intro name hname
          rw [Context.lookup_cons] at hname
          by_cases h : "this" = name
          · simp [Bindings.isBound, Bindings.find?_cons, h]
          · simp [h] at hname
        have hbound : Chain (w.withMethod f o) w.labels.length
            ([("this", true)] :: ctx.scopes) (.this :: labels) :=
          ((hchain.later horiginate.later).newFrame hsize hready).later hstamped.later
        rwa [← hsettled.linked.store.size] at hbound }

/-- What an object has under a name is linked, or there is nothing on either side. -/
theorem StoreLinked.property {s : Store} (h : StoreLinked ρ w s) (o : ObjectId)
    (name : Identifier) :
    (∃ v v', w.store.property o name = .ok (.field v) ∧ s.property o name = .ok (.field v') ∧
      ValueLinked ρ w v v') ∨
    (∃ f f', w.store.property o name = .ok (.method f) ∧ s.property o name = .ok (.method f') ∧
      MethodLinked ρ w f f') ∨
    (w.store.property o name = .error (.undefinedProperty name.name name.line) ∧
      s.property o name = .error (.undefinedProperty name.name name.line)) := by
  unfold Store.property
  by_cases ho : o < w.store.objects.size
  · have ho' : o < s.objects.size := by rw [h.objectsSize]; exact ho
    have hob := h.objects o _ _ (Array.getElem?_eq_getElem ho) (Array.getElem?_eq_getElem ho')
    rw [Array.getElem?_eq_getElem ho, Array.getElem?_eq_getElem ho']
    simp only [Option.bind_some]
    obtain ⟨hnone, hnone'⟩ | ⟨v, v', hv, hv', hlinked⟩ := hob.fields.find?_id name.name
    · obtain ⟨hf, hf'⟩ | ⟨f, f', hf, hf', hlinked⟩ := hob.ofClass.method? name.name
      · simp [hnone, hnone', hf, hf']
      · simp only [hnone, hnone', hf, hf']
        exact .inr (.inl ⟨f, f', rfl, rfl, hlinked⟩)
    · simp only [hv, hv']
      exact .inl ⟨v, v', rfl, rfl, hlinked⟩
  · have ho' : ¬o < s.objects.size := by rw [h.objectsSize]; exact ho
    simp [ho, ho']

theorem getProperty_runs (hsettled : Settled ρ w m) (o : ObjectId) (name : Identifier) :
    Runs ρ none w m (ValueLinked ρ) (Tracing.getProperty o name) (Run.getProperty o name) := by
  unfold Tracing.getProperty
  refine .look ?_
  obtain ⟨v, v', hv, hv', hlinked⟩ | ⟨f, f', hf, hf', hlinked⟩ | ⟨hnone, hnone'⟩ :=
    hsettled.linked.store.property o name
  · simp only [hv]
    refine .ok ?_ ?_ (.refl hsettled) hlinked
    · simp only [Tracing.quietly, Run.getProperty, hv]
    · simp only [Run.getProperty, hv']
  · simp only [hf]
    obtain ⟨hreached, hc⟩ := Reached.bindMethod hsettled hlinked o
    have hleft : Run.getProperty o name w.machine = .ok (.function (w.store.bindMethod f o).1)
        { w.machine with store := (w.store.bindMethod f o).2 } := by
      simp only [Run.getProperty, hf]
    refine .ok ((Action.bind_of_ok rfl).trans ?_) ?_ hreached (.function hc)
    · simp only [Tracing.quietly, hleft]
      rfl
    · simp only [Run.getProperty, hf']
  · simp only [hnone]
    refine .error hsettled (e := .undefinedProperty name.name name.line) (by simp) ?_ ?_
    · simp only [Tracing.quietly, Run.getProperty, hnone]
    · simp only [Run.getProperty, hnone']

/-! ## Calls -/

/-- Linked arguments. -/
inductive ValuesLinked (ρ : Renaming) (w : World) : List Value → List Value → Prop
  | nil : ValuesLinked ρ w [] []
  | cons {v v' : Value} {vs vs' : List Value} :
      ValueLinked ρ w v v' → ValuesLinked ρ w vs vs' → ValuesLinked ρ w (v :: vs) (v' :: vs')

theorem ValuesLinked.later {o : Option FrameId} {w' : World} {vs vs' : List Value}
    (h : ValuesLinked ρ w vs vs') (hl : Later o w w') : ValuesLinked ρ w' vs vs' := by
  induction h with
  | nil => exact .nil
  | cons hv _ ih => exact .cons (hv.later hl) ih

theorem ValuesLinked.length_eq {vs vs' : List Value} (h : ValuesLinked ρ w vs vs') :
    vs'.length = vs.length := by
  induction h with
  | nil => rfl
  | cons _ _ ih => rw [List.length_cons, List.length_cons, ih]

/-- The frame of a call binds the parameters, and nothing else, to linked values. -/
theorem insertAll_linked {label : Label} (hproper : label.Proper ρ) {params : List Identifier}
    {vs vs' : List Value} {b b' : Bindings Value} (hvs : ValuesLinked ρ w vs vs')
    (hlength : vs.length = params.length) (hparams : ∀ p ∈ params, p.name ∈ label.names)
    (hnames : ∀ x, b.isBound x = true → x ∈ label.names)
    (hb : Bindings.Linked (ρ.inScope (some label)) (ValueLinked ρ w) b b') :
    Bindings.Linked (ρ.inScope (some label)) (ValueLinked ρ w)
        (b.insertAll ((params.map (·.name)).zip vs))
        (b'.insertAll (((params.map fun p => (⟨ρ.inScope (some label) p.name, p.line⟩ : Identifier)).map
          (·.name)).zip vs')) ∧
      ∀ x, (b.insertAll ((params.map (·.name)).zip vs)).isBound x = true ↔
        x ∈ params.map (·.name) ∨ b.isBound x = true := by
  induction params generalizing vs vs' b b' with
  | nil => exact ⟨hb, fun x => by simp [Bindings.insertAll]⟩
  | cons p params ih =>
    cases hvs with
    | nil => simp at hlength
    | @cons v v' vs vs' hv hvs =>
      obtain ⟨hp, hrest⟩ := List.forall_mem_cons.mp hparams
      have hinsert : ∀ x, (b.insert p.name v).isBound x = true → x ∈ label.names := by
        intro x hx
        rw [Bindings.isBound_insert] at hx
        by_cases hpx : p.name = x
        · exact hpx ▸ hp
        · exact hnames x (by simpa [hpx] using hx)
      have hinj : ∀ x, b.isBound x = true →
          ρ.inScope (some label) x = ρ.inScope (some label) p.name → x = p.name :=
        fun x hx h => Renaming.inScope_inj hproper (hnames x hx) hp h
      obtain ⟨hlinked, hbound⟩ := ih hvs (by simpa using hlength) hrest hinsert (hb.insert hinj hv)
      refine ⟨hlinked, fun x => (hbound x).trans ?_⟩
      rw [Bindings.isBound_insert, Bool.or_eq_true, decide_eq_true_eq, eq_comm, List.map_cons,
        List.mem_cons, or_left_comm, or_assoc]

/-- Statements run in lockstep, each where its context is. -/
def ExecutesAlike (ρ : Renaming) (execute : Site → Stmt → Tracing Completion)
    (execute' : Stmt → Run Completion) : Prop :=
  ∀ (w : World) (m : Machine) (K : Findings) (ctx behind : Context)
    (labels : List Label) (s s' : Stmt),
    Settled ρ w m → Here w ctx labels → Covers w K → StmtLinked ρ K ctx labels s s' behind →
    Runs ρ (some w.frame) w m (fun w' c c' => CompletionLinked ρ w' c c' ∧ Here w' behind labels)
      (execute (siteOf ctx labels) s) (execute' s')

section
variable {execute : Site → Stmt → Tracing Completion} {execute' : Stmt → Run Completion}
  (hexecute : ExecutesAlike ρ execute execute')
include hexecute

theorem inSequence_runs {ss ss' : List Stmt} (hsettled : Settled ρ w m) (hhere : Here w ctx labels)
    (hcovers : Covers w K) (hss : StmtsLinked ρ K ctx labels ss ss') :
    Runs ρ (some w.frame) w m (CompletionLinked ρ)
      (Tracing.inSequence execute (siteOf ctx labels) ss) (Running.inSequence execute' ss') := by
  induction ss generalizing w m ctx ss' with
  | nil =>
    cases hss
    exact .pure hsettled .normal
  | cons s rest ih =>
    cases hss with
    | cons hs hbehind hrest =>
      refine (hexecute w m K ctx _ labels s _ hsettled hhere hcovers hs).bind ?_
      intro w' m' c c' hreached hc
      obtain ⟨hc, hhere'⟩ := hc
      have hsite : (siteOf ctx labels).after s = siteOf (ctx.after s) labels := rfl
      cases hc with
      | normal =>
        have hnext := ih hreached.settled hhere' (hcovers.later hreached.later) hrest
        rw [hreached.frame, ← hbehind, ← hsite] at hnext
        exact hnext
      | breaking => exact .pure hreached.settled .breaking
      | returning hv => exact .pure hreached.settled (.returning hv)

omit hexecute in
/-- The object of an initializer. -/
theorem getThis_runs {frame : FrameId} (hsettled : Settled ρ w m)
    (hchain : Chain w frame ctx.scopes labels) (hscope : ctx.scopes.head? = some [("this", true)])
    (hlabel : labels.head? = some .this) :
    Runs ρ none w m (ValueLinked ρ)
      (Tracing.quietly do
        let m ← Action.get
        Action.ofExcept (m.store.getAt frame 0 "this"))
      (do
        let m ← Action.get
        Action.ofExcept (m.store.getAt frame 0 "this")) := by
  obtain ⟨outer, hscopes⟩ := List.head?_eq_some_iff.mp hscope
  rw [hscopes] at hchain
  obtain ⟨label, labels, e, rfl, hframe, -, hready, -⟩ := hchain.of_cons
  cases hlabel
  have hs := hsettled.linked.store
  have hbinds : w.store.binds frame "this" = true := hready "this" (by simp)
  obtain ⟨v, v', hv, hv', hlinked⟩ := hs.local?_of_binds hframe hbinds
  have hv' : m.store.local? frame "this" = some v' := hv'
  have hget : w.store.getAt frame 0 "this" = .ok v := by
    rw [getAt_of_climb rfl, hv]
  have hget' : m.store.getAt frame 0 "this" = .ok v' := by
    rw [getAt_of_climb rfl, hv']
  have hleft : (do
      let m ← Action.get
      Action.ofExcept (m.store.getAt frame 0 "this") : Run Value) w.machine = .ok v w.machine := by
    refine (Action.bind_of_ok rfl).trans ?_
    simp only [hget, Action.ofExcept]
  refine .ok ?_ ((Action.bind_of_ok rfl).trans ?_) (.refl hsettled) hlinked
  · simp only [Tracing.quietly, hleft]
  · simp only [hget', Action.ofExcept]

omit hexecute in
/-- What a call gives when its body has completed. -/
theorem result_runs {frame : FrameId} {isInitializer : Bool} {c c' : Completion}
    (hsettled : Settled ρ w m) (hchain : Chain w frame ctx.scopes labels)
    (hthis : isInitializer = true → ctx.scopes.head? = some [("this", true)] ∧
      labels.head? = some .this) :
    CompletionLinked ρ w c c' → Runs ρ none w m (ValueLinked ρ)
      (Tracing.quietly <| if isInitializer then do
          let m ← Action.get
          Action.ofExcept (m.store.getAt frame 0 "this")
        else
          match c with
          | .returning value => return value
          | _ => return .nil)
      (if isInitializer then do
          let m ← Action.get
          Action.ofExcept (m.store.getAt frame 0 "this")
        else
          match c' with
          | .returning value => return value
          | _ => return .nil) := by
  intro hc
  cases isInitializer with
  | true =>
    obtain ⟨hscope, hlabel⟩ := hthis rfl
    exact getThis_runs hsettled hchain hscope hlabel
  | false =>
    cases hc with
    | normal => exact .ok rfl rfl (.refl hsettled) (.plain trivial)
    | breaking => exact .ok rfl rfl (.refl hsettled) (.plain trivial)
    | returning hv => exact .ok rfl rfl (.refl hsettled) hv

/-- A call of a function runs its body in a new frame that binds the parameters. -/
theorem callClosure_runs {c c' : Closure} {vs vs' : List Value} (hsettled : Settled ρ w m)
    (hc : ClosureLinked ρ w c c') (hvs : ValuesLinked ρ w vs vs')
    (hlength : vs.length = c.arity) :
    Runs ρ none w m (ValueLinked ρ) (Tracing.callClosure execute c vs)
      (Running.callClosure execute' c' vs') := by
  obtain ⟨stamp, d, frame, isInitializer⟩ := c
  obtain ⟨stamp', d', frame', isInitializer'⟩ := c'
  obtain ⟨hstamp, hframe, hinitializer, ctx, labels, hcode, hchain, hthis⟩ := hc
  obtain ⟨hmade, K, routine, hcovers, hlinked, horigin⟩ := hcode
  dsimp only at hstamp hframe hinitializer hmade hlinked horigin hchain hthis
  subst hframe hinitializer
  cases hlinked with
  | @mk _ inside _ label name params body body' hparams hnames hproper hbody =>
    have hpushed : (ctx.inRoutine routine).scopes = [] :: ctx.scopes := rfl
    obtain ⟨scope, hinside, hlookup⟩ := Context.introduceAll_scopes hpushed hparams
    have hmem : ∀ p ∈ params, p.name ∈ label.names := by
      intro p hp
      rw [hnames]
      exact List.mem_append_left _ (List.mem_map_of_mem hp)
    have harity : vs.length = params.length := hlength
    have hnil : Bindings.Linked (ρ.inScope (some label)) (ValueLinked ρ w) [] [] := .nil
    obtain ⟨hb, hbound⟩ :=
      insertAll_linked hproper hvs harity hmem (by simp [Bindings.isBound]) hnil
    let b := Running.argumentBindings params vs
    have hready : ∀ x, scope.lookup x = some true ↔ b.isBound x = true := by
      intro x
      refine Iff.trans ?_ (hbound x).symm
      simp [hlookup, Bindings.isBound]
    have hdeclared : ∀ x, b.isBound x = true → x ∈ label.names := by
      intro x hx
      have hx' : x ∈ params.map (·.name) := by simpa [Bindings.isBound] using (hbound x).mp hx
      rw [hnames]
      exact List.mem_append_left _ hx'
    have hnew := Reached.newFrame hsettled hproper hb hdeclared (e := frame')
    have hsite : w.left.origins stamp = siteOf inside (label :: labels) :=
      horigin.trans (siteOf_inFunction hparams hnames)
    have hrun := Runs.inNewFrame hsettled hproper hb hdeclared CompletionLinked.lasting
      (e := frame') (x := Tracing.inSequence execute (siteOf inside (label :: labels)) body)
      (y := Running.inSequence execute' body') (by
        intro k hk
        have hlater := hnew.later.trans (later_inFrame w.labels.length)
        exact inSequence_runs hexecute hk
          (Here.inNewFrame hchain hsettled.linked.store.size hinside hready)
          (hcovers.later hlater) hbody)
    unfold Tracing.callClosure Running.callClosure
    refine .look ?_
    dsimp only
    rw [hsite]
    have hall := hrun.bind fun w' m' c c' hreached hc =>
      result_runs hreached.settled (hchain.later hreached.later) hthis hc
    rw [Action.bind_assoc, Action.bind_assoc] at hall
    exact hall

/-- A new object, on which the initializer runs if there is one. -/
theorem construct_runs {c c' : Class} {vs vs' : List Value} (hsettled : Settled ρ w m)
    (hc : ClassLinked ρ w c c') (hvs : ValuesLinked ρ w vs vs') (hlength : vs.length = c.arity) :
    Runs ρ none w m (ValueLinked ρ) (Tracing.construct execute c vs)
      (Running.construct execute' c' vs') := by
  have hobject : w.store.objects.size = m.store.objects.size :=
    hsettled.linked.store.objectsSize.symm
  have hnew := Reached.newObject hsettled hc
  unfold Tracing.construct Running.construct
  refine EndsAlike.bind (R := fun w' o o' => ClassLinked ρ w' c c' ∧ o' = o)
    (Runs.ok rfl rfl hnew ⟨hc.later hnew.later, hobject.symm⟩) ?_
  rintro w' m' o o' hreached ⟨hc, rfl⟩
  unfold Class.initializer?
  obtain ⟨hf, hf'⟩ | ⟨f, f', hf, hf', hlinked⟩ := hc.method? "init"
  · rw [hf, hf']
    exact .pure hreached.settled .object
  · rw [hf, hf']
    dsimp only
    refine .look ?_
    obtain ⟨hbound, hclosure⟩ := Reached.bindMethod hreached.settled hlinked o'
    have harity : vs.length = f.arity := by
      rw [hlength, Class.arity, Class.initializer?, hf]
      rfl
    have hcall := callClosure_runs hexecute hbound.settled hclosure
      ((hvs.later hreached.later).later hbound.later) harity
    have hobject := hcall.bind (S := ValueLinked ρ) fun w'' m'' _ _ hreached _ =>
      Runs.pure hreached.settled (ValueLinked.object (o := o'))
    exact EndsAlike.earlier hobject hbound

theorem apply_runs {v v' : Value} {vs vs' : List Value} (hsettled : Settled ρ w m)
    (hv : ValueLinked ρ w v v') (hvs : ValuesLinked ρ w vs vs') (harity : v.arity? = some vs.length) :
    Runs ρ none w m (ValueLinked ρ) (Tracing.apply execute v vs)
      (Running.apply execute' v' vs') := by
  cases hv with
  | plain hplain => cases v <;> first | exact .pure hsettled (.plain trivial) | contradiction
  | clock => exact callClock_runs hsettled vs vs'
  | function hc => exact callClosure_runs hexecute hsettled hc hvs (Option.some.inj harity).symm
  | ofClass hc => exact construct_runs hexecute hsettled hc hvs (Option.some.inj harity).symm
  | object => cases harity

/-- A call of any value, with its checks. -/
theorem call_runs {v v' : Value} {vs vs' : List Value} (line : Nat) (hsettled : Settled ρ w m)
    (hv : ValueLinked ρ w v v') (hvs : ValuesLinked ρ w vs vs') :
    Runs ρ none w m (ValueLinked ρ) (Tracing.call execute v vs line)
      (Running.call execute' v' vs' line) := by
  unfold Tracing.call Running.call
  rw [hv.resembles.arity?, hvs.length_eq]
  cases harity : v.arity? with
  | none => exact .error (e := .notCallable line) hsettled (by simp) rfl rfl
  | some arity =>
    dsimp only
    by_cases hlength : vs.length = arity
    · rw [if_neg (by simpa using hlength), if_neg (by simpa using hlength)]
      refine .get ?_
      rw [hsettled.linked.maxDepth, hsettled.linked.depth]
      by_cases hdepth : w.machine.maxDepth ≤ w.machine.depth
      · rw [if_pos hdepth, if_pos hdepth]
        exact .error (e := .stackOverflow line) hsettled (by simp) rfl rfl
      · rw [if_neg hdepth, if_neg hdepth]
        refine Runs.oneDeeper hsettled ValueLinked.lasting fun w' m' hreached => ?_
        have harity' : v.arity? = some vs.length := by rw [harity, hlength]
        exact apply_runs hexecute hreached.settled (hv.later hreached.later)
          (hvs.later hreached.later) harity'
    · rw [if_pos hlength, if_pos hlength]
      exact .error (e := .arityMismatch arity vs.length line) hsettled (by simp) rfl rfl

end

end LoxLang
