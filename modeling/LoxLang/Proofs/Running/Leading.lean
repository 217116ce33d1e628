import LoxLang.Proofs.Running.Receivers

/-!
# Where the steps of a run lead

* `Leads`: from a machine a run leads to an upright one, with a value of which something holds;
* `Leads.bind`: two runs in a row;
* `Reaches.define`, `Reaches.newFrame`, `Reaches.newStamps`, …: what changes of the store lead to;
* `lookUp_leads`, `assign_leads`, …: the same for the steps of a run that go by this store.
-/

namespace LoxLang

variable {α β : Type} {nodes : List (Spot × Node)} {aside : List Expr} {t t' : Staged}

/-- However the run ends, it leads to an upright machine, and the value it gives is as it should.
A staged run keeps its record when its fuel runs out, so it never ends without a machine. -/
def Leads (nodes : List (Spot × Node)) (aside : List Expr) (t : Staged) (x : Staging α)
    (Q : α → Staged → Prop) : Prop :=
  match x t with
  | .ok a t' => Reaches nodes aside t t' ∧ Q a t'
  | .error _ t' => Reaches nodes aside t t'
  | .outOfFuel => False

namespace Leads

variable {Q : α → Staged → Prop} {Q' : β → Staged → Prop} {x : Staging α} {f : α → Staging β}

theorem ok {a : α} (hx : x t = .ok a t') (hreach : Reaches nodes aside t t') (ha : Q a t') :
    Leads nodes aside t x Q := by
  unfold Leads
  rw [hx]
  exact ⟨hreach, ha⟩

theorem error {e : Stop} (hx : x t = .error e t') (hreach : Reaches nodes aside t t') :
    Leads nodes aside t x Q := by
  unfold Leads
  rw [hx]
  exact hreach

theorem pure {a : α} (h : Upright nodes aside t) (ha : Q a t) :
    Leads nodes aside t (Pure.pure a) Q := .ok rfl (.refl h) ha

theorem fail {e : Stop} (h : Upright nodes aside t) :
    Leads nodes aside t (Action.fail e : Staging α) Q := .error rfl (.refl h)

theorem outOfFuel (h : Upright nodes aside t) :
    Leads nodes aside t (Staging.outOfFuel : Staging α) Q := .fail h

/-- What follows on a first step. -/
theorem behind (hreach : Reaches nodes aside t t') (h : Leads nodes aside t' x Q)
    {y : Staging α} (hy : y t = x t') : Leads nodes aside t y Q := by
  unfold Leads at h ⊢
  rw [hy]
  cases hx : x t' with
  | ok a t'' =>
    rw [hx] at h
    exact ⟨hreach.trans h.1, h.2⟩
  | error e t'' =>
    rw [hx] at h
    exact hreach.trans h
  | outOfFuel =>
    rw [hx] at h
    exact h

theorem bind (hx : Leads nodes aside t x Q)
    (hf : ∀ a t', Reaches nodes aside t t' → Q a t' → Leads nodes aside t' (f a) Q') :
    Leads nodes aside t (x >>= f) Q' := by
  unfold Leads at hx
  cases hxt : x t with
  | ok a t' =>
    rw [hxt] at hx
    exact (hf a t' hx.1 hx.2).behind hx.1 (Action.bind_of_ok hxt)
  | error e t' =>
    rw [hxt] at hx
    exact .error (Action.bind_of_error hxt) hx
  | outOfFuel =>
    rw [hxt] at hx
    exact hx.elim

theorem imp {Q' : α → Staged → Prop} (hx : Leads nodes aside t x Q)
    (h : ∀ a t', Reaches nodes aside t t' → Q a t' → Q' a t') : Leads nodes aside t x Q' := by
  unfold Leads at hx ⊢
  cases hxt : x t with
  | ok a t' =>
    rw [hxt] at hx
    exact ⟨hx.1, h a t' hx.1 hx.2⟩
  | error e t' =>
    rw [hxt] at hx
    exact hx
  | outOfFuel =>
    rw [hxt] at hx
    exact hx

/-- A look at the machine and the record. -/
theorem get {f : Staged → Staging α} (h : Leads nodes aside t (f t) Q) :
    Leads nodes aside t (Action.get >>= f) Q := by
  unfold Leads at *
  exact h

/-- A step that changes the record only. -/
theorem record {g : Staged → Staged} {x : Staging β} (hreach : Reaches nodes aside t (g t))
    (hx : Leads nodes aside (g t) x Q') :
    Leads nodes aside t (Action.modify g >>= fun _ => x) Q' := hx.behind hreach rfl

/-! ## Steps that are not recorded -/

/-- Two of them in a row. -/
theorem quietly_bind {x : Run α} {f : α → Run β} (h : Upright nodes aside t)
    (hx : Leads nodes aside t (Staging.quietly x) Q)
    (hf : ∀ a t', Reaches nodes aside t t' → Q a t' →
      Leads nodes aside t' (Staging.quietly (f a)) Q') :
    Leads nodes aside t (Staging.quietly (x >>= f)) Q' := by
  unfold Leads at hx
  cases hxm : x t.machine with
  | ok a m =>
    have hquiet : Staging.quietly x t = .ok a { t with machine := m } := by
      simp only [Staging.quietly, hxm]
    rw [hquiet] at hx
    have hthen := hf a _ hx.1 hx.2
    cases hfm : f a m with
    | outOfFuel =>
      have hstop : Staging.quietly (x >>= f) t = .error .outOfFuel t := by
        simp only [Staging.quietly, Action.bind_of_ok hxm, hfm]
      exact .error hstop (.refl h)
    | ok b m' =>
      refine hthen.behind hx.1 ?_
      simp only [Staging.quietly, Action.bind_of_ok hxm, hfm]
    | error e m' =>
      refine hthen.behind hx.1 ?_
      simp only [Staging.quietly, Action.bind_of_ok hxm, hfm]
  | error e m =>
    have hquiet : Staging.quietly x t = .error (.failure e) { t with machine := m } := by
      simp only [Staging.quietly, hxm]
    rw [hquiet] at hx
    have hstop : Staging.quietly (x >>= f) t = .error (.failure e) { t with machine := m } := by
      simp only [Staging.quietly, Action.bind_of_error hxm]
    exact .error hstop hx
  | outOfFuel =>
    have hstop : Staging.quietly (x >>= f) t = .error .outOfFuel t := by
      simp only [Staging.quietly, Action.bind_of_outOfFuel hxm]
    exact .error hstop (.refl h)

theorem quietly_get {f : Machine → Run α}
    (h : Leads nodes aside t (Staging.quietly (f t.machine)) Q) :
    Leads nodes aside t (Staging.quietly (Action.get >>= f)) Q := by
  unfold Leads at *
  exact h

/-- One that changes the store only. -/
theorem onStore {f : DistanceTable → FrameId → Store → Except RuntimeError (α × Store)}
    (h : Upright nodes aside t)
    (hf : ∀ a s, f t.machine.distances t.machine.frame t.machine.store = .ok (a, s) →
      Reaches nodes aside t (t.withStore s) ∧ Q a (t.withStore s)) :
    Leads nodes aside t (Staging.quietly (Run.onStore f)) Q := by
  cases hft : f t.machine.distances t.machine.frame t.machine.store with
  | ok r =>
    obtain ⟨a, s⟩ := r
    obtain ⟨hreach, ha⟩ := hf a s hft
    refine .ok ?_ hreach ha
    simp only [Staging.quietly, Run.onStore, hft]
    rfl
  | error e =>
    have hstop : Staging.quietly (Run.onStore f) t = .error (.failure e) t := by
      simp only [Staging.quietly, Run.onStore, hft]
    exact .error hstop (.refl h)

theorem make {f : Store → α × Store}
    (hreach : Reaches nodes aside t (t.withStore (f t.machine.store).2))
    (ha : Q (f t.machine.store).1 (t.withStore (f t.machine.store).2)) :
    Leads nodes aside t (Staging.quietly (Run.make f)) Q := .ok rfl hreach ha

end Leads

/-! ## Changes of the store -/

namespace Reaches

/-- A machine that differs in more than its store and its record. -/
theorem withMachine (h : Upright nodes aside t) {m : Machine}
    (hstore : m.store = t.machine.store) (hdistances : m.distances = t.machine.distances)
    (hframe : m.frame = t.machine.frame) : Reaches nodes aside t { t with machine := m } := by
  have hgrows : Grows t { t with machine := m } := .sameStore hstore rfl
  exact ⟨h.sameStore hgrows ⟨hdistances, rfl, rfl⟩ hstore, hgrows, hframe, hdistances⟩

theorem define {f : FrameId} {name : String} {v : Value} (h : Upright nodes aside t)
    (hname : name ≠ "this") (hv : ValueHeld nodes t v) :
    Reaches nodes aside t (t.withStore (t.machine.store.define f name v)) := by
  have hgrows : Grows t (t.withStore (t.machine.store.define f name v)) := by
    constructor
    · intro g e hg
      exact Store.enclosing_define.trans hg
    · intro g w hg
      exact (Store.local?_define_of_ne hname).trans hg
    · exact fun _ _ hc => hc
    · exact Nat.le_refl _
    · exact fun _ _ => rfl
  refine ⟨h.later hgrows ⟨rfl, rfl, rfl⟩ ?_ (fun _ _ _ => .inl) (fun _ _ => .inl), hgrows, rfl, rfl⟩
  intro g x w hw
  obtain rfl | hw := Store.local?_define hw
  · exact .inr (hv.later hgrows)
  · exact .inl hw

theorem newFrame {bindings : Bindings Value} (h : Upright nodes aside t)
    (enclosing : Option FrameId)
    (hb : ∀ name v, bindings.find? name = some v → ValueHeld nodes t v) :
    Reaches nodes aside t (t.withStore (t.machine.store.newFrame enclosing bindings).2) := by
  have hgrows : Grows t (t.withStore (t.machine.store.newFrame enclosing bindings).2) := by
    constructor
    · exact fun _ _ hf => Store.enclosing?_newFrame_of_some hf
    · exact fun _ _ hf => Store.local?_newFrame_of_some hf
    · exact fun _ _ hc => hc
    · exact Nat.le_refl _
    · exact fun _ _ => rfl
  refine ⟨h.later hgrows ⟨rfl, rfl, rfl⟩ ?_ (fun _ _ _ => .inl) (fun _ _ => .inl), hgrows, rfl, rfl⟩
  intro g x w hw
  obtain hw | hw := Store.local?_newFrame hw
  · exact .inr ((hb x w hw).later hgrows)
  · exact .inl hw

theorem newObject {c : Class} (h : Upright nodes aside t) (hc : ClassHeld nodes t c) :
    Reaches nodes aside t (t.withStore (t.machine.store.newObject c).2) := by
  have hgrows : Grows t (t.withStore (t.machine.store.newObject c).2) := by
    constructor
    · exact fun _ _ hf => hf
    · exact fun _ _ hf => hf
    · exact fun _ _ ho => Store.class?_newObject_of_some ho
    · exact Nat.le_refl _
    · exact fun _ _ => rfl
  refine ⟨h.later hgrows ⟨rfl, rfl, rfl⟩ (fun _ _ _ => .inl)
    (fun _ _ _ hv => .inl (Store.field?_newObject hv)) ?_, hgrows, rfl, rfl⟩
  intro o c' ho
  obtain rfl | ho := Store.class?_newObject ho
  · exact .inr (hc.later hgrows)
  · exact .inl ho

theorem setField {o : ObjectId} {name : String} {v : Value} (h : Upright nodes aside t)
    (hv : ValueHeld nodes t v) :
    Reaches nodes aside t (t.withStore (t.machine.store.setField o name v)) := by
  have hgrows : Grows t (t.withStore (t.machine.store.setField o name v)) := by
    constructor
    · exact fun _ _ hf => hf
    · exact fun _ _ hf => hf
    · exact fun _ _ ho => Store.class?_setField.trans ho
    · exact Nat.le_refl _
    · exact fun _ _ => rfl
  refine ⟨h.later hgrows ⟨rfl, rfl, rfl⟩ (fun _ _ _ => .inl) ?_
    (fun _ _ ho => .inl (Store.class?_setField.symm.trans ho)), hgrows, rfl, rfl⟩
  intro o' x w hw
  obtain rfl | hw := Store.field?_setField hw
  · exact .inr (hv.later hgrows)
  · exact .inl hw

/-- Stamps are used up. -/
theorem newStamps (h : Upright nodes aside t) (n : Nat) :
    Reaches nodes aside t (t.withStore
      { t.machine.store with nextStamp := t.machine.store.nextStamp + n }) := by
  have hgrows : Grows t (t.withStore
      { t.machine.store with nextStamp := t.machine.store.nextStamp + n }) := by
    constructor
    · exact fun _ _ hf => hf
    · exact fun _ _ hf => hf
    · exact fun _ _ hc => hc
    · exact Nat.le_add_right _ _
    · exact fun _ _ => rfl
  exact ⟨h.later hgrows ⟨rfl, rfl, rfl⟩ (fun _ _ _ => .inl) (fun _ _ _ => .inl) (fun _ _ => .inl),
    hgrows, rfl, rfl⟩

/-! ## Changes of the record -/

theorem stage (h : Upright nodes aside t) (scene : Scene) :
    Reaches nodes aside t (t.stage scene) := by
  have hgrows : Grows t (t.stage scene) := by
    constructor
    · exact fun _ _ hf => hf
    · exact fun _ _ hf => hf
    · exact fun _ _ hc => hc
    · exact Nat.le_refl _
    · exact fun _ hstamp => if_pos hstamp
  exact ⟨h.sameStore hgrows ⟨rfl, rfl, rfl⟩ rfl, hgrows, rfl, rfl⟩

theorem enter {scene : Scene} {e : Expr} (h : Upright nodes aside t)
    (he : ∀ id line, e = .this id line →
      e ∈ aside ∨ (Entrance.mk scene e t.machine t.scenes).Receives nodes id line) :
    Reaches nodes aside t
      { t with entrances := ⟨scene, e, t.machine, t.scenes⟩ :: t.entrances } := by
  refine ⟨h.recorded (List.forall_mem_cons.mpr ⟨⟨rfl, he⟩, h.entrances⟩) h.endings, ?_, rfl, rfl⟩
  exact .sameStore rfl rfl

theorem conclude {ending : Ending} (h : Upright nodes aside t) (hcalm : ending.IsCalm) :
    Reaches nodes aside t { t with endings := ending :: t.endings } := by
  refine ⟨h.recorded h.entrances (List.forall_mem_cons.mpr ⟨hcalm, h.endings⟩), ?_, rfl, rfl⟩
  exact .sameStore rfl rfl

end Reaches

/-! ## Steps that go by the store -/

/-- Whatever is read is held. -/
theorem Upright.getAt (h : Upright nodes aside t) {f : FrameId} {d : Nat} {name : String}
    {v : Value} (hv : t.machine.store.getAt f d name = .ok v) : ValueHeld nodes t v := by
  obtain ⟨b, -, hlocal⟩ := Store.local?_of_getAt hv
  exact h.locals b name v hlocal

theorem Upright.get (h : Upright nodes aside t) {f : FrameId} {name : String} {line : Nat}
    {v : Value} (hv : t.machine.store.get f name line = .ok v) : ValueHeld nodes t v := by
  obtain ⟨b, -, hlocal⟩ := Store.local?_of_get hv
  exact h.locals b name v hlocal

section
variable {Q : Unit → Staged → Prop}

theorem lookUp_leads (h : Upright nodes aside t) (id : NodeId) (name : String) (line : Nat) :
    Leads nodes aside t (Staging.quietly (Run.lookUp id name line))
      fun v t' => ValueHeld nodes t' v := by
  rw [Run.lookUp_eq]
  refine .onStore h fun v s hv => ?_
  cases hfound : Run.found id name line t.machine.distances t.machine.frame t.machine.store with
  | error e =>
    rw [hfound] at hv
    cases hv
  | ok w =>
    rw [hfound] at hv
    cases hv
    refine ⟨.refl h, ?_⟩
    unfold Run.found at hfound
    split at hfound
    · exact h.getAt hfound
    · exact h.get hfound

theorem assign_leads (h : Upright nodes aside t) (id : NodeId) {name : Identifier} {v : Value}
    (hname : name.name ≠ "this") (hv : ValueHeld nodes t v) :
    Leads nodes aside t (Staging.quietly (Run.assign id name v)) fun _ _ => True := by
  rw [Run.assign_eq]
  refine .onStore h fun _ s hs => ?_
  cases htarget : Run.target id name t.machine.distances t.machine.frame t.machine.store with
  | error e =>
    rw [htarget] at hs
    cases hs
  | ok f =>
    rw [htarget] at hs
    cases hs
    exact ⟨.define h hname hv, trivial⟩

theorem define_leads (h : Upright nodes aside t) {name : String} {v : Value}
    (hname : name ≠ "this") (hv : ValueHeld nodes t v) :
    Leads nodes aside t (Staging.quietly (Run.define name v)) fun _ _ => True :=
  .ok rfl (.define h hname hv) trivial

theorem setField_leads (h : Upright nodes aside t) (o : ObjectId) (name : String) {v : Value}
    (hv : ValueHeld nodes t v) :
    Leads nodes aside t (Staging.quietly (Run.modifyStore (·.setField o name v)))
      fun _ _ => True :=
  .ok rfl (.setField h hv) trivial

theorem write_leads (h : Upright nodes aside t) (text : String) :
    Leads nodes aside t (Staging.quietly (Run.write text)) fun _ _ => True := by
  by_cases hempty : text.isEmpty = true
  · have hnothing : Staging.quietly (Run.write text) t = .ok () t := by
      simp only [Staging.quietly, Run.write, if_pos hempty]
    exact .ok hnothing (.refl h) trivial
  · cases hrefusal : t.machine.output.refusal? t.machine.output.written with
    | some reason =>
      have hrefused : Staging.quietly (Run.write text) t
          = .error (.failure (.output reason)) t := by
        simp only [Staging.quietly, Run.write, if_neg hempty, hrefusal]
      exact .error hrefused (.refl h)
    | none =>
      let output := { t.machine.output with written := t.machine.output.written ++ text }
      have hwritten : Staging.quietly (Run.write text) t
          = .ok () { t with machine := { t.machine with output } } := by
        simp only [Staging.quietly, Run.write, if_neg hempty, hrefusal]
        rfl
      exact .ok hwritten (.withMachine h rfl rfl rfl) trivial

theorem printLine_leads (h : Upright nodes aside t) (v : Value) :
    Leads nodes aside t (Staging.quietly (Run.printLine v)) fun _ _ => True := by
  rw [Run.printLine_eq]
  refine .quietly_bind h (.onStore h (Q := fun _ _ => True) fun _ s hs => ?_) fun text t' hreach _ =>
    .quietly_bind hreach.upright (write_leads hreach.upright text) fun _ t'' hreach' _ =>
      write_leads hreach'.upright "\n"
  cases hs
  exact ⟨.refl h, trivial⟩

theorem ofExcept_leads {x : Except RuntimeError α} {Q : α → Staged → Prop}
    (h : Upright nodes aside t) (hQ : ∀ a, x = .ok a → Q a t) :
    Leads nodes aside t (Staging.quietly (Action.ofExcept x)) Q := by
  cases x with
  | ok a => exact .ok rfl (.refl h) (hQ a rfl)
  | error e => exact .error rfl (.refl h)

theorem callClock_leads (h : Upright nodes aside t) (arguments : List Value) :
    Leads nodes aside t (Staging.quietly (Running.callNative .clock arguments))
      fun v t' => ValueHeld nodes t' v := by
  have hcall : Staging.quietly (Running.callNative .clock arguments) t
      = .ok (.number (t.machine.host.clock t.machine.readings))
        { t with machine := { t.machine with readings := t.machine.readings + 1 } } := rfl
  exact .ok hcall (.withMachine h rfl rfl rfl) trivial

theorem newFrame_leads {bindings : Bindings Value} (h : Upright nodes aside t)
    (enclosing : Option FrameId)
    (hb : ∀ name v, bindings.find? name = some v → ValueHeld nodes t v) :
    Leads nodes aside t (Staging.quietly (Run.make (·.newFrame enclosing bindings)))
      fun frame t' => t'.machine.store.enclosing? frame = enclosing := by
  refine .make (.newFrame h enclosing hb) ?_
  change (Store.frame _ _).enclosing = enclosing
  exact congrArg Frame.enclosing Store.frame_newFrame_new

theorem newObject_leads {c : Class} (h : Upright nodes aside t) (hc : ClassHeld nodes t c) :
    Leads nodes aside t (Staging.quietly (Run.make (·.newObject c)))
      fun o t' => t'.machine.store.class? o = some c :=
  .make (.newObject h hc) Store.class?_newObject_self

/-- A function that is made stands where its declaration does. -/
theorem newClosure_leads {d : FunctionDecl} {spot : Spot} {frame : FrameId} {isInitializer : Bool}
    {scene : Scene} (h : Upright nodes aside t) (hawaits : t.Awaits scene)
    (hstands : t.Stands spot scene frame)
    (hwritten : ∀ stamp, (Closure.mk stamp d frame isInitializer).WrittenAt nodes spot) :
    Leads nodes aside t (Staging.quietly (Run.make (·.newClosure d frame isInitializer)))
      fun f t' => FunctionHeld nodes t' f := by
  have hreach := Reaches.newStamps h 1
  refine .make hreach ⟨Nat.lt_succ_self _, spot, hwritten _, ?_⟩
  change Staged.Stands _ spot (t.scenes t.machine.store.nextStamp) frame
  rw [hawaits _ (Nat.le_refl _)]
  exact hstands.later hreach.grows

/-- A class that is made is one of its statement, and so are its methods. -/
theorem newClass_leads {decl : ClassDecl} {spot : Spot} (h : Upright nodes aside t)
    (hawaits : t.Awaits ⟨none, some decl⟩)
    (hmethods : FunctionDecl.allSpotted (spot.inClassBody decl) decl.methods ⊆ nodes) :
    Leads nodes aside t
      (Staging.quietly (Run.onStore fun _ frame s =>
        .ok (s.newClass decl.name.name decl.methods frame)))
      fun c t' => ClassHeld nodes t' c := by
  refine .onStore h fun c s hs => ?_
  rw [Store.newClass_eq] at hs
  cases hs
  have hclass : ∀ stamp, t.machine.store.nextStamp ≤ stamp →
      (t.scenes stamp).classAround = some decl := by
    intro stamp hstamp
    rw [hawaits stamp hstamp]
  refine ⟨.newStamps h _, Nat.add_lt_add_left (Nat.lt_succ_self _) _, decl,
    hclass _ (Nat.le_add_right _ _), fun name f hf => ?_⟩
  obtain hnone | ⟨hge, hlt, hmem, -, hinit⟩ := Store.find?_methodsFrom hf
  · cases hnone
  · refine ⟨Nat.lt_trans hlt (Nat.add_lt_add_left (Nat.lt_succ_self _) _), hclass _ hge, spot,
      f.declaration.routine, List.Subset.trans (FunctionDecl.spotted_subset hmem) hmethods,
      fun hisInit => ?_⟩
    rw [hinit] at hisInit
    exact if_pos hisInit

/-- A function that is declared. -/
theorem declareFunction_leads {f : FunctionDecl} {spot : Spot} {scene : Scene}
    (h : Upright nodes aside t) (hstands : t.Stands spot scene t.machine.frame)
    (hname : f.name.name ≠ "this") (hf : f.spotted spot .ordinary ⊆ nodes) :
    Leads nodes aside t (Staging.declareFunction scene f) fun _ _ => True := by
  have hstage := Reaches.stage h scene
  refine .record hstage (.quietly_get ?_)
  refine .quietly_bind hstage.upright (newClosure_leads hstage.upright (t.awaits_stage scene)
    (hstands.later hstage.grows) fun _ => ⟨.ordinary, hf, nofun⟩) fun closure t' hreach hheld => ?_
  exact define_leads hreach.upright hname hheld

/-- A class that is declared. Its name is bound twice, to nothing before it is made. -/
theorem declareClass_leads {name : Identifier} {methods : List FunctionDecl} {spot : Spot}
    (h : Upright nodes aside t) (hname : name.name ≠ "this")
    (hmethods : FunctionDecl.allSpotted (spot.inClassBody ⟨name, methods⟩) methods ⊆ nodes) :
    Leads nodes aside t (Staging.declareClass name methods) fun _ _ => True := by
  let scene : Scene := ⟨none, some ⟨name, methods⟩⟩
  have hstage := Reaches.stage h scene
  refine .record hstage ?_
  rw [Running.declareClass_eq]
  have hdefine : Leads nodes aside (t.stage scene)
      (Staging.quietly (Run.define name.name .nil)) fun _ t' => t'.Awaits scene :=
    .ok rfl (.define hstage.upright hname trivial) (t.awaits_stage scene)
  refine .quietly_bind hstage.upright hdefine fun _ t₁ hreach₁ hawaits => ?_
  refine .quietly_bind hreach₁.upright (newClass_leads hreach₁.upright hawaits hmethods)
    fun c t₂ hreach₂ hc => .onStore hreach₂.upright fun _ s hs => ?_
  cases hassignee : t₂.machine.store.assignee t₂.machine.frame name.name name.line with
  | error e =>
    rw [hassignee] at hs
    cases hs
  | ok f =>
    rw [hassignee] at hs
    cases hs
    exact ⟨.define hreach₂.upright hname hc, trivial⟩

end

end LoxLang
