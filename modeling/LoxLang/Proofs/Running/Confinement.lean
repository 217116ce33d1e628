import Mathlib
import LoxLang.Proofs.Running.History
import LoxLang.Proofs.Running.Places
import LoxLang.Proofs.Running.Values

/-!
# Effects stay within reach

A run gets hold of frames and objects by its current frame and the global variables only. So it
leaves alone whatever cannot be reached from these.

* `Host.IsConfined`: the functions of the host go by their arguments and the global variables;
* `Stays`: a run that works in a region, and leaves everything outside of it as it was;
* `Stays.bind`, `Stays.inFrame`, …: the same for what runs are put together from;
* `runs_stay`: every run stays in every region that is sealed;
* `unreachable_untouched`: a run has no effect on what cannot be reached when it starts.
-/

namespace LoxLang

open Running
open Store (Sealed Spared)

/-- What the functions of the host give back leads where their arguments and the global variables
lead. -/
def Host.IsConfined (host : Host) : Prop :=
  ∀ f s arguments v, host.call f s arguments = .ok v → ∀ q ∈ v.places,
    ∃ p, (p = .frame globals ∨ ∃ a ∈ arguments, p ∈ a.places) ∧ s.LeadsTo p q

/-- The machine works in the region. -/
structure Machine.WorksIn (region : Place → Prop) (m : Machine) : Prop where
  store : m.store.Sealed region
  frame : region (.frame m.frame)
  host : m.host.IsConfined

/-- What the run leads to, if it started on `m`. -/
structure Machine.StaysIn (region : Place → Prop) (m m' : Machine) : Prop where
  worksIn : m'.WorksIn region
  spared : Spared region m.store m'.store

variable {region : Place → Prop} {α β : Type}

namespace Machine.StaysIn

variable {m m' m'' : Machine}

theorem refl (h : m.WorksIn region) : m.StaysIn region m := ⟨h, .refl region m.store⟩

theorem trans (h : m.StaysIn region m') (h' : m'.StaysIn region m'') : m.StaysIn region m'' :=
  ⟨h'.worksIn, h.spared.trans h'.spared⟩

end Machine.StaysIn

/-- However the run ends, it has worked in the region only, and the value it gives is as it
should. -/
def Stays (region : Place → Prop) (Q : α → Prop) (x : Run α) : Prop :=
  ∀ m, m.WorksIn region →
    match x m with
    | .ok a m' => m.StaysIn region m' ∧ Q a
    | .error _ m' => m.StaysIn region m'
    | .outOfFuel => True

/-- A completion leads into the region only. -/
def Completion.Inside (region : Place → Prop) (c : Completion) : Prop :=
  ∀ v, c = .returning v → v.Inside region

/-- The values lead into the region only. -/
def AllInside (region : Place → Prop) (vs : List Value) : Prop := ∀ v ∈ vs, v.Inside region

namespace Stays

variable {Q : α → Prop} {Q' : β → Prop} {x : Run α} {f : α → Run β}

theorem state (h : Stays region Q x) {m m' : Machine} (hm : m.WorksIn region)
    (hx : (x m).state? = some m') : m.StaysIn region m' := by
  have hxm := h m hm
  cases hout : x m with
  | ok a m₁ =>
    rw [hout] at hx hxm
    cases hx
    exact hxm.1
  | error e m₁ =>
    rw [hout] at hx hxm
    cases hx
    exact hxm
  | outOfFuel =>
    rw [hout] at hx
    cases hx

theorem outOfFuel : Stays region Q (Action.outOfFuel : Run α) := fun _ _ => trivial

theorem bind (hx : Stays region Q x) (hf : ∀ a, Q a → Stays region Q' (f a)) :
    Stays region Q' (x >>= f) := by
  intro m hm
  have hxm := hx m hm
  cases hout : x m with
  | ok a m₁ =>
    rw [hout] at hxm
    obtain ⟨hstays, ha⟩ := hxm
    have hfm := hf a ha m₁ hstays.worksIn
    rw [Action.bind_of_ok hout]
    cases hout' : f a m₁ with
    | ok b m₂ =>
      rw [hout'] at hfm
      exact ⟨hstays.trans hfm.1, hfm.2⟩
    | error e m₂ =>
      rw [hout'] at hfm
      exact hstays.trans hfm
    | outOfFuel => trivial
  | error e m₁ =>
    rw [hout] at hxm
    rw [Action.bind_of_error hout]
    exact hxm
  | outOfFuel =>
    rw [Action.bind_of_outOfFuel hout]
    trivial

/-- A step that changes the store only. -/
theorem onStore {g : DistanceTable → FrameId → Store → Except RuntimeError (α × Store)}
    (h : ∀ d frame s a s', s.Sealed region → region (.frame frame) → g d frame s = .ok (a, s') →
      s'.Sealed region ∧ Spared region s s' ∧ Q a) : Stays region Q (Run.onStore g) := by
  intro m hm
  unfold Run.onStore
  cases hg : g m.distances m.frame m.store with
  | ok r =>
    obtain ⟨a, s⟩ := r
    obtain ⟨hsealed, hspared, ha⟩ := h _ _ _ _ _ hm.store hm.frame hg
    exact ⟨⟨⟨hsealed, hm.frame, hm.host⟩, hspared⟩, ha⟩
  | error e => exact .refl hm

theorem make {g : Store → α × Store}
    (h : ∀ s, s.Sealed region → (g s).2.Sealed region ∧ Spared region s (g s).2 ∧ Q (g s).1) :
    Stays region Q (Run.make g) :=
  .onStore (g := fun _ _ s => .ok (g s)) fun _ _ s _ _ hs _ hg => by
    have hs' := h s hs
    rw [Except.ok.inj hg] at hs'
    exact hs'

/-- A step that only reads the store. -/
theorem reads {g : DistanceTable → FrameId → Store → Except RuntimeError α}
    (h : ∀ d frame s a, s.Sealed region → region (.frame frame) → g d frame s = .ok a → Q a) :
    Stays region Q (Run.onStore fun d frame s => (g d frame s).map (·, s)) := by
  refine .onStore fun d frame s a s' hs hframe hg => ?_
  cases hfound : g d frame s with
  | ok _ =>
    rw [hfound] at hg
    cases hg
    exact ⟨hs, .refl region s, h d frame s a hs hframe hfound⟩
  | error e =>
    rw [hfound] at hg
    cases hg

/-- A step that binds a value in the frame that it finds. -/
theorem binds {find : DistanceTable → FrameId → Store → Except RuntimeError FrameId}
    {name : String} {v : Value} (hv : v.Inside region)
    (h : ∀ d frame s f, s.Sealed region → region (.frame frame) → find d frame s = .ok f →
      region (.frame f)) :
    Stays region (fun _ => True)
      (Run.onStore fun d frame s => (find d frame s).map fun f => ((), s.define f name v)) := by
  refine .onStore fun d frame s a s' hs hframe hg => ?_
  cases hfound : find d frame s with
  | ok f =>
    rw [hfound] at hg
    cases hg
    exact ⟨hs.define hv, .define (h d frame s f hs hframe hfound) name v, trivial⟩
  | error e =>
    rw [hfound] at hg
    cases hg

theorem pure {a : α} (ha : Q a) : Stays region Q (Pure.pure a : Run α) :=
  fun _ hm => ⟨.refl hm, ha⟩

theorem fail (e : RuntimeError) : Stays region Q (Action.fail e : Run α) := fun _ hm => .refl hm

theorem ofExcept {r : Except RuntimeError α} (h : ∀ a, r = .ok a → Q a) :
    Stays region Q (Action.ofExcept r) := by
  cases r with
  | ok a => exact pure (h a rfl)
  | error e => exact fail e

theorem write (text : String) : Stays region (fun _ => True) (Run.write text) := by
  intro m hm
  unfold Run.write
  split
  · rename_i m' heq
    split at heq
    · cases heq
      exact ⟨.refl hm, trivial⟩
    · split at heq <;> cases heq
      exact ⟨⟨⟨hm.store, hm.frame, hm.host⟩, .refl region m.store⟩, trivial⟩
  · rename_i heq
    split at heq
    · cases heq
    · split at heq <;> cases heq
      exact .refl hm
  · trivial

/-- A function of the host gives back nothing from outside of the region. -/
theorem callNative (f : Native) {arguments : List Value} (harguments : AllInside region arguments) :
    Stays region (Value.Inside region) (callNative f arguments) := by
  intro m hm
  unfold Running.callNative
  by_cases hclock : f = .clock
  · rw [if_pos hclock]
    exact ⟨⟨⟨hm.store, hm.frame, hm.host⟩, .refl region m.store⟩, fun _ hp => nomatch hp⟩
  · rw [if_neg hclock]
    cases hcall : m.host.call f m.store arguments with
    | ok v =>
      refine ⟨.refl hm, fun q hq => ?_⟩
      obtain ⟨p, hp, hreaches⟩ := hm.host f m.store arguments v hcall q hq
      refine hreaches.inside ?_ hm.store.closed
      obtain rfl | ⟨a, ha, hpa⟩ := hp
      · exact hm.store.globals
      · exact harguments a ha p hpa
    | error message => exact .refl hm

/-- The other frame is one of the region, and so is the current one, which is set back. -/
theorem inFrame {frame : FrameId} (hframe : region (.frame frame)) (hx : Stays region Q x) :
    Stays region Q (Run.inFrame frame x) := by
  intro m hm
  have hxm := hx { m with frame } ⟨hm.store, hframe, hm.host⟩
  rw [Run.inFrame_apply]
  cases hout : x { m with frame } with
  | ok a m₁ =>
    rw [hout] at hxm
    obtain ⟨⟨hworks, hspared⟩, ha⟩ := hxm
    exact ⟨⟨⟨hworks.store, hm.frame, hworks.host⟩, hspared⟩, ha⟩
  | error e m₁ =>
    rw [hout] at hxm
    exact ⟨⟨hxm.worksIn.store, hm.frame, hxm.worksIn.host⟩, hxm.spared⟩
  | outOfFuel => trivial

theorem ifRoom (line : Nat) (hx : Stays region Q x) : Stays region Q (Run.ifRoom line x) := by
  intro m hm
  unfold Run.ifRoom
  by_cases hfull : m.maxDepth ≤ m.depth
  · rw [if_pos hfull]
    exact .refl hm
  · have hxm := hx { m with depth := m.depth + 1 } ⟨hm.store, hm.frame, hm.host⟩
    rw [if_neg hfull, Run.oneDeeper_apply]
    cases hout : x { m with depth := m.depth + 1 } with
    | ok a m₁ =>
      rw [hout] at hxm
      obtain ⟨⟨hworks, hspared⟩, ha⟩ := hxm
      exact ⟨⟨⟨hworks.store, hworks.frame, hworks.host⟩, hspared⟩, ha⟩
    | error e m₁ =>
      rw [hout] at hxm
      exact ⟨⟨hxm.worksIn.store, hxm.worksIn.frame, hxm.worksIn.host⟩, hxm.spared⟩
    | outOfFuel => trivial

end Stays

/-! ## Steps -/

theorem Value.IsPlain.inside {v : Value} (h : v.IsPlain) : v.Inside region := by
  intro p hp
  cases v with
  | function f => cases h
  | ofClass c => cases h
  | native f => cases h
  | object o => cases h
  | _ => cases hp

theorem IsOrdinary.stays {r : Except RuntimeError Value} (h : IsOrdinary r) :
    Stays region (Value.Inside region) (Action.ofExcept r) := by
  refine .ofExcept fun v hv => ?_
  obtain ⟨w, hw, hplain⟩ | ⟨e, he, -⟩ := h
  · rw [hw] at hv
    cases hv
    exact hplain.inside
  · rw [he] at hv
    cases hv

theorem Completion.Inside.normal : Completion.normal.Inside region := by
  intro v hv
  cases hv

theorem Completion.Inside.breaking : Completion.breaking.Inside region := by
  intro v hv
  cases hv

theorem lookUp_stays (id : NodeId) (name : String) (line : Nat) :
    Stays region (Value.Inside region) (Run.lookUp id name line) := by
  rw [Run.lookUp_eq]
  refine .reads fun d frame s v hs hframe hfound => ?_
  unfold Run.found at hfound
  split at hfound
  · exact hs.getAt hframe hfound
  · exact hs.get hs.globals hfound

theorem assign_stays (id : NodeId) (name : Identifier) {v : Value} (hv : v.Inside region) :
    Stays region (fun _ => True) (Run.assign id name v) := by
  rw [Run.assign_eq]
  refine .binds hv fun d frame s f hs hframe htarget => ?_
  unfold Run.target at htarget
  split at htarget
  · exact hs.assigneeAt hframe htarget
  · exact hs.assignee hs.globals htarget

theorem define_stays (name : String) {v : Value} (hv : v.Inside region) :
    Stays region (fun _ => True) (Run.define name v) := by
  refine @Stays.binds region (fun _ frame _ => .ok frame) name v hv fun _ _ _ _ _ hframe hfind => ?_
  cases hfind
  exact hframe

theorem printLine_stays (v : Value) : Stays region (fun _ => True) (Run.printLine v) := by
  rw [Run.printLine_eq]
  have htext : Stays region (fun _ => True) (Run.onStore fun _ _ s => .ok (s.display v, s)) :=
    .reads (g := fun _ _ s => .ok (s.display v)) fun _ _ _ _ _ _ _ => trivial
  exact htext.bind fun _ _ => (Stays.write _).bind fun _ _ => .write _

theorem setField_stays {o : ObjectId} (ho : region (.object o)) (name : String) {v : Value}
    (hv : v.Inside region) :
    Stays region (fun _ => True) (Run.modifyStore (·.setField o name v)) :=
  .make (g := fun s => ((), s.setField o name v)) fun _ hs =>
    ⟨hs.setField hv, .setField ho name v, trivial⟩

theorem newFrame_stays {enclosing : FrameId} (he : region (.frame enclosing))
    {bindings : Bindings Value} (hb : ∀ b ∈ bindings, b.2.Inside region) :
    Stays region (fun f => region (.frame f))
      (Run.make (·.newFrame (some enclosing) bindings)) := by
  refine .make fun s hs => ⟨hs.newFrame (fun e heq => ?_) hb, .newFrame hs _ _, ?_⟩
  · cases heq
    exact he
  · exact hs.newFrames _ (Nat.le_refl _)

theorem bindMethod_stays {f : Closure} (hf : region (.frame f.frame)) {o : ObjectId}
    (ho : region (.object o)) :
    Stays region (fun f => (Value.function f).Inside region)
      (Run.make (·.bindMethod f o)) :=
  .make fun _ hs => hs.bindMethod hf ho

theorem getProperty_stays {o : ObjectId} (ho : region (.object o)) (name : Identifier) :
    Stays region (Value.Inside region) (Run.getProperty o name) := by
  rw [Run.getProperty_eq]
  refine .onStore fun d frame s v s' hs _ hproperty => ?_
  unfold Run.property at hproperty
  cases hfound : s.property o name with
  | error e =>
    rw [hfound] at hproperty
    cases hproperty
  | ok found =>
    have hinside := hs.property ho hfound
    rw [hfound] at hproperty
    cases found with
    | field v =>
      cases hproperty
      exact ⟨hs, .refl region s, hinside⟩
    | method f =>
      cases hproperty
      exact hs.bindMethod hinside ho

theorem declareFunction_stays (f : FunctionDecl) :
    Stays region (fun f => (Value.function f).Inside region)
      (Run.onStore fun _ frame s => .ok (s.newClosure f frame false)) := by
  refine .onStore fun d frame s a s' hs hframe hnew => ?_
  cases hnew
  exact ⟨hs.withStamp _, ⟨fun _ _ => rfl, fun _ _ => rfl⟩, by simpa [Value.Inside, Value.places]⟩

theorem declareClass_stays (name : Identifier) (methods : List FunctionDecl) :
    Stays region (fun _ => True) (declareClass name methods) := by
  have hclass : Stays region (fun c => (Value.ofClass c).Inside region)
      (Run.onStore fun _ frame s => .ok (s.newClass name.name methods frame)) := by
    refine .onStore fun d frame s a s' hs hframe hnew => ?_
    have hinside := Store.newClass_inside (s := s) hframe name.name methods
    rw [Store.newClass_eq] at hnew hinside
    cases hnew
    exact ⟨hs.withStamp _, ⟨fun _ _ => rfl, fun _ _ => rfl⟩, hinside⟩
  rw [declareClass_eq]
  refine (define_stays _ (fun _ hp => nomatch hp)).bind fun _ _ => hclass.bind fun c hc => ?_
  exact .binds hc fun _ _ _ _ hs hframe htarget => hs.assignee hframe htarget

/-! ## Calls -/

section
variable {evaluate : Expr → Run Value} {execute : Stmt → Run Completion}
  (hevaluate : ∀ e, Stays region (Value.Inside region) (evaluate e))
  (hexecute : ∀ s, Stays region (Completion.Inside region) (execute s))

include hevaluate in
theorem inOrder_stays (es : List Expr) : Stays region (AllInside region) (inOrder evaluate es) := by
  induction es with
  | nil => exact .pure (List.forall_mem_nil _)
  | cons e rest ih =>
    exact (hevaluate e).bind fun v hv => ih.bind fun vs hvs =>
      .pure (List.forall_mem_cons.mpr ⟨hv, hvs⟩)

include hexecute

theorem inSequence_stays (body : List Stmt) :
    Stays region (Completion.Inside region) (inSequence execute body) := by
  induction body with
  | nil => exact .pure .normal
  | cons s rest ih =>
    refine (hexecute s).bind fun completion hc => ?_
    cases completion with
    | normal => exact ih
    | breaking => exact .pure hc
    | returning v => exact .pure hc

theorem callClosure_stays {f : Closure} (hf : region (.frame f.frame)) {arguments : List Value}
    (harguments : AllInside region arguments) :
    Stays region (Value.Inside region) (callClosure execute f arguments) := by
  have hbindings : ∀ b ∈ argumentBindings f.declaration.params arguments, b.2.Inside region := by
    intro b hb
    obtain hentry | hnil := Bindings.mem_insertAll hb
    · exact harguments _ (List.of_mem_zip hentry).2
    · cases hnil
  rw [callClosure_eq]
  refine (newFrame_stays hf hbindings).bind fun frame hframe => ?_
  refine (Stays.inFrame hframe (inSequence_stays hexecute _)).bind fun completion hc => ?_
  split
  · exact .reads fun _ _ s v hs _ hv => hs.getAt hf hv
  · cases completion with
    | returning v => exact .pure (hc v rfl)
    | normal => exact .pure fun _ hp => nomatch hp
    | breaking => exact .pure fun _ hp => nomatch hp

theorem construct_stays {c : Class} (hc : (Value.ofClass c).Inside region) {arguments : List Value}
    (harguments : AllInside region arguments) :
    Stays region (Value.Inside region) (construct execute c arguments) := by
  have hobject : Stays region (fun o => (Value.object o).Inside region)
      (Run.make (·.newObject c)) := by
    refine .make fun s hs => ⟨hs.newObject hc, .newObject hs c, fun p hp => ?_⟩
    obtain rfl := List.mem_singleton.mp hp
    exact hs.newObjects _ (Nat.le_refl _)
  unfold construct
  refine hobject.bind fun o ho => ?_
  cases hinit : c.initializer? with
  | none => exact .pure ho
  | some init =>
    have hinside : region (.object o) := ho _ (List.mem_singleton_self _)
    refine (bindMethod_stays (hc.method hinit) hinside).bind fun bound hbound => ?_
    have hframe : region (.frame bound.frame) := hbound _ (List.mem_singleton_self _)
    exact (callClosure_stays hexecute hframe harguments).bind fun _ _ => .pure ho

theorem apply_stays {callee : Value} (hcallee : callee.Inside region) {arguments : List Value}
    (harguments : AllInside region arguments) :
    Stays region (Value.Inside region) (apply execute callee arguments) := by
  cases callee with
  | native f => exact .callNative f harguments
  | function f =>
    exact callClosure_stays hexecute (hcallee _ (List.mem_singleton_self _)) harguments
  | ofClass c => exact construct_stays hexecute hcallee harguments
  | _ => exact .pure fun _ hp => nomatch hp

theorem call_stays {callee : Value} (hcallee : callee.Inside region) {arguments : List Value}
    (harguments : AllInside region arguments) (line : Nat) :
    Stays region (Value.Inside region) (call execute callee arguments line) := by
  rw [call_eq]
  cases callee.arity? with
  | none => exact .fail _
  | some arity =>
    dsimp only
    split
    · exact .fail _
    · exact .ifRoom line (apply_stays hexecute hcallee harguments)

end

/-! ## One step of a run, by what the runs below it do -/

section
variable {fuel : Nat} (hevaluate : ∀ e, Stays region (Value.Inside region) (evaluate fuel e))
  (hexecute : ∀ s, Stays region (Completion.Inside region) (execute fuel s))
  (hrepeat : ∀ condition body,
    Stays region (Completion.Inside region) (repeatWhile fuel condition body))
include hevaluate hexecute

theorem evaluate_step_stays (e : Expr) :
    Stays region (Value.Inside region) (evaluate (fuel + 1) e) := by
  unfold evaluate
  cases e with
  | literal value =>
    refine .pure (Value.IsPlain.inside ?_)
    cases value <;> trivial
  | grouping inner => exact hevaluate inner
  | «variable» id name => exact lookUp_stays id _ _
  | this id line => exact lookUp_stays id _ _
  | assign id name value =>
    exact (hevaluate value).bind fun v hv => (assign_stays id name hv).bind fun _ _ => .pure hv
  | unary op line operand =>
    exact (hevaluate operand).bind fun v _ => (UnaryOp.apply_ordinary op line v).stays
  | binary op line left right =>
    exact (hevaluate left).bind fun a _ => (hevaluate right).bind fun b _ =>
      (BinaryOp.apply_ordinary op line a b).stays
  | logical op left right =>
    refine (hevaluate left).bind fun v hv => ?_
    split
    · exact .pure hv
    · exact hevaluate right
  | call callee line arguments =>
    exact (hevaluate callee).bind fun v hv => (inOrder_stays hevaluate arguments).bind fun vs hvs =>
      call_stays hexecute hv hvs line
  | get object name =>
    refine (hevaluate object).bind fun v hv => ?_
    cases v with
    | object o => exact getProperty_stays (hv _ (List.mem_singleton_self _)) name
    | _ => exact .fail _
  | set object name value =>
    refine (hevaluate object).bind fun v hv => ?_
    cases v with
    | object o =>
      have ho : region (.object o) := hv _ (List.mem_singleton_self _)
      exact (hevaluate value).bind fun w hw => (setField_stays ho name.name hw).bind fun _ _ =>
        .pure hw
    | _ => exact .fail _

include hrepeat

theorem execute_step_stays (s : Stmt) :
    Stays region (Completion.Inside region) (execute (fuel + 1) s) := by
  have hnormal : Completion.normal.Inside region := .normal
  unfold execute
  cases s with
  | expression expr => exact (hevaluate expr).bind fun _ _ => .pure hnormal
  | print expr =>
    exact (hevaluate expr).bind fun v _ => (printLine_stays v).bind fun _ _ => .pure hnormal
  | varDecl name initializer =>
    exact (hevaluate initializer).bind fun v hv => (define_stays name.name hv).bind fun _ _ =>
      .pure hnormal
  | block body =>
    dsimp only
    rw [block_eq]
    have hframe : Stays region (fun f => region (.frame f))
        (Run.onStore fun _ frame s => .ok (s.newFrame (some frame) [])) := by
      refine .onStore fun d frame s f s' hs hcurrent hnew => ?_
      cases hnew
      refine ⟨hs.newFrame (fun e heq => ?_) (List.forall_mem_nil _), .newFrame hs _ _,
        hs.newFrames _ (Nat.le_refl _)⟩
      cases heq
      exact hcurrent
    exact hframe.bind fun f hf => .inFrame hf (inSequence_stays hexecute body)
  | ifElse condition thenBranch elseBranch =>
    refine (hevaluate condition).bind fun v _ => ?_
    split
    · exact hexecute thenBranch
    · cases elseBranch with
      | none => exact .pure hnormal
      | some branch => exact hexecute branch
  | whileLoop condition body => exact hrepeat condition body
  | breakLoop line => exact .pure .breaking
  | funDecl function =>
    dsimp only
    rw [declareFunction_eq]
    exact (declareFunction_stays function).bind fun f hf => (define_stays _ hf).bind fun _ _ =>
      .pure hnormal
  | returnValue line value =>
    cases value with
    | none =>
      refine .pure fun v hv => ?_
      cases hv
      intro p hp
      cases hp
    | some value =>
      refine (hevaluate value).bind fun v hv => .pure fun w hw => ?_
      cases hw
      exact hv
  | classDecl name methods =>
    exact (declareClass_stays name methods).bind fun _ _ => .pure hnormal

theorem repeat_step_stays (condition : Expr) (body : Stmt) :
    Stays region (Completion.Inside region) (repeatWhile (fuel + 1) condition body) := by
  unfold repeatWhile
  refine (hevaluate condition).bind fun v _ => ?_
  split
  · refine (hexecute body).bind fun completion hc => ?_
    cases completion with
    | normal => exact hrepeat condition body
    | breaking => exact .pure .normal
    | returning v => exact .pure hc
  · exact .pure .normal

end

/-- **Every run stays in every sealed region**, by induction on the fuel. -/
theorem runs_stay (region : Place → Prop) (fuel : Nat) :
    (∀ e, Stays region (Value.Inside region) (evaluate fuel e)) ∧
      (∀ s, Stays region (Completion.Inside region) (execute fuel s)) ∧
      ∀ condition body,
        Stays region (Completion.Inside region) (repeatWhile fuel condition body) := by
  induction fuel with
  | zero => exact ⟨fun _ => .outOfFuel, fun _ => .outOfFuel, fun _ _ => .outOfFuel⟩
  | succ fuel ih =>
    obtain ⟨hevaluate, hexecute, hrepeat⟩ := ih
    exact ⟨evaluate_step_stays hevaluate hexecute, execute_step_stays hevaluate hexecute hrepeat,
      repeat_step_stays hevaluate hexecute hrepeat⟩

/-! ## What cannot be reached -/

/-- A place where nothing is yet. -/
def Store.IsFree (s : Store) : Place → Prop
  | .frame f => s.frames.size ≤ f
  | .object o => s.objects.size ≤ o

theorem Store.placesAt_free {s : Store} {p : Place} (h : s.IsFree p) : s.placesAt p = [] := by
  cases p with
  | frame f =>
    have hnone : s.frames[f]? = none := Array.getElem?_eq_none h
    simp [placesAt, enclosing?, frame, hnone, Bindings.places]
  | object o =>
    have hnone : s.objects[o]? = none := Array.getElem?_eq_none h
    simp [placesAt, hnone]

namespace Machine

/-- The place can be reached from the current frame or from the global variables: through the frames
around, the values of variables and fields, the frames that functions and methods close over, and
the classes of objects. -/
def CanReach (m : Machine) (p : Place) : Prop :=
  m.store.LeadsTo (.frame m.frame) p ∨ m.store.LeadsTo (.frame globals) p

/-- What was there before and could not be reached is as it was. -/
structure Untouched (m m' : Machine) : Prop where
  frames (f : FrameId) : f < m.store.frames.size → ¬m.CanReach (.frame f) →
    m'.store.frame f = m.store.frame f
  objects (o : ObjectId) : o < m.store.objects.size → ¬m.CanReach (.object o) →
    m'.store.objects[o]? = m.store.objects[o]?

variable {m m' : Machine}

/-- The places that can be reached, and those where nothing is yet, make up a sealed region. -/
theorem worksIn_reach (hhost : m.host.IsConfined) :
    m.WorksIn fun p => m.CanReach p ∨ m.store.IsFree p where
  store :=
    { globals := .inl (.inr .refl)
      closed := fun p hp q hq => by
        obtain (hcurrent | hglobal) | hfree := hp
        · exact .inl (.inl (hcurrent.tail hq))
        · exact .inl (.inr (hglobal.tail hq))
        · rw [Store.placesAt_free hfree] at hq
          cases hq
      newFrames := fun _ hf => .inr hf
      newObjects := fun _ ho => .inr ho }
  frame := .inl (.inl .refl)
  host := hhost

theorem StaysIn.untouched (h : m.StaysIn (fun p => m.CanReach p ∨ m.store.IsFree p) m') :
    m.Untouched m' where
  frames f hf hreach := h.spared.frames f fun hp => hp.elim hreach (Nat.not_le_of_lt hf)
  objects o ho hreach := h.spared.objects o fun hp => hp.elim hreach (Nat.not_le_of_lt ho)

end Machine

/-- **Effects are local to what can be reached.** Whatever an expression or a statement does, and
however it ends, each frame and each object that was there before and could be reached neither from
the current frame nor from the global variables has the same variables or fields afterwards. -/
theorem unreachable_untouched (fuel : Nat) {m : Machine} (hhost : m.host.IsConfined) :
    (∀ e m', (evaluate fuel e m).state? = some m' → m.Untouched m') ∧
      ∀ s m', (execute fuel s m).state? = some m' → m.Untouched m' := by
  obtain ⟨hevaluate, hexecute, -⟩ := runs_stay (fun p => m.CanReach p ∨ m.store.IsFree p) fuel
  have hworks := Machine.worksIn_reach hhost
  exact ⟨fun e _ h => ((hevaluate e).state hworks h).untouched,
    fun s _ h => ((hexecute s).state hworks h).untouched⟩

/-- Makes a switch of its own at each call, and drops the first one. -/
def droppedSwitch : List Step :=
  [.request (.run ("fun make() \x7b var on = false; fun turn() \x7b on = !on; \x7d " ++
    "return turn; \x7d\n" ++ "make();"))]

/-- Makes another switch and turns it. -/
def otherSwitch : Expr := .call (.call (.variable 100 ⟨"make", 1⟩) 1 []) 1 []

set_option maxRecDepth 1000 in
theorem droppedSwitch_untouched :
    ∃ s m', (Session.initial 8 .unlimited .nominal).follow 60 droppedSwitch
        = some ([some (.ok none)], s) ∧
      s.machine.host.IsConfined ∧ 1 < s.machine.store.frames.size ∧
      ¬s.machine.CanReach (.frame 1) ∧ (evaluate 60 otherSwitch s.machine).state? = some m' ∧
      m'.store.frame 1 = s.machine.store.frame 1 := by
  have hrun : ((Session.initial 8 .unlimited .nominal).follow 60 droppedSwitch).map
      (fun r => (r.1, r.2.machine.host, r.2.machine.store.frames.size, r.2.machine.frame,
        r.2.machine.store.placesAt (.frame globals)))
      = some ([some (.ok none)], .nominal, 2, globals, [.frame globals]) := by cbv
  have hagain : ((Session.initial 8 .unlimited .nominal).follow 60 droppedSwitch).bind
      (fun r => (evaluate 60 otherSwitch r.2.machine).state?.map (·.store.frames.size))
      = some 4 := by cbv
  obtain ⟨⟨_, s⟩, hfollow, heq⟩ := Option.map_eq_some_iff.mp hrun
  obtain ⟨rfl, hhost, hsize, hframe, hplaces⟩ : _ ∧ _ ∧ _ ∧ _ ∧ _ := by simpa using heq
  rw [hfollow, Option.bind_some] at hagain
  obtain ⟨m', hm', -⟩ := Option.map_eq_some_iff.mp hagain
  have hconfined : s.machine.host.IsConfined := by
    rw [hhost]
    intro f s arguments v hv
    cases hv
    intro q hq
    cases hq
  have honly : ∀ p, s.machine.store.LeadsTo (.frame globals) p → p = .frame globals := by
    have hclosed : ∀ q, q = Place.frame globals → ∀ r ∈ s.machine.store.placesAt q,
        r = .frame globals := by
      rintro _ rfl r hr
      rw [hplaces] at hr
      exact List.mem_singleton.mp hr
    exact fun p hp => hp.inside (by rfl) hclosed
  have hunreached : ¬s.machine.CanReach (.frame 1) := by
    unfold Machine.CanReach
    rw [hframe, or_self]
    intro h
    cases honly _ h
  have hexists : 1 < s.machine.store.frames.size := by
    rw [hsize]
    exact Nat.lt_succ_self 1
  obtain ⟨hevaluate, -⟩ := unreachable_untouched 60 hconfined
  exact ⟨s, m', hfollow, hconfined, hexists, hunreached, hm',
    (hevaluate otherSwitch m' hm').frames 1 hexists hunreached⟩

end LoxLang
