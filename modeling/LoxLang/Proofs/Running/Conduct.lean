import Mathlib
import LoxLang.Proofs.Running.Leading
import LoxLang.Proofs.Running.References

/-!
# How runs conduct themselves

Every step of a staged run leads from one upright machine to another, and so does the whole run.

* `Ready`: what must hold before an expression is evaluated, `CompletesAt`: what holds of the
  completion of a statement at a spot;
* `bindMethod_leads`, `callClosure_leads`, `call_leads`: calls, by what they run;
* `evaluate_step`, `execute_step`, `repeat_step`: one step, by what the runs below it lead to;
* `Staging.leads`: all runs, by induction on the fuel.
-/

namespace LoxLang

open Scoping (Routine)

variable {α : Type} {nodes : List (Spot × Node)} {aside : List Expr} {t t' : Staged}

/-! ## Before and after -/

/-- The expression stands aside, or its parts are among the nodes at a spot where the current frame
stands. In both cases no name in it is that of the object. -/
def Ready (nodes : List (Spot × Node)) (aside : List Expr) (t : Staged) (scene : Scene) (e : Expr) :
    Prop :=
  ∀ part ∈ e.parts, "this" ∉ part.names ∧ ∀ id line, part = .this id line →
    part ∈ aside ∨ ∃ spot, (spot, .expr part) ∈ nodes ∧ t.Stands spot scene t.machine.frame

/-- How a statement at the spot may complete. -/
structure CompletesAt (nodes : List (Spot × Node)) (spot : Spot) (c : Completion) (t : Staged) :
    Prop where
  breaking : c = .breaking → spot.inLoop = true
  returning (v : Value) : c = .returning v → ValueHeld nodes t v ∧
    ∃ routine, spot.routine = some routine ∧ (routine = .initializer → v = .nil)

section
variable {scene : Scene} {e e' : Expr} {spot : Spot} {c : Completion}

theorem Ready.later (h : Ready nodes aside t scene e) (hreach : Reaches nodes aside t t') :
    Ready nodes aside t' scene e := by
  intro part hpart
  obtain ⟨hnames, hthis⟩ := h part hpart
  refine ⟨hnames, fun id line heq => ?_⟩
  obtain haside | ⟨spot, hnode, hstands⟩ := hthis id line heq
  · exact .inl haside
  · rw [hreach.frame]
    exact .inr ⟨spot, hnode, hstands.later hreach.grows⟩

theorem Ready.part (h : Ready nodes aside t scene e) (hsub : e'.parts ⊆ e.parts) :
    Ready nodes aside t scene e' := fun part hpart => h part (hsub hpart)

/-- The two operands of an expression that has no more. -/
theorem Ready.both {left right : Expr} (h : Ready nodes aside t scene e)
    (he : e.parts = e :: (left.parts ++ right.parts)) :
    Ready nodes aside t scene left ∧ Ready nodes aside t scene right := by
  constructor
  · refine h.part fun _ hp => ?_
    rw [he]
    exact List.mem_cons_of_mem _ (List.mem_append_left _ hp)
  · refine h.part fun _ hp => ?_
    rw [he]
    exact List.mem_cons_of_mem _ (List.mem_append_right _ hp)

/-- An expression of a program. -/
theorem Ready.of_spotted (h : Upright nodes aside t)
    (hstands : t.Stands spot scene t.machine.frame) (hnodes : e.spotted spot ⊆ nodes) :
    Ready nodes aside t scene e := by
  intro part hpart
  have hnode : (spot, Node.expr part) ∈ nodes := hnodes (List.mem_map_of_mem hpart)
  exact ⟨(h.admits _ hnode).names, fun _ _ _ => .inr ⟨spot, hnode, hstands⟩⟩

theorem CompletesAt.later (h : CompletesAt nodes spot c t) (hgrows : Grows t t') :
    CompletesAt nodes spot c t' where
  breaking := h.breaking
  returning v hv := by
    obtain ⟨hheld, hroutine⟩ := h.returning v hv
    exact ⟨hheld.later hgrows, hroutine⟩

theorem CompletesAt.normal (t : Staged) : CompletesAt nodes spot .normal t := ⟨nofun, nofun⟩

theorem CompletesAt.of_break (h : spot.inLoop = true) : CompletesAt nodes spot .breaking t :=
  ⟨fun _ => h, nofun⟩

theorem CompletesAt.of_return {v : Value} {routine : Routine} (hv : ValueHeld nodes t v)
    (hroutine : spot.routine = some routine) (hnil : routine = .initializer → v = .nil) :
    CompletesAt nodes spot (.returning v) t where
  breaking := nofun
  returning w heq := by
    cases heq
    exact ⟨hv, routine, hroutine, hnil⟩

/-- How a loop at the spot may complete. It does not break, whatever its body does. -/
def LoopCompletesAt (nodes : List (Spot × Node)) (spot : Spot) (c : Completion) (t : Staged) :
    Prop :=
  c ≠ .breaking ∧ CompletesAt nodes spot c t

theorem LoopCompletesAt.normal (t : Staged) : LoopCompletesAt nodes spot .normal t :=
  ⟨nofun, .normal t⟩

/-- A `return` in the body of a loop is one of the loop. -/
theorem LoopCompletesAt.of_return {v : Value}
    (h : CompletesAt nodes spot.inLoopBody (.returning v) t) :
    LoopCompletesAt nodes spot (.returning v) t :=
  ⟨nofun, nofun, h.returning⟩

end

/-- An expression that is evaluated gives a value that is held. -/
def Evaluates (nodes : List (Spot × Node)) (aside : List Expr)
    (evaluate : Scene → Expr → Staging Value) : Prop :=
  ∀ t scene e, Upright nodes aside t → Ready nodes aside t scene e →
    Leads nodes aside t (evaluate scene e) fun v t' => ValueHeld nodes t' v

/-- A statement of a program, run where it stands, completes as it may. -/
def Executes (nodes : List (Spot × Node)) (aside : List Expr)
    (execute : Scene → Stmt → Staging Completion) : Prop :=
  ∀ t scene spot s, Upright nodes aside t → t.Stands spot scene t.machine.frame →
    s.spotted spot ⊆ nodes → Leads nodes aside t (execute scene s) (CompletesAt nodes spot)

/-! ## Running elsewhere -/

section
variable {Q : α → Staged → Prop} {x : Staging α}

theorem Leads.inFrame {frame : FrameId} (hlasting : ∀ a t t', Grows t t' → Q a t → Q a t')
    (hx : Leads nodes aside { t with machine := { t.machine with frame } } x Q) :
    Leads nodes aside t (Staging.inFrame frame x) Q := by
  have hback : ∀ {t'}, Reaches nodes aside { t with machine := { t.machine with frame } } t' →
      Reaches nodes aside t
        { t' with machine := { t'.machine with frame := t.machine.frame } } := by
    intro t' hreach
    have hthere : Grows t { t with machine := { t.machine with frame } } := .sameStore rfl rfl
    have hhere : Grows t' { t' with machine := { t'.machine with frame := t.machine.frame } } :=
      .sameStore rfl rfl
    exact ⟨hreach.upright.sameStore hhere ⟨rfl, rfl, rfl⟩ rfl,
      (hthere.trans hreach.grows).trans hhere, rfl, hreach.distances⟩
  unfold Leads Staging.inFrame at *
  cases hxt : x { t with machine := { t.machine with frame } } with
  | ok a t' =>
    rw [hxt] at hx
    exact ⟨hback hx.1, hlasting a t' _ (.sameStore rfl rfl) hx.2⟩
  | error e t' =>
    rw [hxt] at hx
    exact hback hx
  | outOfFuel =>
    rw [hxt] at hx
    exact hx

theorem Leads.oneDeeper (hlasting : ∀ a t t', Grows t t' → Q a t → Q a t')
    (h : Upright nodes aside t) (hx : ∀ t', Reaches nodes aside t t' → Leads nodes aside t' x Q) :
    Leads nodes aside t (Staging.oneDeeper x) Q := by
  have hdeeper : ∀ {t : Staged} (depth : Nat), Upright nodes aside t →
      Reaches nodes aside t { t with machine := { t.machine with depth } } :=
    fun depth h => .withMachine h rfl rfl rfl
  have hthere := hdeeper (t.machine.depth + 1) h
  have hinside := hx _ hthere
  unfold Leads Staging.oneDeeper at *
  cases hxt : x { t with machine := { t.machine with depth := t.machine.depth + 1 } } with
  | ok a t' =>
    rw [hxt] at hinside
    have hhere := hdeeper (t'.machine.depth - 1) hinside.1.upright
    exact ⟨(hthere.trans hinside.1).trans hhere, hlasting a t' _ hhere.grows hinside.2⟩
  | error e t' =>
    rw [hxt] at hinside
    exact (hthere.trans hinside).trans (hdeeper (t'.machine.depth - 1) hinside.upright)
  | outOfFuel =>
    rw [hxt] at hinside
    exact hinside

end

/-! ## Methods -/

/-- A method that is bound to an object runs for this object. -/
theorem bindMethod_leads {decl : ClassDecl} {method : Closure} {o : ObjectId}
    (h : Upright nodes aside t) (hmethod : MethodHeld nodes t decl method) (ho : t.MadeBy o decl) :
    Leads nodes aside t (Staging.bindMethod method o) fun f t' => FunctionHeld nodes t' f := by
  have hstage := Reaches.stage h ⟨some o, some decl⟩
  have hbindings : ∀ name v, Bindings.find? [("this", Value.object o)] name = some v →
      ValueHeld nodes (t.stage ⟨some o, some decl⟩) v := by
    intro name v hv
    rw [Bindings.find?_cons] at hv
    split at hv <;> cases hv
    trivial
  have hframe := Reaches.newFrame hstage.upright (some method.frame) hbindings
  have hstamp := Reaches.newStamps hframe.upright 1
  have hreach := hframe.trans hstamp
  refine .get ?_
  rw [hmethod.classAround]
  refine .record hstage (.make hreach ?_)
  obtain ⟨spot, hwritten⟩ := hmethod.written
  refine ⟨Nat.lt_succ_self _, spot.inClassBody decl, hwritten, ?_⟩
  have hscene := t.awaits_stage ⟨some o, some decl⟩ t.machine.store.nextStamp (Nat.le_refl _)
  change Staged.Stands _ (spot.inClassBody decl)
    ((t.stage ⟨some o, some decl⟩).scenes t.machine.store.nextStamp) t.machine.store.frames.size
  rw [hscene]
  refine ⟨rfl, fun decl' k heq => ?_⟩
  cases heq
  refine ⟨o, t.machine.store.frames.size, rfl, rfl, ?_, ho.later (hstage.grows.trans hreach.grows)⟩
  change (Store.frame _ _).bindings.find? "this" = _
  exact (congrArg (fun fr : Frame => fr.bindings.find? "this") Store.frame_newFrame_new).trans rfl

/-- What a property of an object is. -/
theorem getProperty_leads (h : Upright nodes aside t) (o : ObjectId) (name : Identifier) :
    Leads nodes aside t (Staging.getProperty o name) fun v t' => ValueHeld nodes t' v := by
  cases hproperty : t.machine.store.property o name with
  | error e =>
    have hfails : Staging.getProperty o name t = .error (.failure e) t := by
      simp only [Staging.getProperty, hproperty]
    exact .error hfails (.refl h)
  | ok found =>
    cases found with
    | field v =>
      have hgives : Staging.getProperty o name t = .ok v t := by
        simp only [Staging.getProperty, hproperty]
      exact .ok hgives (.refl h) (h.fields o name.name v (Store.field?_of_property hproperty))
    | method f =>
      obtain ⟨c, hc, hf⟩ := Store.method?_of_property hproperty
      have hheld := h.classes o c hc
      obtain ⟨decl, hdecl, hmethods⟩ := hheld.methods
      have hbinds := bindMethod_leads h (hmethods name.name f hf) ⟨c, hc, hheld.stamp, hdecl⟩
      refine Leads.behind (.refl h) (hbinds.bind fun bound t' hreach hbound =>
        Leads.pure (a := Value.function bound) hreach.upright hbound) ?_
      simp only [Staging.getProperty, hproperty]

/-! ## Calls -/

/-- What a call starts with are its arguments. -/
theorem argumentBindings_find? {P : Value → Prop} (params : List Identifier)
    {arguments : List Value} (harguments : ∀ v ∈ arguments, P v) {name : String} {v : Value}
    (h : (Running.argumentBindings params arguments).find? name = some v) : P v := by
  have hinsert : ∀ (entries : List (String × Value)) (b : Bindings Value),
      (∀ e ∈ entries, P e.2) → (∀ x w, b.find? x = some w → P w) →
      ∀ x w, (b.insertAll entries).find? x = some w → P w := by
    intro entries
    induction entries with
    | nil => exact fun b _ hb => hb
    | cons e rest ih =>
      intro b hentries hb
      obtain ⟨he, hrest⟩ := List.forall_mem_cons.mp hentries
      refine ih (b.insert e.1 e.2) hrest fun x w hw => ?_
      rw [Bindings.find?_insert] at hw
      split at hw
      · cases hw
        exact he
      · exact hb x w hw
  refine hinsert _ [] (fun e he => ?_) (fun x w hw => nomatch hw) name v h
  exact harguments e.2 (List.of_mem_zip he).2

section
variable {execute : Scene → Stmt → Staging Completion} {scene : Scene} {spot : Spot}
  (hexecute : Executes nodes aside execute)
include hexecute

theorem inSequence_leads (body : List Stmt) (h : Upright nodes aside t)
    (hstands : t.Stands spot scene t.machine.frame) (hbody : Stmt.allSpotted spot body ⊆ nodes) :
    Leads nodes aside t (Staging.inSequence (execute scene) body) (CompletesAt nodes spot) := by
  induction body generalizing t with
  | nil => exact .pure h (.normal t)
  | cons s rest ih =>
    obtain ⟨hs, hrest⟩ := List.append_subset.mp hbody
    refine (hexecute t scene spot s h hstands hs).bind fun c t' hreach hc => ?_
    cases c with
    | normal => exact ih hreach.upright (hreach.stands hstands) hrest
    | breaking => exact .pure hreach.upright hc
    | returning v => exact .pure hreach.upright hc

/-- Statements that follow each other in a frame of their own. -/
theorem inFrame_leads {frame : FrameId} (body : List Stmt) (h : Upright nodes aside t)
    (hstands : t.Stands spot scene frame) (hbody : Stmt.allSpotted spot body ⊆ nodes) :
    Leads nodes aside t (Staging.inFrame frame (Staging.inSequence (execute scene) body))
      (CompletesAt nodes spot) := by
  have hgrows : Grows t { t with machine := { t.machine with frame } } := .sameStore rfl rfl
  refine .inFrame (fun _ _ _ hg hc => hc.later hg) (inSequence_leads hexecute body ?_ ?_ hbody)
  · exact h.sameStore hgrows ⟨rfl, rfl, rfl⟩ rfl
  · exact hstands.later hgrows

/-- A function that is called runs where it stands. Its body does not break, and the body of an
initializer returns nothing, so that nothing is lost when the call ends. -/
theorem callClosure_leads {f : Closure} {arguments : List Value} (h : Upright nodes aside t)
    (hf : FunctionHeld nodes t f) (harguments : ∀ v ∈ arguments, ValueHeld nodes t v) :
    Leads nodes aside t (Staging.callClosure execute f arguments)
      fun v t' => ValueHeld nodes t' v := by
  obtain ⟨spot, ⟨routine, hbody, hinit⟩, hstands⟩ := hf.stands
  rw [FunctionDecl.spotted_eq] at hbody
  have hnew := newFrame_leads h (some f.frame)
    fun _ _ hv => argumentBindings_find? f.declaration.params harguments hv
  refine .get (hnew.bind fun frame t₁ hreach henclosing => ?_)
  have hstands₁ := (hstands.later hreach.grows).inFunction henclosing routine
  refine (inFrame_leads hexecute f.declaration.body hreach.upright hstands₁ hbody).bind
    fun c t₂ hreach₂ hc => ?_
  have hcalm : (Ending.body f c).IsCalm := by
    refine ⟨fun heq => Bool.false_ne_true (hc.breaking heq), fun hisInit v heq => ?_⟩
    obtain ⟨-, r, hr, hnil⟩ := hc.returning v heq
    cases hr
    exact hnil (hinit hisInit)
  have hconclude := Reaches.conclude hreach₂.upright hcalm
  refine .record hconclude ?_
  split
  · exact .get (ofExcept_leads hconclude.upright fun v hv => hconclude.upright.getAt hv)
  · split
    · rename_i v
      exact .pure hconclude.upright ((hc.returning v rfl).1.later hconclude.grows)
    · exact .pure hconclude.upright trivial

/-- An object that is made is of a class that is held, so that its initializer runs for it. -/
theorem construct_leads {c : Class} {arguments : List Value} (h : Upright nodes aside t)
    (hc : ClassHeld nodes t c) (harguments : ∀ v ∈ arguments, ValueHeld nodes t v) :
    Leads nodes aside t (Staging.construct execute c arguments)
      fun v t' => ValueHeld nodes t' v := by
  refine (newObject_leads h hc).bind fun o t₁ hreach hmade => ?_
  have hc₁ := hc.later hreach.grows
  cases hinit : c.initializer? with
  | none => exact .pure hreach.upright trivial
  | some init =>
    obtain ⟨decl, hdecl, hmethods⟩ := hc₁.methods
    have hbinds := bindMethod_leads hreach.upright (hmethods "init" init hinit)
      ⟨c, hmade, hc₁.stamp, hdecl⟩
    refine hbinds.bind fun bound t₂ hreach₂ hbound => ?_
    have hearlier := hreach.grows.trans hreach₂.grows
    refine (callClosure_leads hexecute hreach₂.upright hbound fun v hv =>
      (harguments v hv).later hearlier).bind fun _ t₃ hreach₃ _ => ?_
    exact .pure hreach₃.upright trivial

theorem apply_leads {callee : Value} {arguments : List Value} (h : Upright nodes aside t)
    (hcallee : ValueHeld nodes t callee) (harguments : ∀ v ∈ arguments, ValueHeld nodes t v) :
    Leads nodes aside t (Staging.apply execute callee arguments)
      fun v t' => ValueHeld nodes t' v := by
  cases callee with
  | native f =>
    cases hcallee
    exact callClock_leads h arguments
  | function f => exact callClosure_leads hexecute h hcallee harguments
  | ofClass c => exact construct_leads hexecute h hcallee harguments
  | _ => exact .pure h trivial

theorem call_leads {callee : Value} {arguments : List Value} (line : Nat)
    (h : Upright nodes aside t) (hcallee : ValueHeld nodes t callee)
    (harguments : ∀ v ∈ arguments, ValueHeld nodes t v) :
    Leads nodes aside t (Staging.call execute callee arguments line)
      fun v t' => ValueHeld nodes t' v := by
  have hlasting : ∀ (v : Value) (t t' : Staged), Grows t t' → ValueHeld nodes t v →
      ValueHeld nodes t' v := fun _ _ _ hg hv => hv.later hg
  unfold Staging.call
  split
  · exact .fail h
  · split
    · exact .fail h
    · refine .get ?_
      split
      · exact .fail h
      · refine .oneDeeper hlasting h fun t₁ hreach => ?_
        have harguments₁ := fun v hv => (harguments v hv).later hreach.grows
        exact apply_leads hexecute hreach.upright (hcallee.later hreach.grows) harguments₁

end

/-! ## One step -/

/-- A `this` that is ready finds the object that the scene tells. -/
theorem Ready.receives {scene : Scene} {e : Expr} (h : Upright nodes aside t)
    (hready : Ready nodes aside t scene e) :
    ∀ id line, e = .this id line →
      e ∈ aside ∨ (Entrance.mk scene e t.machine t.scenes).Receives nodes id line := by
  intro id line heq
  obtain haside | ⟨spot, hnode, hstands⟩ := (hready e e.mem_parts_self).2 id line heq
  · exact .inl haside
  · subst heq
    obtain ⟨decl, k, hspot, hdistance⟩ := (h.admits _ hnode).this id line rfl
    obtain ⟨o, b, ho, hclimb, hthis, c, hc, -, hdecl⟩ := hstands.this decl k hspot
    have hscene : scene = ⟨some o, some decl⟩ := by
      have hclass := hstands.classAround
      rw [hspot] at hclass
      rw [← ho, show some decl = scene.classAround from hclass.symm]
    have hlookUp : Run.lookUp id "this" line t.machine = .ok (.object o) t.machine := by
      simp only [Run.lookUp, hdistance, getAt_of_climb hclimb, hthis]
    exact .inr ⟨spot, decl, k, o, c, hnode, hspot, hscene, hlookUp, hc, hdecl⟩

section
variable {evaluate : Scene → Expr → Staging Value} (hevaluate : Evaluates nodes aside evaluate)
include hevaluate

/-- Arguments are evaluated in turn, and those that have a value keep it. -/
theorem inOrder_leads {scene : Scene} (es : List Expr) (h : Upright nodes aside t)
    (hready : ∀ e ∈ es, Ready nodes aside t scene e) :
    Leads nodes aside t (Staging.inOrder (evaluate scene) es)
      fun vs t' => ∀ v ∈ vs, ValueHeld nodes t' v := by
  induction es generalizing t with
  | nil => exact .pure h fun _ hv => nomatch hv
  | cons e rest ih =>
    obtain ⟨he, hrest⟩ := List.forall_mem_cons.mp hready
    refine (hevaluate t scene e h he).bind fun v t₁ hreach hv => ?_
    refine (ih hreach.upright fun e' he' => (hrest e' he').later hreach).bind
      fun vs t₂ hreach₂ hvs => ?_
    exact .pure hreach₂.upright (List.forall_mem_cons.mpr ⟨hv.later hreach₂.grows, hvs⟩)

end

/-- A value without parts is held by itself. -/
theorem Value.IsPlain.held {v : Value} (h : v.IsPlain) : ValueHeld nodes t v := by
  cases v with
  | function f => cases h
  | ofClass c => cases h
  | native f => cases h
  | _ => trivial

theorem IsOrdinary.leads {x : Except RuntimeError Value} (h : Upright nodes aside t)
    (hx : IsOrdinary x) : Leads nodes aside t (Staging.quietly (Action.ofExcept x))
      fun v t' => ValueHeld nodes t' v := by
  refine ofExcept_leads h fun v hv => ?_
  obtain ⟨w, hw, hplain⟩ | ⟨e, he, -⟩ := hx
  · rw [hw] at hv
    cases hv
    exact hplain.held
  · rw [he] at hv
    cases hv

section
variable {fuel : Nat} (hevaluate : Evaluates nodes aside (Staging.evaluate fuel))
  (hexecute : Executes nodes aside (Staging.execute fuel))
include hevaluate hexecute

theorem Staging.evaluate_step : Evaluates nodes aside (Staging.evaluate (fuel + 1)) := by
  intro t scene e h hready
  have henter := Reaches.enter h (Ready.receives h hready)
  have hready := hready.later henter
  have h := henter.upright
  unfold Staging.evaluate
  refine .record henter ?_
  cases e with
  | literal value =>
    refine .pure h (Value.IsPlain.held ?_)
    cases value <;> trivial
  | grouping inner => exact hevaluate _ scene inner h (hready.part (List.subset_cons_self _ _))
  | «variable» id name => exact lookUp_leads h id name.name name.line
  | this id line => exact lookUp_leads h id "this" line
  | assign id name value =>
    have hname : name.name ≠ "this" := by
      intro heq
      exact (hready _ (Expr.mem_parts_self _)).1 (heq ▸ List.mem_cons_self)
    refine (hevaluate _ scene value h (hready.part (List.subset_cons_self _ _))).bind
      fun v t₁ hreach hv => ?_
    refine (assign_leads hreach.upright id hname hv).bind fun _ t₂ hreach₂ _ => ?_
    exact .pure hreach₂.upright (hv.later hreach₂.grows)
  | unary op line operand =>
    refine (hevaluate _ scene operand h (hready.part (List.subset_cons_self _ _))).bind
      fun v t₁ hreach hv => ?_
    exact (op.apply_ordinary line v).leads hreach.upright
  | binary op line left right =>
    obtain ⟨hleft, hright⟩ := hready.both rfl
    refine (hevaluate _ scene left h hleft).bind fun v t₁ hreach _ => ?_
    refine (hevaluate _ scene right hreach.upright (hright.later hreach)).bind
      fun v' t₂ hreach₂ _ => ?_
    exact (op.apply_ordinary line v v').leads hreach₂.upright
  | logical op left right =>
    obtain ⟨hleft, hright⟩ := hready.both rfl
    refine (hevaluate _ scene left h hleft).bind fun v t₁ hreach hv => ?_
    split
    · exact .pure hreach.upright hv
    · exact hevaluate _ scene right hreach.upright (hright.later hreach)
  | call callee line arguments =>
    have hcallee : Ready nodes aside _ scene callee :=
      hready.part fun _ hp => List.mem_cons_of_mem _ (List.mem_append_left _ hp)
    have harguments : ∀ e ∈ arguments, Ready nodes aside _ scene e := fun e he =>
      hready.part fun _ hp =>
        List.mem_cons_of_mem _ (List.mem_append_right _ (Expr.mem_allParts he hp))
    refine (hevaluate _ scene callee h hcallee).bind fun v t₁ hreach hv => ?_
    refine (inOrder_leads hevaluate arguments hreach.upright fun e he =>
      (harguments e he).later hreach).bind fun vs t₂ hreach₂ hvs => ?_
    exact call_leads hexecute line hreach₂.upright (hv.later hreach₂.grows) hvs
  | get object name =>
    refine (hevaluate _ scene object h (hready.part (List.subset_cons_self _ _))).bind
      fun v t₁ hreach _ => ?_
    cases v with
    | object o => exact getProperty_leads hreach.upright o name
    | _ => exact .fail hreach.upright
  | set object name value =>
    obtain ⟨hvalue, hobject⟩ := hready.both rfl
    refine (hevaluate _ scene object h hobject).bind fun v t₁ hreach _ => ?_
    cases v with
    | object o =>
      refine (hevaluate _ scene value hreach.upright (hvalue.later hreach)).bind
        fun w t₂ hreach₂ hw => ?_
      refine (setField_leads hreach₂.upright o name.name hw).bind fun _ t₃ hreach₃ _ => ?_
      exact .pure hreach₃.upright (hw.later hreach₃.grows)
    | _ => exact .fail hreach.upright

/-- A loop from a test of its condition on does not break. -/
def Repeats (nodes : List (Spot × Node)) (aside : List Expr)
    (repeatWhile : Scene → Expr → Stmt → Staging Completion) : Prop :=
  ∀ t scene spot condition body, Upright nodes aside t → t.Stands spot scene t.machine.frame →
    condition.spotted spot ⊆ nodes → body.spotted spot.inLoopBody ⊆ nodes →
    Leads nodes aside t (repeatWhile scene condition body) (LoopCompletesAt nodes spot)

theorem Staging.execute_step (hrepeat : Repeats nodes aside (Staging.repeatWhile fuel)) :
    Executes nodes aside (Staging.execute (fuel + 1)) := by
  intro t scene spot s h hstands hs
  -- Of the statement itself the resolver has checked its names, and what it does to the code around.
  have hadmits := h.admits _ (hs (Stmt.mem_spotted_self s))
  have hready : ∀ {e : Expr}, e.spotted spot ⊆ nodes → Ready nodes aside t scene e :=
    fun he => .of_spotted h hstands he
  unfold Staging.execute
  cases s with
  | expression e =>
    refine (hevaluate t scene e h (hready (List.subset_of_cons_subset hs))).bind
      fun _ t₁ hreach _ => ?_
    exact .pure hreach.upright (.normal t₁)
  | print e =>
    refine (hevaluate t scene e h (hready (List.subset_of_cons_subset hs))).bind
      fun v t₁ hreach _ => ?_
    refine (printLine_leads hreach.upright v).bind fun _ t₂ hreach₂ _ => ?_
    exact .pure hreach₂.upright (.normal t₂)
  | varDecl name e =>
    have hname : name.name ≠ "this" := fun heq => hadmits.names (heq ▸ List.mem_cons_self)
    refine (hevaluate t scene e h (hready (List.subset_of_cons_subset hs))).bind
      fun v t₁ hreach hv => ?_
    refine (define_leads hreach.upright hname hv).bind fun _ t₂ hreach₂ _ => ?_
    exact .pure hreach₂.upright (.normal t₂)
  | block body =>
    have hnothing : ∀ name v, Bindings.find? [] name = some v → ValueHeld nodes t v := by
      intro name v hv
      cases hv
    have hnew := newFrame_leads h (some t.machine.frame) hnothing
    refine .get (hnew.bind fun frame t₁ hreach henclosing => ?_)
    have hstands₁ := (hstands.later hreach.grows).inScope henclosing
    refine (inFrame_leads hexecute body hreach.upright hstands₁
      (List.subset_of_cons_subset hs)).imp fun c t₂ _ hc => ?_
    exact ⟨hc.breaking, hc.returning⟩
  | ifElse condition thenBranch elseBranch =>
    -- The spots of both branches are those of the statement, whether there is a second one or not.
    have hparts : condition.spotted spot ⊆ nodes ∧ thenBranch.spotted spot ⊆ nodes ∧
        ∀ r, elseBranch = some r → r.spotted spot ⊆ nodes := by
      cases elseBranch with
      | none =>
        obtain ⟨hcondition, hthen⟩ := List.append_subset.mp (List.subset_of_cons_subset hs)
        refine ⟨hcondition, hthen, fun r heq => ?_⟩
        cases heq
      | some r =>
        obtain ⟨hfirst, helse⟩ := List.append_subset.mp (List.subset_of_cons_subset hs)
        obtain ⟨hcondition, hthen⟩ := List.append_subset.mp hfirst
        exact ⟨hcondition, hthen, fun _ heq => Option.some.inj heq ▸ helse⟩
    obtain ⟨hcondition, hthen, helse⟩ := hparts
    refine (hevaluate t scene condition h (hready hcondition)).bind fun v t₁ hreach _ => ?_
    have hstands₁ := hreach.stands hstands
    split
    · exact hexecute t₁ scene spot thenBranch hreach.upright hstands₁ hthen
    · split
      · exact hexecute t₁ scene spot _ hreach.upright hstands₁ (helse _ rfl)
      · exact .pure hreach.upright (.normal t₁)
  | whileLoop condition body =>
    obtain ⟨hcondition, hbody⟩ := List.append_subset.mp (List.subset_of_cons_subset hs)
    refine (hrepeat t scene spot condition body h hstands hcondition hbody).bind
      fun c t₁ hreach hc => ?_
    have hcalm : (Ending.loop c).IsCalm := hc.1
    have hconclude := Reaches.conclude hreach.upright hcalm
    exact .record hconclude (.pure hconclude.upright (hc.2.later hconclude.grows))
  | breakLoop line => exact .pure h (.of_break (hadmits.breaks line rfl))
  | funDecl f =>
    have hname : f.name.name ≠ "this" := by
      intro heq
      cases f
      exact hadmits.names (heq ▸ List.mem_cons_self)
    refine (declareFunction_leads h hstands hname (List.subset_of_cons_subset hs)).bind
      fun _ t₁ hreach _ => ?_
    exact .pure hreach.upright (.normal t₁)
  | returnValue line value =>
    obtain ⟨routine, hroutine, hnone⟩ := hadmits.returns line value rfl
    cases value with
    | none => exact .pure h (.of_return trivial hroutine fun _ => rfl)
    | some e =>
      refine (hevaluate t scene e h (hready (List.subset_of_cons_subset hs))).bind
        fun v t₁ hreach hv => .pure hreach.upright (.of_return hv hroutine fun hinit => ?_)
      cases hnone hinit
  | classDecl name methods =>
    have hname : name.name ≠ "this" := fun heq => hadmits.names (heq ▸ List.mem_cons_self)
    refine (declareClass_leads h hname (List.subset_of_cons_subset hs)).bind
      fun _ t₁ hreach _ => ?_
    exact .pure hreach.upright (.normal t₁)

theorem Staging.repeatWhile_step (hrepeat : Repeats nodes aside (Staging.repeatWhile fuel)) :
    Repeats nodes aside (Staging.repeatWhile (fuel + 1)) := by
  intro t scene spot condition body h hstands hcondition hbody
  unfold Staging.repeatWhile
  refine (hevaluate t scene condition h (.of_spotted h hstands hcondition)).bind
    fun v t₁ hreach _ => ?_
  split
  · have hstands₁ := hreach.stands hstands
    refine (hexecute t₁ scene spot.inLoopBody body hreach.upright hstands₁.inLoopBody hbody).bind
      fun c t₂ hreach₂ hc => ?_
    cases c with
    | normal =>
      exact hrepeat t₂ scene spot condition body hreach₂.upright (hreach₂.stands hstands₁)
        hcondition hbody
    | breaking => exact .pure hreach₂.upright (.normal t₂)
    | returning w => exact .pure hreach₂.upright (.of_return hc)
  · exact .pure hreach.upright (.normal t₁)

end

/-- **Every run leads from one upright machine to another**, on every fuel. -/
theorem Staging.leads (nodes : List (Spot × Node)) (aside : List Expr) (fuel : Nat) :
    Evaluates nodes aside (Staging.evaluate fuel) ∧ Executes nodes aside (Staging.execute fuel) ∧
      Repeats nodes aside (Staging.repeatWhile fuel) := by
  induction fuel with
  | zero =>
    exact ⟨fun _ _ _ h _ => .outOfFuel h, fun _ _ _ _ h _ _ => .outOfFuel h,
      fun _ _ _ _ _ h _ _ _ => .outOfFuel h⟩
  | succ fuel ih =>
    obtain ⟨hevaluate, hexecute, hrepeat⟩ := ih
    exact ⟨evaluate_step hevaluate hexecute, execute_step hevaluate hexecute hrepeat,
      repeatWhile_step hevaluate hexecute hrepeat⟩

end LoxLang
