import LoxLang.Proofs.Running.TwinCalls

/-!
# Loops with and without the frame of their block

* `evaluate_step`, `execute_step`: each clause runs alike on both sides when what it runs does;
* `turn_step`: in its own frame on the left, and in the frame around the loop on the right, a turn
  of a loop does the same;
* `Alike`, `runs_alike`: on every fuel all runs end alike.
-/

namespace LoxLang.Twins

/-- The references of an expression at a place are known. -/
def Refers (w : Twins) (layers : Layers) (e : Expr) : Prop := ∀ id ∈ e.ids, w.nodes id layers

section
variable (chosen : Choice)

def EvaluatesAlike (evaluate evaluate' : Expr → Run Value) : Prop :=
  ∀ (w : Twins) (layers : Layers) (e : Expr), Sound chosen w → w.Here layers →
    w.Refers layers e → Runs chosen w (ValueTwin chosen) (evaluate e) (evaluate' e)

def RepeatsAlike (repeatWhile repeatWhile' : Expr → Stmt → Run Completion) : Prop :=
  ∀ (w : Twins) (layers : Layers) (condition : Expr) (body : Stmt), Sound chosen w →
    w.Here layers → w.Refers layers condition → Fits chosen w layers body →
    Runs chosen w (CompletionTwin chosen) (repeatWhile condition body)
      (repeatWhile' condition body)

/-- A loop around a block is on the right a loop with a step. -/
def SteppedAlike (repeatWhile : Expr → Stmt → Run Completion)
    (repeatStepped : Expr → Stmt → Expr → Run Completion) : Prop :=
  ∀ (w : Twins) (layers : Layers) (condition step : Expr) (body : Stmt), Sound chosen w →
    w.Here layers → w.Refers layers condition → Fits chosen w (.extra :: layers) body →
    w.Refers (.extra :: layers) step →
    Runs chosen w (CompletionTwin chosen)
      (repeatWhile condition (.block [body, .expression step])) (repeatStepped condition body step)

/-- What is a block on the left is on the right a turn of a loop with a step. -/
def TurnsAlike (execute : Stmt → Run Completion) (turn : Stmt → Expr → Run Completion) : Prop :=
  ∀ (w : Twins) (layers : Layers) (step : Expr) (body : Stmt), Sound chosen w → w.Here layers →
    Fits chosen w (.extra :: layers) body → w.Refers (.extra :: layers) step →
    Runs chosen w (CompletionTwin chosen) (execute (.block [body, .expression step]))
      (turn body step)

/-- All runs end alike on this fuel. -/
structure Alike (fuel : Nat) : Prop where
  evaluate : EvaluatesAlike chosen (Running.evaluate fuel) (Stepping.evaluate chosen fuel)
  execute : ExecutesAlike chosen (Running.execute fuel) (Stepping.execute chosen fuel)
  repeatWhile :
    RepeatsAlike chosen (Running.repeatWhile fuel) (Stepping.repeatWhile chosen fuel)
  repeatStepped :
    SteppedAlike chosen (Running.repeatWhile fuel) (Stepping.repeatStepped chosen fuel)
  turn : TurnsAlike chosen (Running.execute fuel) (Stepping.turn chosen fuel)

end

variable {chosen : Choice} {w w' : Twins} {layers : Layers}

theorem Refers.later {e : Expr} (h : w.Refers layers e) (hl : Later w w') : w'.Refers layers e :=
  fun id hid => hl.nodes id layers (h id hid)

theorem refers_iff {e : Expr} :
    (∀ node ∈ e.layered layers, w.nodes node.1 node.2) ↔ w.Refers layers e := by
  simp [Expr.layered, Refers]

/-! ## Expressions -/

theorem inOrder_runs {evaluate evaluate' : Expr → Run Value}
    (hevaluate : EvaluatesAlike chosen evaluate evaluate') {es : List Expr} (h : Sound chosen w)
    (hhere : w.Here layers) (hes : ∀ id ∈ Expr.allIds es, w.nodes id layers) :
    Runs chosen w (ValuesTwin chosen) (Running.inOrder evaluate es)
      (Running.inOrder evaluate' es) := by
  induction es generalizing w with
  | nil => exact .pure h .nil
  | cons e rest ih =>
    rw [Expr.allIds_cons, List.forall_mem_append] at hes
    refine (hevaluate w layers e h hhere hes.1).bind fun w₁ v v' hreached hv => ?_
    refine (ih hreached.sound (Here.reached hhere hreached)
      fun id hid => hreached.later.nodes _ _ (hes.2 id hid)).bind fun w₂ vs vs' hreached₂ hvs => ?_
    exact .pure hreached₂.sound (.cons (hv.later hreached₂.later) hvs)

/-- A value of an object, or else a failure. -/
theorem onObject_runs {α β : Type} {R : Twins → α → β → Prop} {v v' : Value} {line : Nat}
    {x : ObjectId → Run α} {y : ObjectId → Run β} (h : Sound chosen w)
    (hxy : ∀ o, Runs chosen w R (x o) (y o)) :
    ValueTwin chosen w v v' → Runs chosen w R
      (match v with
        | .object o => x o
        | _ => Action.fail (.notAnObject line))
      (match v' with
        | .object o => y o
        | _ => Action.fail (.notAnObject line)) := by
  intro hv
  have hfail : Runs chosen w R (Action.fail (.notAnObject line))
      (Action.fail (.notAnObject line)) := .fail h
  cases hv with
  | plain hplain => cases v <;> first | exact hfail | contradiction
  | object => exact hxy _
  | _ => exact hfail

theorem evaluate_step {fuel : Nat} (ih : Alike chosen fuel) :
    EvaluatesAlike chosen (Running.evaluate (fuel + 1)) (Stepping.evaluate chosen (fuel + 1)) := by
  intro w layers e h hhere he
  -- From here on the operands are at the place of the expression.
  have hoperand : ∀ {e : Expr}, w.Refers layers e →
      Runs chosen w (ValueTwin chosen) (Running.evaluate fuel e)
        (Stepping.evaluate chosen fuel e) :=
    fun he => ih.evaluate w layers _ h hhere he
  have hnext : ∀ {w' : Twins} {e : Expr}, Reached chosen w w' → w.Refers layers e →
      Runs chosen w' (ValueTwin chosen) (Running.evaluate fuel e)
        (Stepping.evaluate chosen fuel e) :=
    fun hreached he => ih.evaluate _ layers _ hreached.sound (Here.reached hhere hreached)
      (he.later hreached.later)
  unfold Running.evaluate Stepping.evaluate
  cases e with
  | literal value => exact .pure h (.plain (by cases value <;> trivial))
  | grouping inner => exact hoperand (e := inner) he
  | «variable» id name => exact lookUp_runs h hhere (he id List.mem_cons_self) _ _
  | this id line => exact lookUp_runs h hhere (he id List.mem_cons_self) _ _
  | assign id name value =>
    rw [Refers, Expr.ids_assign, List.forall_mem_append] at he
    obtain ⟨hvalue, hid⟩ := he
    refine (hoperand hvalue).bind fun w₁ v v' hreached hv => ?_
    have hassign := assign_runs hreached.sound (Here.reached hhere hreached)
      (hreached.later.nodes _ _ (hid id List.mem_cons_self)) name hv
    refine hassign.bind fun w₂ _ _ hreached₂ _ => ?_
    exact .pure hreached₂.sound (hv.later hreached₂.later)
  | unary op line operand =>
    refine (hoperand (e := operand) he).bind fun w₁ v v' hreached hv => ?_
    rw [hv.resembles.unary]
    exact .ofExcept hreached.sound (IsOrdinary.twin (op.apply_ordinary line v))
  | binary op line left right =>
    rw [Refers, Expr.ids_binary, List.forall_mem_append] at he
    obtain ⟨hleft, hright⟩ := he
    refine (hoperand hleft).bind fun w₁ a a' hreached ha => ?_
    refine (hnext hreached hright).bind fun w₂ b b' hreached₂ hb => ?_
    rw [(ha.later hreached₂.later).resembles.binary hb.resembles]
    exact .ofExcept hreached₂.sound (IsOrdinary.twin (op.apply_ordinary line a b))
  | logical op left right =>
    rw [Refers, Expr.ids_logical, List.forall_mem_append] at he
    obtain ⟨hleft, hright⟩ := he
    refine (hoperand hleft).bind fun w₁ v v' hreached hv => ?_
    rw [hv.resembles.decidedBy]
    split
    · exact .pure hreached.sound hv
    · exact hnext hreached hright
  | call callee line arguments =>
    rw [Refers, Expr.ids_call, List.forall_mem_append] at he
    obtain ⟨hcallee, harguments⟩ := he
    refine (hoperand hcallee).bind fun w₁ v v' hreached hv => ?_
    refine (inOrder_runs ih.evaluate hreached.sound (Here.reached hhere hreached)
      fun id hid => hreached.later.nodes _ _ (harguments id hid)).bind
        fun w₂ vs vs' hreached₂ hvs => ?_
    exact call_runs ih.execute line hreached₂.sound (hv.later hreached₂.later) hvs
  | get object name =>
    refine (hoperand (e := object) he).bind fun w₁ v v' hreached hv => ?_
    exact onObject_runs hreached.sound (fun o => getProperty_runs hreached.sound o name) hv
  | set object name value =>
    rw [Refers, Expr.ids_set, List.forall_mem_append] at he
    obtain ⟨hvalue, hobject⟩ := he
    refine (hoperand hobject).bind fun w₁ v v' hreached hv => ?_
    refine onObject_runs hreached.sound (fun o => ?_) hv
    refine (hnext hreached hvalue).bind fun w₂ a a' hreached₂ ha => ?_
    refine (setField_runs hreached₂.sound o name.name ha).bind fun w₃ _ _ hreached₃ _ => ?_
    exact .pure hreached₃.sound (ha.later hreached₃.later)

/-! ## Statements -/

theorem block_runs {execute execute' : Stmt → Run Completion}
    (hexecute : ExecutesAlike chosen execute execute') {body : List Stmt} (h : Sound chosen w)
    (hhere : w.Here layers) (hbody : ∀ s ∈ body, Fits chosen w (.shared :: layers) s) :
    Runs chosen w (CompletionTwin chosen)
      (do
        let m ← Action.get
        let frame ← Run.make (·.newFrame (some m.frame) [])
        Run.inFrame frame (Running.inSequence execute body))
      (do
        let m ← Action.get
        let frame ← Run.make (·.newFrame (some m.frame) [])
        Run.inFrame frame (Running.inSequence execute' body)) := by
  refine .get (Runs.inNewPair _ _ h CompletionTwin.lasting .nil fun hsound => ?_)
  exact inSequence_runs hexecute hsound ((Meets.newPair hhere).later (later_inFrames _ _))
    fun s hs => (hbody s hs).later (later_withPair.trans (later_inFrames _ _))

theorem execute_step {fuel : Nat} (ih : Alike chosen fuel) :
    ExecutesAlike chosen (Running.execute (fuel + 1)) (Stepping.execute chosen (fuel + 1)) := by
  intro w layers s h hhere hs
  -- From here on the expressions are at the place of the statement.
  have hexpr : ∀ {e : Expr}, (∀ node ∈ e.layered layers, w.nodes node.1 node.2) →
      Runs chosen w (ValueTwin chosen) (Running.evaluate fuel e)
        (Stepping.evaluate chosen fuel e) :=
    fun he => ih.evaluate w layers _ h hhere (refers_iff.mp he)
  have hbranch : ∀ {w' : Twins} {s : Stmt}, Reached chosen w w' →
      (∀ node ∈ s.layered chosen layers, w.nodes node.1 node.2) → s.Regular →
      s.declaredName? = none →
      Runs chosen w' (CompletionTwin chosen) (Running.execute fuel s)
        (Stepping.execute chosen fuel s) :=
    fun hreached hnodes hregular hnone =>
      ih.execute _ layers _ hreached.sound (Here.reached hhere hreached)
        (Fits.later ⟨hnodes, hregular, fun _ => hnone⟩ hreached.later)
  -- A declaration stands in a scope that is there in any case.
  have hpaired : ∀ {w' : Twins} {name : String}, Reached chosen w w' →
      s.declaredName? = some name → w'.pairs w'.left.frame w'.right.frame :=
    fun hreached hname => Meets.paired (Here.reached hhere hreached) hreached.sound.stores
      (hs.suits.shared hname)
  obtain ⟨hnodes, hregular, -⟩ := hs
  unfold Running.execute Stepping.execute
  cases s with
  | expression e =>
    exact (hexpr hnodes).bind fun _ _ _ hreached _ => .pure hreached.sound .normal
  | print e =>
    refine (hexpr hnodes).bind fun w₁ v v' hreached hv => ?_
    exact (printLine_runs hreached.sound hv).bind fun _ _ _ hreached₂ _ =>
      .pure hreached₂.sound .normal
  | varDecl name initializer =>
    refine (hexpr hnodes).bind fun w₁ v v' hreached hv => ?_
    exact (define_runs hreached.sound (hpaired hreached rfl) name.name hv).bind
      fun _ _ _ hreached₂ _ => .pure hreached₂.sound .normal
  | block body => exact block_runs ih.execute h hhere (Fits.all (by simp) hnodes hregular)
  | ifElse condition thenBranch elseBranch =>
    cases elseBranch with
    | none =>
      obtain ⟨hcondition, hthen⟩ := List.forall_mem_append.mp hnodes
      obtain ⟨hnone, hregular⟩ := hregular
      refine (hexpr hcondition).bind fun w₁ v v' hreached hv => ?_
      rw [hv.resembles.isTruthy]
      split
      · exact hbranch hreached hthen hregular hnone
      · exact .pure hreached.sound .normal
    | some elseBranch =>
      obtain ⟨hfirst, helse⟩ := List.forall_mem_append.mp hnodes
      obtain ⟨hcondition, hthen⟩ := List.forall_mem_append.mp hfirst
      obtain ⟨⟨hnone, hregular⟩, hnone', hregular'⟩ := hregular
      refine (hexpr hcondition).bind fun w₁ v v' hreached hv => ?_
      rw [hv.resembles.isTruthy]
      split
      · exact hbranch hreached hthen hregular hnone
      · exact hbranch hreached helse hregular' hnone'
  | whileLoop condition body =>
    obtain ⟨hcondition, hbody⟩ := List.forall_mem_append.mp hnodes
    obtain ⟨hnone, hregular⟩ := hregular
    cases hstep : chosen.step? condition body with
    | none =>
      rw [hstep] at hbody
      simp only [hstep]
      exact ih.repeatWhile w layers condition body h hhere (refers_iff.mp hcondition)
        ⟨hbody, hregular, fun _ => hnone⟩
    | some stepped =>
      obtain ⟨inner, step⟩ := stepped
      obtain ⟨-, rfl, hinner⟩ := Choice.step?_eq_some.mp hstep
      rw [hstep] at hbody
      obtain ⟨hbody, hstep'⟩ := List.forall_mem_append.mp hbody
      simp only [hstep]
      exact ih.repeatStepped w layers condition step inner h hhere (refers_iff.mp hcondition)
        ⟨hbody, hregular.1, fun _ => hinner⟩ (refers_iff.mp hstep')
  | breakLoop line => exact .pure h .breaking
  | funDecl f =>
    exact declareFunction_runs h hhere (hpaired (.refl h) rfl) ⟨hnodes, hregular⟩
  | returnValue line value =>
    cases value with
    | none => exact .pure h (.returning (.plain trivial))
    | some value =>
      exact (hexpr hnodes).bind fun _ _ _ hreached hv => .pure hreached.sound (.returning hv)
  | classDecl name methods =>
    refine (declareClass_runs h hhere (hpaired (.refl h) rfl)
      (FitsFunction.all hnodes hregular)).bind ?_
    exact fun _ _ _ hreached _ => .pure hreached.sound .normal

/-! ## Loops -/

theorem repeat_step {fuel : Nat} (ih : Alike chosen fuel) :
    RepeatsAlike chosen (Running.repeatWhile (fuel + 1))
      (Stepping.repeatWhile chosen (fuel + 1)) := by
  intro w layers condition body h hhere hcondition hbody
  unfold Running.repeatWhile Stepping.repeatWhile
  refine (ih.evaluate w layers condition h hhere hcondition).bind fun w₁ v v' hreached hv => ?_
  rw [hv.resembles.isTruthy]
  split
  · refine (ih.execute w₁ layers body hreached.sound (Here.reached hhere hreached)
      (hbody.later hreached.later)).bind fun w₂ c c' hreached₂ hc => ?_
    have hreached := hreached.trans hreached₂
    cases hc with
    | normal =>
      exact ih.repeatWhile w₂ layers condition body hreached.sound (Here.reached hhere hreached)
        (hcondition.later hreached.later) (hbody.later hreached.later)
    | breaking => exact .pure hreached.sound .normal
    | returning hv => exact .pure hreached.sound (.returning hv)
  · exact .pure hreached.sound .normal

theorem stepped_step {fuel : Nat} (ih : Alike chosen fuel) :
    SteppedAlike chosen (Running.repeatWhile (fuel + 1))
      (Stepping.repeatStepped chosen (fuel + 1)) := by
  intro w layers condition step body h hhere hcondition hbody hstep
  unfold Running.repeatWhile Stepping.repeatStepped
  refine (ih.evaluate w layers condition h hhere hcondition).bind fun w₁ v v' hreached hv => ?_
  rw [hv.resembles.isTruthy]
  split
  · refine (ih.turn w₁ layers step body hreached.sound (Here.reached hhere hreached)
      (hbody.later hreached.later) (hstep.later hreached.later)).bind
        fun w₂ c c' hreached₂ hc => ?_
    have hreached := hreached.trans hreached₂
    cases hc with
    | normal =>
      exact ih.repeatStepped w₂ layers condition step body hreached.sound
        (Here.reached hhere hreached) (hcondition.later hreached.later)
        (hbody.later hreached.later) (hstep.later hreached.later)
    | breaking => exact .pure hreached.sound .normal
    | returning hv => exact .pure hreached.sound (.returning hv)
  · exact .pure hreached.sound .normal

/-- The step runs behind the body in the new frame, and on the right in the frame of the loop. A
`break` or a `return` in the body skips it on both sides. -/
theorem turn_step {fuel : Nat} (ih : Alike chosen fuel) :
    TurnsAlike chosen (Running.execute (fuel + 1)) (Stepping.turn chosen (fuel + 1)) := by
  intro w layers step body h hhere hbody hstep
  unfold Running.execute Stepping.turn
  refine Runs.look (Runs.inNewExtra h CompletionTwin.lasting fun hsound => ?_)
  have hlater : Later w ((w.withExtra w.left.frame).inFrames w.left.store.frames.size
      w.right.frame) := later_withExtra.trans (later_inFrames _ _)
  have hinside : ((w.withExtra w.left.frame).inFrames w.left.store.frames.size
      w.right.frame).Here (.extra :: layers) := (Meets.newExtra hhere).later (later_inFrames _ _)
  refine (ih.execute _ (.extra :: layers) body hsound hinside (hbody.later hlater)).bind
    fun w₁ c c' hreached hc => ?_
  cases hc with
  | normal =>
    dsimp only
    rw [Stepping.inSequence_singleton]
    refine ih.execute w₁ (.extra :: layers) (.expression step) hreached.sound
      (Here.reached hinside hreached) ⟨?_, trivial, fun _ => rfl⟩
    exact refers_iff.mpr ((hstep.later hlater).later hreached.later)
  | breaking => exact .pure hreached.sound .breaking
  | returning hv => exact .pure hreached.sound (.returning hv)

/-- **Runs with and without the frames of blocks end alike**, on every fuel. -/
theorem runs_alike (chosen : Choice) (fuel : Nat) : Alike chosen fuel := by
  induction fuel with
  | zero =>
    exact ⟨fun _ _ _ _ _ _ => .outOfFuel, fun _ _ _ _ _ _ => .outOfFuel,
      fun _ _ _ _ _ _ _ _ => .outOfFuel, fun _ _ _ _ _ _ _ _ _ _ => .outOfFuel,
      fun _ _ _ _ _ _ _ _ => .outOfFuel⟩
  | succ fuel ih =>
    exact ⟨evaluate_step ih, execute_step ih, repeat_step ih, stepped_step ih, turn_step ih⟩

end LoxLang.Twins
