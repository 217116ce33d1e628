import LoxLang.Proofs.Running.Functions

/-!
# Linked programs run in lockstep

* `evaluate_step`, `execute_step`: each clause runs in lockstep when what it runs does;
* `evaluate_runs`, `execute_runs`: from a place on, linked expressions and statements end alike, on
  every fuel, and what is entered on the way is aligned with its context.
-/

namespace LoxLang

open Scoping (Context Scope Routine)

variable {ρ : Renaming}

/-- Expressions run in lockstep, each where its context is. -/
def EvaluatesAlike (ρ : Renaming) (evaluate : Site → Expr → Tracing Value)
    (evaluate' : Expr → Run Value) : Prop :=
  ∀ (w : World) (m : Machine) (K : Findings) (ctx : Context)
    (labels : List Label) (e e' : Expr),
    Settled ρ w m → Here w ctx labels → Covers w K → ExprLinked ρ K ctx labels e e' →
    Runs ρ none w m (ValueLinked ρ) (evaluate (siteOf ctx labels) e) (evaluate' e')

/-- Loops run in lockstep, each where its context is. -/
def RepeatsAlike (ρ : Renaming) (repeatWhile : Site → Expr → Stmt → Tracing Completion)
    (repeatWhile' : Expr → Stmt → Run Completion) : Prop :=
  ∀ (w : World) (m : Machine) (K : Findings) (ctx : Context)
    (labels : List Label) (c c' : Expr) (s s' : Stmt),
    Settled ρ w m → Here w ctx labels → Covers w K → ExprLinked ρ K ctx labels c c' →
    StmtLinked ρ K { ctx with inLoop := true } labels s s' { ctx with inLoop := true } →
    Runs ρ (some w.frame) w m (fun w' d d' => CompletionLinked ρ w' d d' ∧ Here w' ctx labels)
      (repeatWhile (siteOf ctx labels) c s) (repeatWhile' c' s')

section
variable {w : World} {m : Machine} {ctx : Context} {labels : List Label}
  {K : Findings}

/-! ## Expressions -/

theorem ofExcept_runs {o : Option FrameId} (h : Settled ρ w m) {x : Except RuntimeError Value}
    (hx : IsOrdinary x) :
    Runs ρ o w m (ValueLinked ρ) (Tracing.quietly (Action.ofExcept x)) (Action.ofExcept x) := by
  obtain ⟨v, rfl, hv⟩ | ⟨e, rfl, he⟩ := hx
  · exact .ok rfl rfl (.refl h) (.plain hv)
  · exact .error h he rfl rfl

theorem inOrder_runs {evaluate : Site → Expr → Tracing Value} {evaluate' : Expr → Run Value}
    (hevaluate : EvaluatesAlike ρ evaluate evaluate') {es : List (Expr × Expr)}
    (hsettled : Settled ρ w m) (hhere : Here w ctx labels) (hcovers : Covers w K)
    (hes : ∀ e ∈ es, ExprLinked ρ K ctx labels e.1 e.2) :
    Runs ρ none w m (ValuesLinked ρ)
      (Tracing.inOrder (evaluate (siteOf ctx labels)) (es.map (·.1)))
      (Running.inOrder evaluate' (es.map (·.2))) := by
  induction es generalizing w m with
  | nil => exact .pure hsettled .nil
  | cons e rest ih =>
    obtain ⟨he, hrest⟩ := List.forall_mem_cons.mp hes
    refine (hevaluate w m K ctx labels _ _ hsettled hhere hcovers he).bind ?_
    intro w₁ m₁ v v' hreached hv
    have hcovers' := hcovers.later hreached.later
    refine (ih hreached.settled (hhere.reached hreached) hcovers' hrest).bind ?_
    intro w₂ m₂ vs vs' hreached' hvs
    exact .pure hreached'.settled (.cons (hv.later hreached'.later) hvs)

/-- The world in which it is recorded that an expression is entered. -/
def World.visit (w : World) (site : Site) (e : Expr) : World :=
  { w with left := { w.left with visits := ⟨site, e, w.machine⟩ :: w.left.visits } }

theorem Reached.visit {e e' : Expr} (hsettled : Settled ρ w m) (hhere : Here w ctx labels)
    (hcovers : Covers w K) (he : ExprLinked ρ K ctx labels e e') :
    Reached ρ none w (w.visit (siteOf ctx labels) e) m := by
  refine .record hsettled rfl (fun _ _ => rfl) (fun v hv => List.mem_cons_of_mem _ hv) ?_
    hsettled.calm
  intro v hv
  obtain rfl | hv := List.mem_cons.mp hv
  · exact ⟨hhere.aligned hsettled.linked.store e, hhere.refers hcovers he,
      hcovers.placed _ _ he.placed⟩
  · exact hsettled.linked.visits v hv

/-- A value of an object, or else a failure. -/
theorem onObject_runs {α β : Type} {R : World → α → β → Prop} {v v' : Value} {line : Nat}
    {f : ObjectId → Tracing α} {g : ObjectId → Run β} (hsettled : Settled ρ w m)
    (hfg : ∀ o, Runs ρ none w m R (f o) (g o)) :
    ValueLinked ρ w v v' → Runs ρ none w m R
      (match v with
        | .object o => f o
        | _ => Action.fail (.failure (.notAnObject line)))
      (match v' with
        | .object o => g o
        | _ => Action.fail (.notAnObject line)) := by
  intro hv
  have hfail : Runs ρ none w m R (Action.fail (.failure (.notAnObject line)))
      (Action.fail (.notAnObject line)) :=
    .error (e := .notAnObject line) hsettled (by simp) rfl rfl
  cases hv with
  | plain hplain => cases v <;> first | exact hfail | contradiction
  | object => exact hfg _
  | _ => exact hfail

theorem evaluate_step {fuel : Nat}
    (hevaluate : EvaluatesAlike ρ (Tracing.evaluate fuel) (Running.evaluate fuel))
    (hexecute : ExecutesAlike ρ (Tracing.execute fuel) (Running.execute fuel)) :
    EvaluatesAlike ρ (Tracing.evaluate (fuel + 1)) (Running.evaluate (fuel + 1)) := by
  intro w m K ctx labels e e' hsettled hhere hcovers he
  unfold Tracing.evaluate
  have hvisit := Reached.visit hsettled hhere hcovers he
  refine .record hvisit ?_
  replace hhere := hhere.reached hvisit
  replace hcovers := hcovers.later hvisit.later
  replace hsettled := hvisit.settled
  clear hvisit
  have hvisited : ∃ k, ⟨siteOf ctx labels, e, k⟩ ∈ (w.visit (siteOf ctx labels) e).left.visits :=
    ⟨_, List.mem_cons_self⟩
  change Runs ρ none (w.visit (siteOf ctx labels) e) m _ _ _
  generalize w.visit (siteOf ctx labels) e = w at hsettled hhere hcovers hvisited
  -- From here on the places of the operands are those of the expression.
  have hoperand : ∀ {e e' : Expr}, ExprLinked ρ K ctx labels e e' →
      Runs ρ none w m (ValueLinked ρ) (Tracing.evaluate fuel (siteOf ctx labels) e)
        (Running.evaluate fuel e') :=
    fun he => hevaluate w m K ctx labels _ _ hsettled hhere hcovers he
  have hnext : ∀ {w' : World} {m' : Machine} {e e' : Expr}, Reached ρ none w w' m' →
      ExprLinked ρ K ctx labels e e' →
      Runs ρ none w' m' (ValueLinked ρ) (Tracing.evaluate fuel (siteOf ctx labels) e)
        (Running.evaluate fuel e') :=
    fun hreached he => hevaluate _ _ K ctx labels _ _ hreached.settled (hhere.reached hreached)
      (hcovers.later hreached.later) he
  cases he with
  | @literal value =>
    exact .pure hsettled (.plain (by cases value <;> trivial))
  | grouping _ hinner => exact hoperand hinner
  | var _ hrecorded hready => exact lookUp_runs hsettled hhere hcovers hrecorded hready
  | @this id line _ hrecorded hready hthis =>
    have hlook : Runs ρ none w m (ValueLinked ρ) (Tracing.quietly (Run.lookUp id "this" line))
        (Run.lookUp id (ρ.reference ctx labels "this") line) :=
      lookUp_runs hsettled hhere hcovers hrecorded hready
    rw [hthis] at hlook
    exact hlook
  | assign _ hrecorded hmark hvalue =>
    refine (hoperand hvalue).bind fun w' m' v v' hreached hv => ?_
    obtain ⟨k, hvisited⟩ := hvisited
    have hassign := assign_runs hreached.settled (hhere.reached hreached)
      (hcovers.later hreached.later) hrecorded hmark (hreached.visits _ hvisited) hv
    have hreturn := hassign.bind fun w'' m'' _ _ hreached' _ =>
      Runs.pure hreached'.settled (hv.later hreached'.later)
    rw [Action.bind_assoc] at hreturn
    exact hreturn
  | @unary op line _ _ _ hx =>
    refine (hoperand hx).bind fun w' m' v v' hreached hv => ?_
    rw [hv.resembles.unary]
    exact ofExcept_runs hreached.settled (op.apply_ordinary line v)
  | @binary op line _ _ _ _ _ hleft hright =>
    refine (hoperand hleft).bind fun w' m' a a' hreached ha => ?_
    refine (hnext hreached hright).bind fun w'' m'' b b' hreached' hb => ?_
    rw [(ha.later hreached'.later).resembles.binary hb.resembles]
    exact ofExcept_runs hreached'.settled (op.apply_ordinary line a b)
  | @logical op _ _ _ _ _ hleft hright =>
    refine (hoperand hleft).bind fun w' m' v v' hreached hv => ?_
    rw [hv.resembles.decidedBy]
    cases op.decidedBy v with
    | true => exact .pure hreached.settled hv
    | false => exact hnext hreached hright
  | @call _ _ line _ _ hcallee harguments =>
    refine (hoperand hcallee).bind fun w' m' v v' hreached hv => ?_
    refine (inOrder_runs hevaluate hreached.settled (hhere.reached hreached)
      (hcovers.later hreached.later) harguments).bind fun w'' m'' vs vs' hreached' hvs => ?_
    exact call_runs hexecute line hreached'.settled (hv.later hreached'.later) hvs
  | @get _ _ name _ hobject =>
    refine (hoperand hobject).bind fun w' m' v v' hreached hv => ?_
    exact onObject_runs hreached.settled (fun o => getProperty_runs hreached.settled o name) hv
  | @set _ _ _ _ name _ hobject hvalue =>
    refine (hoperand hobject).bind fun w' m' v v' hreached hv => ?_
    refine onObject_runs hreached.settled (fun o => ?_) hv
    refine (hnext hreached hvalue).bind fun w'' m'' a a' hreached' ha => ?_
    have hset := Reached.setField hreached'.settled o name.name ha
    exact EndsAlike.earlier (Runs.pure hset.settled (ha.later hset.later)) hset

/-! ## Statements -/

theorem block_runs {execute : Site → Stmt → Tracing Completion} {execute' : Stmt → Run Completion}
    (hexecute : ExecutesAlike ρ execute execute') {label : Label} {body body' : List Stmt}
    (hsettled : Settled ρ w m) (hhere : Here w ctx labels) (hcovers : Covers w K)
    (hnames : label.names = declaredNames body) (hproper : label.Proper ρ)
    (hbody : StmtsLinked ρ K (ctx.push []) (label :: labels) body body') :
    Runs ρ none w m (CompletionLinked ρ)
      (do
        let t ← Action.get
        let frame ← Tracing.quietly (Run.make (·.newFrame (some t.machine.frame) []))
        Tracing.inFrame frame
          (Tracing.inSequence execute ((siteOf ctx labels).inBlock body) body))
      (do
        let m ← Action.get
        let frame ← Run.make (·.newFrame (some m.frame) [])
        Run.inFrame frame (Running.inSequence execute' body')) := by
  have hsite : (siteOf ctx labels).inBlock body = siteOf (ctx.push []) (label :: labels) :=
    siteOf_inBlock hnames
  have hnone : ∀ name, Bindings.isBound ([] : Bindings Value) name = true → name ∈ label.names := by
    simp [Bindings.isBound]
  have hnil : Bindings.Linked (ρ.inScope (some label)) (ValueLinked ρ w) [] [] := .nil
  refine .get ?_
  rw [hsite, hsettled.linked.frame]
  refine Runs.inNewFrame hsettled hproper hnil hnone CompletionLinked.lasting fun k hk => ?_
  have hnew := Reached.newFrame hsettled hproper hnil hnone (e := w.frame)
  have hinside : (ctx.push []).scopes = [] :: ctx.scopes := rfl
  exact inSequence_runs hexecute hk
    (Here.inNewFrame hhere.chain hsettled.linked.store.size hinside (by simp [Bindings.isBound]))
    (hcovers.later (hnew.later.trans (later_inFrame _))) hbody

theorem execute_step {fuel : Nat}
    (hevaluate : EvaluatesAlike ρ (Tracing.evaluate fuel) (Running.evaluate fuel))
    (hexecute : ExecutesAlike ρ (Tracing.execute fuel) (Running.execute fuel))
    (hrepeat : RepeatsAlike ρ (Tracing.repeatWhile fuel) (Running.repeatWhile fuel)) :
    ExecutesAlike ρ (Tracing.execute (fuel + 1)) (Running.execute (fuel + 1)) := by
  intro w m K ctx behind labels s s' hsettled hhere hcovers hs
  -- From here on the places of the expressions are those of the statement.
  have hexpr : ∀ {e e' : Expr}, ExprLinked ρ K ctx labels e e' →
      Runs ρ none w m (ValueLinked ρ) (Tracing.evaluate fuel (siteOf ctx labels) e)
        (Running.evaluate fuel e') :=
    fun he => hevaluate w m K ctx labels _ _ hsettled hhere hcovers he
  have hnormal : ∀ {o : Option FrameId} {w' : World} {m' : Machine}, Reached ρ none w w' m' →
      Runs ρ o w' m' (fun w' c c' => CompletionLinked ρ w' c c' ∧ Here w' ctx labels)
        (pure .normal) (pure .normal) :=
    fun hreached => .pure hreached.settled ⟨.normal, hhere.reached hreached⟩
  cases hs with
  | expression he =>
    exact (hexpr he).andThen fun w' m' v v' hreached hv => hnormal hreached
  | print he =>
    refine (hexpr he).andThen fun w' m' v v' hreached hv => Runs.weaken ?_
    refine (printLine_runs hreached.settled hv).bind fun w'' m'' _ _ hreached' _ => ?_
    exact hnormal (hreached.trans hreached')
  | @varDecl _ declared _ name e _ hdeclared hname he =>
    obtain ⟨hlocal, rfl⟩ := Context.declare_eq_ok.mp hdeclared
    have hinitializer := hevaluate w m K _ labels _ _ hsettled (hhere.initializing hlocal)
      hcovers he
    rw [← siteOf_inInitializer hdeclared] at hinitializer
    refine hinitializer.andThen fun w' m' v v' hreached hv => ?_
    have hhere' := hhere.reached hreached
    have hlater : Later (some w'.frame) w' (w'.withStore (w'.store.define w'.frame name.name v)) :=
      later_define (hreached.linked.store.lt (hhere'.label hreached.linked.store))
    refine (define_runs hreached.settled hhere' hname (hv.later hlater)).bind ?_
    intro w'' m'' _ _ hreached' hready
    exact .pure hreached'.settled ⟨.normal, hready⟩
  | block hnames hproper hbody =>
    have hblock := block_runs hexecute hsettled hhere hcovers hnames hproper hbody
    refine (hblock.mono fun w' m' c c' hreached hc => ?_).weaken
    exact ⟨hc, hhere.reached hreached⟩
  | ifThen hc hs =>
    refine (hexpr hc).andThen fun w' m' v v' hreached hv => ?_
    rw [hv.resembles.isTruthy]
    cases v.isTruthy with
    | true =>
      exact hexecute _ _ K _ _ labels _ _ hreached.settled (hhere.reached hreached)
        (hcovers.later hreached.later) hs
    | false => exact hnormal hreached
  | ifElse hc hs hafter hr =>
    refine (hexpr hc).andThen fun w' m' v v' hreached hv => ?_
    rw [hv.resembles.isTruthy]
    cases v.isTruthy with
    | true =>
      exact hexecute _ _ K _ _ labels _ _ hreached.settled (hhere.reached hreached)
        (hcovers.later hreached.later) hs
    | false =>
      have hsite : (siteOf ctx labels).after _ = siteOf ctx labels :=
        congrArg (siteOf · labels) hafter
      simp only [hsite]
      exact hexecute _ _ K _ _ labels _ _ hreached.settled (hhere.reached hreached)
        (hcovers.later hreached.later) hr
  | whileLoop hc hs => exact hrepeat w m K ctx labels _ _ _ _ hsettled hhere hcovers hc hs
  | breakLoop => exact .pure hsettled ⟨.breaking, hhere⟩
  | funDecl hintroduced hname hbinding hf =>
    have hdeclare := declareFunction_runs hsettled hhere hcovers hintroduced hname hbinding hf
    exact hdeclare.bind fun w' m' _ _ hreached hready =>
      Runs.pure hreached.settled ⟨CompletionLinked.normal, hready⟩
  | «return» => exact .pure hsettled ⟨.returning (.plain trivial), hhere⟩
  | returnValue he =>
    exact (hexpr he).andThen fun w' m' v v' hreached hv =>
      .pure hreached.settled ⟨.returning hv, hhere.reached hreached⟩
  | classDecl hintroduced hname hbinding hmethods =>
    refine (declareClass_runs hsettled hhere hcovers hintroduced hname hbinding hmethods).bind ?_
    intro w' m' _ _ hreached hready
    exact .pure hreached.settled ⟨.normal, hready⟩

theorem repeat_step {fuel : Nat}
    (hevaluate : EvaluatesAlike ρ (Tracing.evaluate fuel) (Running.evaluate fuel))
    (hexecute : ExecutesAlike ρ (Tracing.execute fuel) (Running.execute fuel))
    (hrepeat : RepeatsAlike ρ (Tracing.repeatWhile fuel) (Running.repeatWhile fuel)) :
    RepeatsAlike ρ (Tracing.repeatWhile (fuel + 1)) (Running.repeatWhile (fuel + 1)) := by
  intro w m K ctx labels c c' s s' hsettled hhere hcovers hc hs
  refine (hevaluate w m K ctx labels _ _ hsettled hhere hcovers hc).andThen ?_
  intro w₁ m₁ v v' hreached hv
  have hhere₁ := hhere.reached hreached
  have hcovers₁ := hcovers.later hreached.later
  rw [hv.resembles.isTruthy]
  cases v.isTruthy with
  | false => exact .pure hreached.settled ⟨.normal, hhere₁⟩
  | true =>
    have hinside : Here w₁ { ctx with inLoop := true } labels := ⟨hhere₁.chain, hhere₁.exact⟩
    refine (hexecute w₁ m₁ K _ _ labels s s' hreached.settled hinside hcovers₁ hs).bind ?_
    rintro w₂ m₂ d d' hreached₂ ⟨hd, hhere₂⟩
    have hhere₂' : Here w₂ ctx labels := ⟨hhere₂.chain, hhere₂.exact⟩
    cases hd with
    | normal =>
      have hagain := hrepeat w₂ m₂ K ctx labels c c' s s' hreached₂.settled hhere₂'
        (hcovers₁.later hreached₂.later) hc hs
      rw [hreached₂.frame] at hagain
      exact hagain
    | breaking => exact .pure hreached₂.settled ⟨.normal, hhere₂'⟩
    | returning hv => exact .pure hreached₂.settled ⟨.returning hv, hhere₂'⟩

/-- **Linked programs run in lockstep**, on every fuel. -/
theorem runsAlike (ρ : Renaming) (fuel : Nat) :
    EvaluatesAlike ρ (Tracing.evaluate fuel) (Running.evaluate fuel) ∧
    ExecutesAlike ρ (Tracing.execute fuel) (Running.execute fuel) ∧
    RepeatsAlike ρ (Tracing.repeatWhile fuel) (Running.repeatWhile fuel) := by
  induction fuel with
  | zero =>
    refine ⟨?_, ?_, ?_⟩
    · intro w m K ctx labels e e' hsettled _ _ _
      exact .outOfFuel hsettled
    · intro w m K ctx behind labels s s' hsettled _ _ _
      exact .outOfFuel hsettled
    · intro w m K ctx labels c c' s s' hsettled _ _ _ _
      exact .outOfFuel hsettled
  | succ fuel ih =>
    obtain ⟨hevaluate, hexecute, hrepeat⟩ := ih
    exact ⟨evaluate_step hevaluate hexecute, execute_step hevaluate hexecute hrepeat,
      repeat_step hevaluate hexecute hrepeat⟩

theorem evaluate_runs (ρ : Renaming) (fuel : Nat) :
    EvaluatesAlike ρ (Tracing.evaluate fuel) (Running.evaluate fuel) := (runsAlike ρ fuel).1

theorem execute_runs (ρ : Renaming) (fuel : Nat) :
    ExecutesAlike ρ (Tracing.execute fuel) (Running.execute fuel) := (runsAlike ρ fuel).2.1

end

end LoxLang
