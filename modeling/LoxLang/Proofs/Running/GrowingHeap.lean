import LoxLang.Proofs.Running.Conduct
import LoxLang.Proofs.Running.Moments

/-!
# The heap only grows

* `callClosure_enlarges`, `construct_enlarges`, `declareClass_enlarges` and the like: the plan of
  each clause goes from store to later store, and gives a value that was made by then;
* `Plan.enlarges`: so do the plans of expressions and statements, by induction on the fuel;
* `Session.Course`: the machines that anything comes by that a session can run;
* `heap_only_grows`: the store grows from each of them to the next, in every session.
-/

namespace LoxLang

namespace Plan

open Running

variable {made : Value → Prop} {m : Machine}

/-- The value has been made. -/
abbrev Made (v : Value) (made : Value → Prop) (_ : Store) : Prop := made v

/-- What is returned has been made. -/
def CompletionMade (c : Completion) (made : Value → Prop) (_ : Store) : Prop :=
  ∀ v, c = .returning v → made v

theorem CompletionMade.normal {s : Store} : CompletionMade .normal made s := nofun

theorem CompletionMade.breaking {s : Store} : CompletionMade .breaking made s := nofun

theorem CompletionMade.returning {s : Store} {v : Value} (hv : made v) :
    CompletionMade (.returning v) made s := by
  rintro w ⟨⟩
  exact hv

/-! ## Steps -/

/-- What is read has been made. -/
theorem getAt_made {s : Store} (h : s.Tracked made) {f : FrameId} {distance : Nat} {name : String}
    {v : Value} (hv : s.getAt f distance name = .ok v) : made v := by
  obtain ⟨b, -, hlocal⟩ := Store.local?_of_getAt hv
  exact h.bound b name v hlocal

theorem lookUp_enlarges (h : m.Tracked made) (id : NodeId) (name : String) (line : Nat) :
    Enlarges made m (lookUp id name line) Made := by
  refine .step h fun v s hv => ⟨made, ?_⟩
  obtain ⟨w, hfound, heq⟩ := map_eq_ok hv
  cases heq
  refine ⟨.refl h.store, ?_⟩
  unfold Run.found at hfound
  split at hfound
  · exact getAt_made h.store hfound
  · obtain ⟨b, -, hlocal⟩ := Store.local?_of_get hfound
    exact h.store.bound b name v hlocal

theorem assign_enlarges (h : m.Tracked made) (id : NodeId) (name : Identifier) {v : Value}
    (hv : made v) : Enlarges made m (assign id name v) fun _ _ _ => True := by
  refine .step h fun _ s hs => ⟨made, ?_⟩
  obtain ⟨f, -, heq⟩ := map_eq_ok hs
  cases heq
  exact ⟨.define h.store f name.name hv, trivial⟩

theorem define_enlarges (h : m.Tracked made) (name : String) {v : Value} (hv : made v) :
    Enlarges made m (define name v) fun _ _ _ => True :=
  .make h (.define h.store m.frame name hv) trivial

theorem ofExcept_enlarges {x : Except RuntimeError Value} (h : m.Tracked made)
    (hx : IsOrdinary x) : Enlarges made m (ofExcept x) Made := by
  refine .step h fun v s hv => ⟨made, ?_⟩
  obtain ⟨w, hw, heq⟩ := map_eq_ok hv
  cases heq
  obtain ⟨w', hw', hplain⟩ | ⟨e, he, -⟩ := hx
  · cases hw.symm.trans hw'
    exact ⟨.refl h.store, h.store.plain v hplain⟩
  · cases hw.symm.trans he

theorem bindMethod_enlarges {f : Closure} (h : m.Tracked made) (hf : made (.function f))
    (o : ObjectId) (name : String) :
    Enlarges made m (bindMethod f o name) fun f made _ => made (.function f) := by
  obtain ⟨made', hadvances, hbound⟩ := Store.Advances.bindMethod h.store hf o
  refine .bind (.make h hadvances (Q := fun f made _ => made (.function f)) hbound)
    fun bound made₁ m₁ hahead hbound => ?_
  refine .bind (.note _ hahead.tracked) fun _ made₂ m₂ hahead₂ _ => ?_
  exact .pure hahead₂.tracked (hahead₂.store.made _ hbound)

theorem getProperty_enlarges (h : m.Tracked made) (o : ObjectId) (name : Identifier) :
    Enlarges made m (getProperty o name) Made := by
  refine .bind (.step h (Q := fun p made _ =>
    (∀ v, p = .field v → made v) ∧ ∀ f, p = .method f → made (.function f)) fun p s hp => ?_)
    fun p made₁ m₁ hahead hp => ?_
  · obtain ⟨q, hq, heq⟩ := map_eq_ok hp
    cases heq
    refine ⟨made, .refl h.store, ?_, ?_⟩
    · rintro v rfl
      exact h.store.fields o _ v (Store.field?_of_property hq)
    · rintro f rfl
      obtain ⟨c, hc, hf⟩ := Store.method?_of_property hq
      exact h.store.methods c _ f (h.store.classes o c hc) hf
  · cases p with
    | field v => exact .pure hahead.tracked (hp.1 v rfl)
    | method f =>
      refine (bindMethod_enlarges hahead.tracked (hp.2 f rfl) o name.name).bind
        fun bound made₂ m₂ hahead₂ hbound => ?_
      exact .pure hahead₂.tracked hbound

/-! ## Calls -/

theorem newFrame_enlarges {g : FrameId → Store → FrameId × Store} {e : FrameId}
    {bindings : Bindings Value} (h : m.Tracked made)
    (hg : g m.frame m.store = m.store.newFrame (some e) bindings) (he : e < m.store.frames.size)
    (hbindings : ∀ x v, bindings.find? x = some v → made v) :
    Enlarges made m (.make g) fun frame _ s => frame < s.frames.size := by
  have hadvances := Store.Advances.newFrame h.store he hbindings
  rw [← hg] at hadvances
  refine .make h hadvances ?_
  rw [hg, Store.newFrame_fst, Store.newFrame_size]
  exact Nat.lt_succ_self _

section
variable {execute : Stmt → Plan Completion}
  (hexecute : ∀ made m s, m.Tracked made → Enlarges made m (execute s) CompletionMade)
include hexecute

theorem inSequence_enlarges (body : List Stmt) (h : m.Tracked made) :
    Enlarges made m (inSequence execute body) CompletionMade := by
  induction body generalizing made m with
  | nil => exact .pure h .normal
  | cons s rest ih =>
    refine (hexecute made m s h).bind fun c made₁ m₁ hahead hc => ?_
    cases c with
    | normal => exact ih hahead.tracked
    | _ => exact .pure hahead.tracked hc

theorem inFrame_enlarges {frame : FrameId} (body : List Stmt) (h : m.Tracked made)
    (hframe : frame < m.store.frames.size) :
    Enlarges made m (.inFrame frame (inSequence execute body)) CompletionMade :=
  .inFrame h hframe (inSequence_enlarges hexecute body ⟨h.store, hframe⟩)

theorem callClosure_enlarges {f : Closure} {arguments : List Value} (h : m.Tracked made)
    (hf : made (.function f)) (harguments : ∀ v ∈ arguments, made v) :
    Enlarges made m (callClosure execute f arguments) Made := by
  refine .bind (newFrame_enlarges h rfl (h.store.closures f hf).2
    fun _ _ hv => argumentBindings_find? f.declaration.params harguments hv)
    fun frame made₁ m₁ hahead hnew => ?_
  refine (inFrame_enlarges hexecute f.declaration.body hahead.tracked hnew).bind
    fun c made₂ m₂ hahead₂ hc => ?_
  have htracked := hahead₂.tracked
  split
  · refine .step htracked fun v s hv => ⟨made₂, ?_⟩
    obtain ⟨w, hthis, heq⟩ := map_eq_ok hv
    cases heq
    exact ⟨.refl htracked.store, getAt_made htracked.store hthis⟩
  · cases c with
    | returning v => exact .pure htracked (hc v rfl)
    | _ => exact .pure htracked (htracked.store.plain _ trivial)

theorem construct_enlarges {c : Class} {arguments : List Value} (h : m.Tracked made)
    (hc : made (.ofClass c)) (harguments : ∀ v ∈ arguments, made v) :
    Enlarges made m (construct execute c arguments) Made := by
  refine .bind (.make h (.newObject h.store hc) (Q := fun _ _ _ => True) trivial)
    fun o made₁ m₁ hahead _ => ?_
  cases hinit : c.initializer? with
  | none => exact .pure hahead.tracked (hahead.tracked.store.object o)
  | some init =>
    have hmethod := h.store.methods c "init" init hc hinit
    refine (bindMethod_enlarges hahead.tracked (hahead.store.made _ hmethod) o "init").bind
      fun bound made₂ m₂ hahead₂ hbound => ?_
    have hpassed : ∀ v ∈ arguments, made₂ v := fun v hv =>
      hahead₂.store.made v (hahead.store.made v (harguments v hv))
    have hcalled : Enlarges made₂ m₂
        (.called (.function bound) (callClosure execute bound arguments)) Made :=
      callClosure_enlarges hexecute hahead₂.tracked hbound hpassed
    refine hcalled.bind fun _ made₃ m₃ hahead₃ _ => ?_
    exact .pure hahead₃.tracked (hahead₃.tracked.store.object o)

theorem apply_enlarges {callee : Value} {arguments : List Value} (h : m.Tracked made)
    (hcallee : made callee) (harguments : ∀ v ∈ arguments, made v) :
    Enlarges made m (apply execute callee arguments) Made := by
  have hnil : Enlarges made m (Pure.pure Value.nil) Made := .pure h (h.store.plain _ trivial)
  cases callee with
  | native f =>
    cases h.store.natives f hcallee
    exact .clock arguments h
  | function f => exact callClosure_enlarges hexecute h hcallee harguments
  | ofClass c => exact construct_enlarges hexecute h hcallee harguments
  | _ => exact hnil

theorem call_enlarges {callee : Value} {arguments : List Value} (line : Nat) (h : m.Tracked made)
    (hcallee : made callee) (harguments : ∀ v ∈ arguments, made v) :
    Enlarges made m (call execute callee arguments line) Made := by
  unfold call
  split
  · exact .fail h
  · split
    · exact .fail h
    · exact .ifRoom line h
        (apply_enlarges hexecute (m := { m with depth := m.depth + 1 }) ⟨h.store, h.frame⟩ hcallee
          harguments)

end

/-! ## Declarations -/

theorem declareFunction_enlarges (f : FunctionDecl) (h : m.Tracked made) :
    Enlarges made m (declareFunction f) fun _ _ _ => True := by
  obtain ⟨made', hadvances, hclosure⟩ := Store.Advances.newClosure h.store f h.frame false
  refine .bind (.make h hadvances (Q := fun f made _ => made (.function f)) hclosure)
    fun closure made₁ m₁ hahead hclosure => ?_
  exact define_enlarges hahead.tracked f.name.name hclosure

theorem declareClass_enlarges (name : Identifier) (methods : List FunctionDecl)
    (h : m.Tracked made) : Enlarges made m (declareClass name methods) fun _ _ _ => True := by
  refine (define_enlarges h name.name (h.store.plain .nil trivial)).bind
    fun _ made₁ m₁ hahead _ => ?_
  have htracked := hahead.tracked
  obtain ⟨made', hadvances, hclass⟩ :=
    Store.Advances.newClass htracked.store name.name methods htracked.frame
  refine .bind (.make htracked hadvances (Q := fun c made _ => made (.ofClass c)) hclass)
    fun c made₂ m₂ hahead₂ hc => ?_
  refine .step hahead₂.tracked fun _ s hs => ⟨made₂, ?_⟩
  obtain ⟨f, -, heq⟩ := map_eq_ok hs
  cases heq
  exact ⟨.define hahead₂.tracked.store f name.name hc, trivial⟩

/-! ## One step -/

/-- The plans for expressions, statements and loops go from store to later store, on every
machine. -/
structure EnlargesAll (fuel : Nat) : Prop where
  evaluate (made : Value → Prop) (m : Machine) (e : Expr) :
    m.Tracked made → Enlarges made m (evaluate fuel e) Made
  execute (made : Value → Prop) (m : Machine) (s : Stmt) :
    m.Tracked made → Enlarges made m (execute fuel s) CompletionMade
  repeatWhile (made : Value → Prop) (m : Machine) (condition : Expr) (body : Stmt) :
    m.Tracked made → Enlarges made m (repeatWhile fuel condition body) CompletionMade

section
variable {fuel : Nat} (hall : EnlargesAll fuel)
include hall

theorem inOrder_enlarges (es : List Expr) (h : m.Tracked made) :
    Enlarges made m (inOrder (evaluate fuel) es) fun vs made _ => ∀ v ∈ vs, made v := by
  induction es generalizing made m with
  | nil => exact .pure h fun _ hv => absurd hv List.not_mem_nil
  | cons e rest ih =>
    refine (hall.evaluate made m e h).bind fun v made₁ m₁ hahead hv => ?_
    refine (ih hahead.tracked).bind fun vs made₂ m₂ hahead₂ hvs => ?_
    exact .pure hahead₂.tracked (List.forall_mem_cons.mpr ⟨hahead₂.store.made v hv, hvs⟩)

theorem evaluate_enlarges (e : Expr) (h : m.Tracked made) :
    Enlarges made m (evaluate (fuel + 1) e) Made := by
  unfold evaluate
  refine .bind (.note _ h) fun _ made m hahead _ => ?_
  have h := hahead.tracked
  cases e with
  | literal value =>
    refine .pure h (h.store.plain _ ?_)
    cases value <;> trivial
  | grouping inner => exact hall.evaluate made m inner h
  | «variable» id name => exact lookUp_enlarges h id name.name name.line
  | this id line => exact lookUp_enlarges h id "this" line
  | assign id name value =>
    refine (hall.evaluate made m value h).bind fun v made₁ m₁ hahead hv => ?_
    refine (assign_enlarges hahead.tracked id name hv).bind fun _ made₂ m₂ hahead₂ _ => ?_
    exact .pure hahead₂.tracked (hahead₂.store.made v hv)
  | unary op line operand =>
    refine (hall.evaluate made m operand h).bind fun v made₁ m₁ hahead _ => ?_
    exact ofExcept_enlarges hahead.tracked (op.apply_ordinary line v)
  | binary op line left right =>
    refine (hall.evaluate made m left h).bind fun v made₁ m₁ hahead _ => ?_
    refine (hall.evaluate made₁ m₁ right hahead.tracked).bind fun w made₂ m₂ hahead₂ _ => ?_
    exact ofExcept_enlarges hahead₂.tracked (op.apply_ordinary line v w)
  | logical op left right =>
    refine (hall.evaluate made m left h).bind fun v made₁ m₁ hahead hv => ?_
    split
    · exact .pure hahead.tracked hv
    · exact hall.evaluate made₁ m₁ right hahead.tracked
  | call callee line arguments =>
    refine (hall.evaluate made m callee h).bind fun v made₁ m₁ hahead hv => ?_
    refine (inOrder_enlarges hall arguments hahead.tracked).bind fun vs made₂ m₂ hahead₂ hvs => ?_
    exact call_enlarges hall.execute line hahead₂.tracked (hahead₂.store.made v hv) hvs
  | get object name =>
    refine (hall.evaluate made m object h).bind fun v made₁ m₁ hahead _ => ?_
    cases v with
    | object o => exact getProperty_enlarges hahead.tracked o name
    | _ => exact .fail hahead.tracked
  | set object name value =>
    refine (hall.evaluate made m object h).bind fun v made₁ m₁ hahead _ => ?_
    cases v with
    | object o =>
      refine (hall.evaluate made₁ m₁ value hahead.tracked).bind fun w made₂ m₂ hahead₂ hw => ?_
      have hset := Store.Advances.setField hahead₂.tracked.store o name.name hw
      refine .bind (.make hahead₂.tracked hset (Q := fun _ _ _ => True) trivial)
        fun _ made₃ m₃ hahead₃ _ => ?_
      exact .pure hahead₃.tracked (hahead₃.store.made w hw)
    | _ => exact .fail hahead.tracked

theorem execute_enlarges (s : Stmt) (h : m.Tracked made) :
    Enlarges made m (execute (fuel + 1) s) CompletionMade := by
  unfold execute
  refine .bind (.note _ h) fun _ made m hahead _ => ?_
  have h := hahead.tracked
  cases s with
  | expression e =>
    refine (hall.evaluate made m e h).bind fun _ made₁ m₁ hahead _ => ?_
    exact .pure hahead.tracked .normal
  | print e =>
    refine (hall.evaluate made m e h).bind fun v made₁ m₁ hahead _ => ?_
    refine (Enlarges.print v hahead.tracked).bind fun _ made₂ m₂ hahead₂ _ => ?_
    exact .pure hahead₂.tracked .normal
  | varDecl name e =>
    refine (hall.evaluate made m e h).bind fun v made₁ m₁ hahead hv => ?_
    refine (define_enlarges hahead.tracked name.name hv).bind fun _ made₂ m₂ hahead₂ _ => ?_
    exact .pure hahead₂.tracked .normal
  | block body =>
    refine .bind (newFrame_enlarges h rfl h.frame fun _ _ hv => by cases hv)
      fun frame made₁ m₁ hahead hnew => ?_
    exact inFrame_enlarges hall.execute body hahead.tracked hnew
  | ifElse condition thenBranch elseBranch =>
    refine (hall.evaluate made m condition h).bind fun v made₁ m₁ hahead _ => ?_
    split
    · exact hall.execute made₁ m₁ thenBranch hahead.tracked
    · split
      · exact hall.execute made₁ m₁ _ hahead.tracked
      · exact .pure hahead.tracked .normal
  | whileLoop condition body => exact hall.repeatWhile made m condition body h
  | breakLoop line => exact .pure h .breaking
  | funDecl f =>
    refine (declareFunction_enlarges f h).bind fun _ made₁ m₁ hahead _ => ?_
    exact .pure hahead.tracked .normal
  | returnValue line value =>
    cases value with
    | none => exact .pure h (.returning (h.store.plain .nil trivial))
    | some e =>
      refine (hall.evaluate made m e h).bind fun v made₁ m₁ hahead hv => ?_
      exact .pure hahead.tracked (.returning hv)
  | classDecl name methods =>
    refine (declareClass_enlarges name methods h).bind fun _ made₁ m₁ hahead _ => ?_
    exact .pure hahead.tracked .normal

theorem repeatWhile_enlarges (condition : Expr) (body : Stmt) (h : m.Tracked made) :
    Enlarges made m (repeatWhile (fuel + 1) condition body) CompletionMade := by
  unfold repeatWhile
  refine (hall.evaluate made m condition h).bind fun v made₁ m₁ hahead _ => ?_
  split
  · refine (hall.execute made₁ m₁ body hahead.tracked).bind fun c made₂ m₂ hahead₂ hc => ?_
    cases c with
    | normal => exact hall.repeatWhile made₂ m₂ condition body hahead₂.tracked
    | breaking => exact .pure hahead₂.tracked .normal
    | returning v => exact .pure hahead₂.tracked hc
  · exact .pure hahead.tracked .normal

end

/-- **In every run the store grows**, on every fuel. -/
theorem enlarges (fuel : Nat) : EnlargesAll fuel := by
  induction fuel with
  | zero =>
    exact ⟨fun _ _ _ h => .outOfFuel h, fun _ _ _ h => .outOfFuel h, fun _ _ _ _ h => .outOfFuel h⟩
  | succ fuel ih =>
    exact ⟨fun _ _ e h => evaluate_enlarges ih e h, fun _ _ s h => execute_enlarges ih s h,
      fun _ _ condition body h => repeatWhile_enlarges ih condition body h⟩

theorem program_enlarges (fuel : Nat) (p : Program) (h : m.Tracked made) :
    Enlarges made m (program fuel p) fun _ _ _ => True := by
  unfold program
  induction p generalizing made m with
  | nil => exact .pure h trivial
  | cons s rest ih =>
    refine ((enlarges fuel).execute made m s h).bind fun _ made₁ m₁ hahead _ => ?_
    exact ih hahead.tracked

end Plan

/-! ## Sessions -/

namespace Session

/-- The machines that a request comes by. -/
def moments (fuel : Nat) (s : Session) : Request → List Machine
  | .run source =>
    match checkSource source s.nextId with
    | (.error _, _) => []
    | (.ok checked, _) => (Plan.program fuel checked.program).moments Run.printLine
        (s.machine.extend checked.distances)
  | .evaluate source =>
    match parseExpressionSource source s.nextId with
    | (.error _, _) => []
    | (.ok e, _) => (Plan.evaluate fuel e).moments Run.printLine s.machine

/-- The machines that an expression, a statement, a call or a request comes by in a session: the one
at the start, all those on the way, and the one at the end, unless the fuel runs out. What is called
and its arguments can be any values that the store has to offer. -/
inductive Course (s : Session) : List Machine → Prop
  | expression (fuel : Nat) (e : Expr) : Course s (s.machine ::
      ((Plan.evaluate fuel e).moments Run.printLine s.machine
        ++ (Running.evaluate fuel e s.machine).state?.toList))
  | statement (fuel : Nat) (body : Stmt) : Course s (s.machine ::
      ((Plan.execute fuel body).moments Run.printLine s.machine
        ++ (Running.execute fuel body s.machine).state?.toList))
  | call (fuel : Nat) (callee : Value) (arguments : List Value) (line : Nat) :
      (∀ v ∈ callee :: arguments, s.machine.store.Offers v) → Course s (s.machine ::
        ((Plan.call (Plan.execute fuel) callee arguments line).moments Run.printLine s.machine
          ++ (Running.call (Running.execute fuel) callee arguments line s.machine).state?.toList))
  | request (fuel : Nat) (request : Request) : Course s (s.machine ::
      (s.moments fuel request ++ (s.answer fuel request).toList.map (·.2.machine)))

variable {maxDepth : Nat} {output : Output} {host : Host} {s s' : Session} {made : Value → Prop}

/-- From start to end, or to where the fuel runs out. -/
theorem growing_of_unfolds {m m' : Machine} {ms ending : List Machine} {made' : Value → Prop}
    (h : Unfolds made m ms made' m') (hm : m.Tracked made) (hending : ∀ n ∈ ending, n = m')
    (hone : ending.length ≤ 1) : Growing (m :: (ms ++ ending)) := by
  refine (h.growing hm).sublist (.cons_cons m (.append_left ?_ ms))
  match ending, hone with
  | [], _ => exact List.nil_sublist _
  | [n], _ => exact hending n List.mem_cons_self ▸ .refl _

theorem growing_of_enlarges {α : Type} {x : Plan α} {y : Run α} {m : Machine}
    {Q : α → (Value → Prop) → Store → Prop} (hm : m.Tracked made) (hx : Plan.Enlarges made m x Q)
    (hperforms : x.perform Run.printLine = y) :
    Growing (m :: (x.moments Run.printLine m ++ (y m).state?.toList)) := by
  obtain ⟨made', m', hunfolds, hstate, -⟩ := hx
  rw [hperforms] at hstate
  refine growing_of_unfolds hunfolds hm (fun n hn => hstate n (Option.mem_toList.mp hn)) ?_
  cases (y m).state? <;> simp

/-- From the machine of a session the store grows through these machines, to the one that the answer
leaves, if there is an answer. -/
def Passes (made : Value → Prop) (s : Session) (ms : List Machine)
    (answer : Option (Reply × Session)) : Prop :=
  ∃ made' m', Unfolds made s.machine ms made' m' ∧ ∀ r, answer = some r → r.2.machine = m'

/-- Nothing runs on a source that is refused. -/
theorem passes_of_refused (h : s.machine.Tracked made) {answer : Option (Reply × Session)}
    (hanswer : ∀ r, answer = some r → r.2.machine = s.machine) : Passes made s [] answer :=
  ⟨made, s.machine, .last (.refl h), hanswer⟩

/-- The end of a plan, where the session may still go back into the global scope. -/
theorem passes_of_enlarges {α : Type} {x : Plan α} {m : Machine}
    {Q : α → (Value → Prop) → Store → Prop} {answer : Option (Reply × Session)}
    (hx : Plan.Enlarges made m x Q) (hstart : Ahead made s.machine made m)
    (hanswer : ∀ r, answer = some r → ∃ m', (x.perform Run.printLine m).state? = some m' ∧
      (r.2.machine = m' ∨ r.2.machine = m'.reset)) :
    Passes made s (x.moments Run.printLine m) answer := by
  obtain ⟨made', m', hunfolds, hstate, -⟩ := hx
  have hall := hunfolds.behind hstart
  cases hr : answer with
  | none => exact ⟨made', m', hall, nofun⟩
  | some r =>
    obtain ⟨n, hn, hend⟩ := hanswer r hr
    rw [hstate n hn] at hend
    have hlast : Ahead made' m' made' r.2.machine := by
      have htracked := hall.ahead.tracked
      obtain hend | hend := hend <;> rw [hend]
      · exact .refl htracked
      · exact .of_store htracked.store rfl htracked.store.rooted.globals
    refine ⟨made', r.2.machine, hall.further hlast, ?_⟩
    rintro _ ⟨⟩
    rfl

theorem run_passes (h : s.machine.Tracked made) (fuel : Nat) (source : String) :
    Passes made s (s.moments fuel (.run source)) (s.answer fuel (.run source)) := by
  cases hcheck : checkSource source s.nextId with
  | mk answer next =>
    cases answer with
    | error problems =>
      simp only [moments, hcheck]
      exact passes_of_refused h fun r hr => answer_run_refused hcheck hr
    | ok checked =>
      simp only [moments, hcheck]
      have hextended : Ahead made s.machine made (s.machine.extend checked.distances) :=
        .of_store h.store rfl h.frame
      exact passes_of_enlarges (Plan.program_enlarges fuel checked.program hextended.tracked)
        hextended fun r hr => answer_run_accepted hcheck hr

theorem evaluate_passes (h : s.machine.Tracked made) (fuel : Nat) (source : String) :
    Passes made s (s.moments fuel (.evaluate source)) (s.answer fuel (.evaluate source)) := by
  cases hparse : parseExpressionSource source s.nextId with
  | mk answer next =>
    cases answer with
    | error problems =>
      simp only [moments, hparse]
      exact passes_of_refused h fun r hr => answer_evaluate_refused hparse hr
    | ok e =>
      simp only [moments, hparse]
      exact passes_of_enlarges ((Plan.enlarges fuel).evaluate made _ e h) (.refl h) fun r hr =>
        ⟨r.2.machine, answer_evaluate_accepted hparse hr, .inl rfl⟩

theorem request_passes (h : s.machine.Tracked made) (fuel : Nat) (request : Request) :
    Passes made s (s.moments fuel request) (s.answer fuel request) := by
  cases request with
  | run source => exact run_passes h fuel source
  | evaluate source => exact evaluate_passes h fuel source

/-- At first there are the global variables, with the clock. -/
theorem initial_tracked (maxDepth : Nat) (output : Output) (host : Host) :
    (initial maxDepth output host).machine.Tracked fun v =>
      v.IsPlain ∨ (∃ o, v = .object o) ∨ v = .native .clock where
  frame := Nat.zero_lt_one
  store := by
    have hframe (f : FrameId) : Store.initial.frame f
        = if f = globals then ⟨[("clock", .native .clock)], none⟩ else ⟨[], none⟩ := by
      cases f <;> rfl
    exact {
      rooted := ⟨Nat.zero_lt_one, rfl, fun f hf hne => absurd (Nat.lt_one_iff.mp hf) hne⟩
      plain := fun v hv => .inl hv
      object := fun o => .inr (.inl ⟨o, rfl⟩)
      bound := fun f x v hv => by
        change (Store.initial.frame f).bindings.find? x = some v at hv
        rw [hframe] at hv
        split at hv
        · rw [Bindings.find?_cons] at hv
          split at hv <;> cases hv
          exact .inr (.inr rfl)
        · cases hv
      fields := nofun
      classes := nofun
      methods := nofun
      natives := by
        rintro f (⟨⟨⟩⟩ | ⟨_, ⟨⟩⟩ | ⟨⟨⟩⟩)
        rfl
      closures := nofun
      classStamps := nofun
      sameFunction := nofun
      sameClass := nofun }

theorem Reachable.tracked (h : Reachable maxDepth output host s) :
    ∃ made, s.machine.Tracked made := by
  induction h with
  | initial => exact ⟨_, initial_tracked maxDepth output host⟩
  | @answer s s' fuel request reply _ hanswer ih =>
    obtain ⟨made, htracked⟩ := ih
    obtain ⟨made', m', hunfolds, hend⟩ := request_passes htracked fuel request
    rw [hend _ hanswer]
    exact ⟨made', hunfolds.ahead.tracked⟩

end Session

/-- **The heap only grows.** Whatever is run in a session, from any machine that it comes by to any
later one, however it ends: every frame stays in the frame that encloses it and keeps its names,
every object stays of its class and keeps its fields, and functions and classes stay what they are.
Each frame was made inside of an older one, so that from the current frame, from the frame of every
function and from every other frame the way out ends in the global variables. -/
theorem heap_only_grows {maxDepth : Nat} {output : Output} {host : Host} {s : Session}
    (h : Session.Reachable maxDepth output host s) {ms : List Machine} (hms : s.Course ms) :
    Growing ms := by
  obtain ⟨made, hm⟩ := h.tracked
  cases hms with
  | expression fuel e =>
    exact Session.growing_of_enlarges hm ((Plan.enlarges fuel).evaluate made _ e hm)
      (Plan.evaluate_performs fuel e)
  | statement fuel body =>
    exact Session.growing_of_enlarges hm ((Plan.enlarges fuel).execute made _ body hm)
      (Plan.execute_performs fuel body)
  | call fuel callee arguments line hoffers =>
    obtain ⟨hcallee, harguments⟩ := List.forall_mem_cons.mp hoffers
    exact Session.growing_of_enlarges hm
      (Plan.call_enlarges (Plan.enlarges fuel).execute line hm (hm.store.offers hcallee)
        fun v hv => hm.store.offers (harguments v hv))
      (Plan.Performs.call (Plan.execute_performs fuel) callee arguments line)
  | request fuel request =>
    obtain ⟨made', m', hunfolds, hend⟩ := Session.request_passes hm fuel request
    refine Session.growing_of_unfolds hunfolds hm (fun n hn => ?_) ?_
    · obtain ⟨r, hr, rfl⟩ := List.mem_map.mp hn
      exact hend r (Option.mem_toList.mp hr)
    · cases s.answer fuel request <;> simp

/-- A class, and an object of it with a field. -/
def objectWithField : Request :=
  .run "class A \x7b init() \x7b this.x = nil; \x7d \x7d var a = A();"

/-- A block that makes another object, changes the first one, and fails. -/
def failingBlock : Request := .run "\x7b var b = A(); a.x = b; b.y; \x7d"

set_option maxRecDepth 1000 in
theorem failingBlock_grows :
    ∃ s s', Session.Reachable 8 .unlimited .nominal s ∧
      s.answer 60 failingBlock = some (.error [.runtime (.undefinedProperty "y" 1)], s') ∧
      s.machine.store.GrowsTo s'.machine.store ∧
      s.machine.store.frames.size = 3 ∧ s'.machine.store.frames.size = 6 ∧
      ∃ k, s'.machine.store.climb k 5 = .ok globals := by
  let s₀ : Session := .initial 8 .unlimited .nominal
  have hruns : (s₀.answer 60 objectWithField).bind (fun r =>
      (r.2.answer 60 failingBlock).map fun r' =>
        (r'.1, r.2.machine.store.frames.size, r'.2.machine.store.frames.size))
      = some (.error [.runtime (.undefinedProperty "y" 1)], 3, 6) := by cbv
  obtain ⟨⟨reply, s⟩, hanswer, hrest⟩ := Option.bind_eq_some_iff.mp hruns
  obtain ⟨⟨reply', s'⟩, hanswer', heq⟩ := Option.map_eq_some_iff.mp hrest
  obtain ⟨rfl, hbefore, hafter⟩ : _ ∧ _ ∧ _ := by simpa using heq
  have hreachable : Session.Reachable 8 .unlimited .nominal s := .answer .initial hanswer
  have hgrowing := heap_only_grows hreachable (.request 60 failingBlock)
  rw [hanswer'] at hgrowing
  have hlast : s'.machine ∈ s.moments 60 failingBlock ++ [s'.machine] :=
    List.mem_append_right _ List.mem_cons_self
  refine ⟨s, s', hreachable, hanswer', ?_, hbefore, hafter, ?_⟩
  · exact (List.pairwise_cons.mp hgrowing.stores).1 _ hlast
  · exact (hgrowing.anchored _ (List.mem_cons_of_mem _ hlast)).climbs 5 (by rw [hafter]; decide)

end LoxLang
