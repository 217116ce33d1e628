import Mathlib
import LoxLang.Proofs.Running.Fuel
import LoxLang.Proofs.Running.Recoding
import LoxLang.Proofs.Running.Restoration
import LoxLang.Proofs.Running.Sessions

/-!
# Programs without loops end

Without loops, the only way back to code that is running is a call. A call runs with less room
below the limit, and within one call everything that runs is a part of what ran before. So the room
that is left, and then the syntax, go down.

* `Stmt.loopFree`: no loop stands in a statement;
* `loopless`: the recoding that empties functions with loops, so that a store stays as it is when
  no loop stands in it;
* `Ends`: a run that ends on all fuel from some amount on, and leaves no loops in the store;
* `loop_free_sessions_end`: a session without loops ends.
-/

namespace LoxLang

mutual

/-- No loop stands in the statement. -/
def Stmt.loopFree : Stmt → Bool
  | .expression _ => true
  | .print _ => true
  | .varDecl _ _ => true
  | .block body => Stmt.allLoopFree body
  | .ifElse _ thenBranch none => thenBranch.loopFree
  | .ifElse _ thenBranch (some elseBranch) => thenBranch.loopFree && elseBranch.loopFree
  | .whileLoop _ _ => false
  | .breakLoop _ => true
  | .funDecl function => function.loopFree
  | .returnValue _ _ => true
  | .classDecl _ methods => FunctionDecl.allLoopFree methods

def Stmt.allLoopFree : List Stmt → Bool
  | [] => true
  | s :: rest => s.loopFree && Stmt.allLoopFree rest

def FunctionDecl.loopFree : FunctionDecl → Bool
  | .mk _ _ body => Stmt.allLoopFree body

def FunctionDecl.allLoopFree : List FunctionDecl → Bool
  | [] => true
  | f :: rest => f.loopFree && FunctionDecl.allLoopFree rest

end

theorem Stmt.loopFree_of_all {ss : List Stmt} (h : Stmt.allLoopFree ss = true) :
    ∀ s ∈ ss, s.loopFree = true := by
  induction ss with
  | nil => exact fun _ hs => nomatch hs
  | cons s rest ih =>
    obtain ⟨hs, hrest⟩ := Bool.and_eq_true_iff.mp h
    exact List.forall_mem_cons.mpr ⟨hs, ih hrest⟩

/-- The recoding that empties the functions in which a loop stands. -/
def loopless : Recoding where
  line := id
  node := id
  code f := if f.loopFree then f else .mk f.name f.params []
  name f := by split <;> rfl
  params f := by split <;> rfl

theorem loopless_eq_self_iff {f : FunctionDecl} : loopless.code f = f ↔ f.loopFree = true := by
  refine ⟨fun h => ?_, fun h => if_pos h⟩
  cases hf : f.loopFree with
  | true => rfl
  | false =>
    have hempty : FunctionDecl.mk f.name f.params [] = f :=
      (if_neg (Bool.eq_false_iff.mp hf)).symm.trans h
    rw [← hf, ← hempty]
    rfl

theorem loopless_all {fs : List FunctionDecl} (h : FunctionDecl.allLoopFree fs = true) :
    fs.map loopless.code = fs := by
  induction fs with
  | nil => rfl
  | cons f rest ih =>
    obtain ⟨hf, hrest⟩ := Bool.and_eq_true_iff.mp h
    rw [List.map_cons, loopless_eq_self_iff.mpr hf, ih hrest]

theorem loopless_matches (T : DistanceTable) : loopless.Matches T T := fun _ => rfl

open Running

/-- What the functions of the host give back is made from declarations that they are given. -/
def Host.MakesNoCode (host : Host) : Prop :=
  ∀ f s arguments v, host.call f s arguments = .ok v →
    ∀ d ∈ v.declarations, s.Holds d ∨ ∃ a ∈ arguments, d ∈ a.declarations

/-- No loop stands in the store, and there is room for so many further calls at the most. -/
structure Machine.LoopFree (room : Nat) (m : Machine) : Prop where
  store : loopless.store m.store = m.store
  host : m.host.MakesNoCode
  room : m.maxDepth ≤ m.depth + room

variable {α β : Type} {room : Nat}

/-- How a run ends that leaves no loops in the store, and gives none back. -/
inductive LeavesNoLoops (φ : α → α) : Outcome RuntimeError Machine α → Prop
  | ok {a : α} {m : Machine} :
    φ a = a → loopless.store m.store = m.store → LeavesNoLoops φ (.ok a m)
  | error {e : RuntimeError} {m : Machine} :
    loopless.store m.store = m.store → LeavesNoLoops φ (.error e m)

/-- An outcome that a run can have which leaves no loops, and keeps what a run should. -/
structure EndsWell (φ : α → α) (m : Machine) (o : Outcome RuntimeError Machine α) : Prop where
  leaves : LeavesNoLoops φ o
  kept (m' : Machine) : o.state? = some m' → Kept m m'

/-- On all fuel from some amount on the run ends, and always in the same way. -/
def Ends (room : Nat) (φ : α → α) (X : Nat → Run α) : Prop :=
  ∀ m, m.LoopFree room → ∃ o enough, EndsWell φ m o ∧ ∀ fuel, enough ≤ fuel → X fuel m = o

theorem Machine.LoopFree.kept {m m' : Machine} (h : m.LoopFree room) (hk : Kept m m')
    (hs : loopless.store m'.store = m'.store) : m'.LoopFree room where
  store := hs
  host := hk.host ▸ h.host
  room := by
    rw [hk.maxDepth, hk.depth]
    exact h.room

theorem EndsWell.mapState {φ : α → α} {m₁ m : Machine} {o : Outcome RuntimeError Machine α}
    {f : Machine → Machine} (h : EndsWell φ m₁ o) (hstore : ∀ m', (f m').store = m'.store)
    (hback : ∀ m', Kept m₁ m' → Kept m (f m')) : EndsWell φ m (o.mapState f) where
  leaves := by
    cases h.leaves with
    | ok ha hs => exact .ok ha (by rw [hstore, hs])
    | error hs => exact .error (by rw [hstore, hs])
  kept m' hm' := by
    rw [Outcome.state?_mapState] at hm'
    obtain ⟨m₂, hm₂, rfl⟩ := Option.map_eq_some_iff.mp hm'
    exact hback m₂ (h.kept m₂ hm₂)

namespace Ends

variable {φ : α → α} {ψ : β → β}

/-- A run that does not need fuel. -/
theorem of_forall {x : Run α} (hx : Keeps x)
    (h : ∀ m, m.LoopFree room → LeavesNoLoops φ (x m)) : Ends room φ fun _ => x := fun m hm =>
  ⟨x m, 0, ⟨h m hm, hx m⟩, fun _ _ => rfl⟩

/-- A step on the store that commutes with taking loops away makes none. -/
theorem onStore {f : StoreStep α} (hf : loopless.Carries φ f f) :
    Ends room φ fun _ => Run.onStore f := by
  refine .of_forall (.onStore f) fun m hm => ?_
  have hcarries := hf m.frame m.store (loopless_matches m.distances)
  rw [hm.store] at hcarries
  unfold Run.onStore
  cases hfm : f m.distances m.frame m.store with
  | ok r =>
    obtain ⟨a, s⟩ := r
    rw [hfm] at hcarries
    obtain ⟨ha, hs⟩ := Prod.mk.inj (Except.ok.inj hcarries)
    exact .ok ha.symm hs.symm
  | error e => exact .error hm.store

theorem make {g : FrameId → Store → α × Store}
    (h : ∀ frame s, g frame (loopless.store s) = (φ (g frame s).1, loopless.store (g frame s).2)) :
    Ends room φ fun _ => Run.onStore fun _ frame s => .ok (g frame s) :=
  .onStore (Recoding.carries_make h)

theorem pure {a : α} (ha : φ a = a) : Ends room φ fun _ => (Pure.pure a : Run α) :=
  .make (g := fun _ s => (a, s)) fun _ _ => by rw [ha]

theorem fail (e : RuntimeError) : Ends room φ fun _ => (Action.fail e : Run α) :=
  .of_forall (.onStore fun _ _ _ => .error e) fun _ hm => .error hm.store

theorem write (text : String) : Ends room (fun u => u) fun _ => Run.write text := by
  refine .of_forall (.write text) fun m hm => ?_
  unfold Run.write
  split
  · exact .ok rfl hm.store
  · split
    · exact .error hm.store
    · exact .ok rfl hm.store

theorem callNative (f : Native) {arguments : List Value}
    (ha : arguments.map loopless.value = arguments) :
    Ends room loopless.value fun _ => callNative f arguments := by
  refine .of_forall (.callNative f arguments) fun m hm => ?_
  unfold Running.callNative
  split
  · exact .ok rfl hm.store
  · cases hcall : m.host.call f m.store arguments with
    | ok v =>
      refine .ok ((loopless.value_eq_self_iff v).mpr fun d hd => ?_) hm.store
      obtain hholds | ⟨a, hmem, hda⟩ := hm.host f m.store arguments v hcall d hd
      · exact (loopless.store_eq_self_iff m.store).mp hm.store d hholds
      · have hself := List.map_eq_map_iff.mp (ha.trans (List.map_id arguments).symm) a hmem
        exact (loopless.value_eq_self_iff a).mp hself d hda
    | error message => exact .error hm.store

theorem bind {X : Nat → Run α} {F : Nat → α → Run β} (hX : Ends room φ X)
    (hF : ∀ a, φ a = a → Ends room ψ fun fuel => F fuel a) :
    Ends room ψ fun fuel => X fuel >>= F fuel := by
  intro m hm
  obtain ⟨o, enough, ho, hXm⟩ := hX m hm
  cases ho.leaves with
  | @ok a m₁ ha hs =>
    have hk := ho.kept m₁ rfl
    obtain ⟨o', enough', ho', hFm⟩ := hF a ha m₁ (hm.kept hk hs)
    refine ⟨o', max enough enough', ⟨ho'.leaves, fun m' hm' => hk.trans (ho'.kept m' hm')⟩,
      fun fuel hfuel => ?_⟩
    have hfirst := hXm fuel (Nat.le_trans (Nat.le_max_left ..) hfuel)
    exact (Action.bind_of_ok hfirst).trans (hFm fuel (Nat.le_trans (Nat.le_max_right ..) hfuel))
  | error hs =>
    exact ⟨_, enough, ⟨.error hs, fun m' hm' => ho.kept m' hm'⟩,
      fun fuel hfuel => Action.bind_of_error (hXm fuel hfuel)⟩

theorem inFrame (frame : FrameId) {X : Nat → Run α} (hX : Ends room φ X) :
    Ends room φ fun fuel => Run.inFrame frame (X fuel) := by
  intro m hm
  obtain ⟨o, enough, ho, hXm⟩ := hX { m with frame } ⟨hm.store, hm.host, hm.room⟩
  refine ⟨o.mapState fun m' => { m' with frame := m.frame }, enough,
    ho.mapState (fun _ => rfl) fun _ => .inFrame, fun fuel hfuel => ?_⟩
  dsimp only
  rw [Run.inFrame_apply, hXm fuel hfuel]

/-- Where there is no room, a call fails. -/
theorem ifRoom_zero (line : Nat) (X : Nat → Run α) :
    Ends 0 φ fun fuel => Run.ifRoom line (X fuel) := fun m hm =>
  ⟨.error (.stackOverflow line) m, 0, ⟨.error hm.store, fun _ h => Option.some.inj h ▸ .refl m⟩,
    fun _ _ => if_pos hm.room⟩

/-- A call leaves less room for the calls in it. -/
theorem ifRoom_succ (line : Nat) {X : Nat → Run α} (hX : Ends room φ X) :
    Ends (room + 1) φ fun fuel => Run.ifRoom line (X fuel) := by
  intro m hm
  by_cases hfull : m.maxDepth ≤ m.depth
  · exact ⟨.error (.stackOverflow line) m, 0,
      ⟨.error hm.store, fun _ h => Option.some.inj h ▸ .refl m⟩, fun _ _ => if_pos hfull⟩
  · have hroom : m.maxDepth ≤ m.depth + 1 + room := by
      have := hm.room
      omega
    obtain ⟨o, enough, ho, hXm⟩ := hX { m with depth := m.depth + 1 } ⟨hm.store, hm.host, hroom⟩
    refine ⟨o.mapState fun m' => { m' with depth := m'.depth - 1 }, enough,
      ho.mapState (fun _ => rfl) fun _ => .oneDeeper, fun fuel hfuel => ?_⟩
    have hdeeper : Run.ifRoom line (X fuel) m = Run.oneDeeper (X fuel) m := if_neg hfull
    dsimp only
    rw [hdeeper, Run.oneDeeper_apply, hXm fuel hfuel]

theorem ite {p : Prop} [Decidable p] {X Y : Nat → Run α} (hX : p → Ends room φ X)
    (hY : ¬ p → Ends room φ Y) : Ends room φ fun fuel => if p then X fuel else Y fuel := by
  by_cases h : p
  · simpa only [if_pos h] using hX h
  · simpa only [if_neg h] using hY h

/-- A run on one more fuel. -/
theorem succ {X : Nat → Run α} (h : Ends room φ fun fuel => X (fuel + 1)) : Ends room φ X := by
  intro m hm
  obtain ⟨o, enough, ho, hXm⟩ := h m hm
  refine ⟨o, enough + 1, ho, fun fuel hfuel => ?_⟩
  obtain ⟨less, rfl⟩ := Nat.exists_eq_add_of_le' hfuel
  exact hXm (less + enough) (Nat.le_add_left ..)

end Ends

/-! ## Statements and expressions -/

section
variable {evaluate : Nat → Expr → Run Value} {execute : Nat → Stmt → Run Completion}

theorem printLine_ends {v : Value} (hv : loopless.value v = v) :
    Ends room (fun u => u) fun _ => Run.printLine v := by
  have hdisplay : Ends room (fun text => text) fun _ =>
      Run.onStore fun _ _ s => .ok (s.display v, s) :=
    .make (g := fun _ s => (s.display v, s)) fun _ s => by
      have hs := loopless.display_store s v
      rw [hv] at hs
      rw [hs]
  rw [Run.printLine_eq]
  exact hdisplay.bind fun text _ => (Ends.write text).bind fun _ _ => .write "\n"

theorem inSequence_ends {body : List Stmt} (hbody : ∀ s ∈ body,
      Ends room loopless.completion fun fuel => execute fuel s) :
    Ends room loopless.completion fun fuel => inSequence (execute fuel) body := by
  induction body with
  | nil => exact .pure rfl
  | cons s rest ih =>
    obtain ⟨hs, hrest⟩ := List.forall_mem_cons.mp hbody
    refine hs.bind fun completion hcompletion => ?_
    cases completion with
    | normal => exact ih hrest
    | breaking => exact .pure rfl
    | returning v => exact .pure hcompletion

theorem inOrder_ends {es : List Expr} (hes : ∀ e ∈ es,
      Ends room loopless.value fun fuel => evaluate fuel e) :
    Ends room (List.map loopless.value) fun fuel => inOrder (evaluate fuel) es := by
  induction es with
  | nil => exact .pure rfl
  | cons e rest ih =>
    obtain ⟨he, hrest⟩ := List.forall_mem_cons.mp hes
    exact he.bind fun v hv => (ih hrest).bind fun vs hvs => .pure (by rw [List.map_cons, hv, hvs])

section
variable (hexecute : ∀ s, s.loopFree = true →
  Ends room loopless.completion fun fuel => execute fuel s)
include hexecute

theorem callClosure_ends {f : Closure} {arguments : List Value} (hf : loopless.closure f = f)
    (ha : arguments.map loopless.value = arguments) :
    Ends room loopless.value fun fuel => callClosure (execute fuel) f arguments := by
  have hbindings : (argumentBindings f.declaration.params arguments).mapValues loopless.value
      = argumentBindings f.declaration.params arguments := by
    rw [← Recoding.argumentBindings_recoded arguments rfl, ha]
  have hbody : ∀ s ∈ f.declaration.body, s.loopFree = true := by
    have hfree := loopless_eq_self_iff.mp ((loopless.closure_eq_self_iff f).mp hf)
    cases hd : f.declaration with
    | mk name params body =>
      rw [hd] at hfree
      exact Stmt.loopFree_of_all hfree
  simp only [callClosure_eq]
  refine (Ends.make (φ := fun frame => frame) fun _ s => ?_).bind fun frame _ =>
    ((inSequence_ends fun s hs => hexecute s (hbody s hs)).inFrame frame).bind
      fun completion hcompletion => .ite (fun _ => ?_) fun _ => ?_
  · have hnew := loopless.newFrame_store s (some f.frame)
      (argumentBindings f.declaration.params arguments)
    rwa [hbindings] at hnew
  · exact .onStore (Recoding.carries_look fun _ s => loopless.getAt_store s f.frame 0 "this")
  · cases completion with
    | returning v => exact .pure (Completion.returning.inj hcompletion)
    | _ => exact .pure rfl

theorem construct_ends {c : Class} {arguments : List Value} (hc : loopless.ofClass c = c)
    (ha : arguments.map loopless.value = arguments) :
    Ends room loopless.value fun fuel => construct (execute fuel) c arguments := by
  unfold construct
  refine (Ends.make (φ := fun o => o) (g := fun _ s => s.newObject c) fun _ s => ?_).bind
    fun o _ => ?_
  · have hnew := loopless.newObject_store s c
    rwa [hc] at hnew
  · cases hinit : c.initializer? with
    | none => exact .pure rfl
    | some init =>
      have hself : loopless.closure init = init := by
        have hmap := loopless.initializer?_ofClass c
        rw [hc, hinit] at hmap
        exact (Option.some.inj hmap).symm
      refine (Ends.make (φ := loopless.closure) (g := fun _ s => s.bindMethod init o)
        fun _ s => ?_).bind fun bound hbound => (callClosure_ends hexecute hbound ha).bind
          fun _ _ => .pure rfl
      have hbind := loopless.bindMethod_store s init o
      rwa [hself] at hbind

theorem apply_ends {callee : Value} {arguments : List Value}
    (hcallee : loopless.value callee = callee) (ha : arguments.map loopless.value = arguments) :
    Ends room loopless.value fun fuel => apply (execute fuel) callee arguments := by
  cases callee with
  | native f => exact .callNative f ha
  | function f => exact callClosure_ends hexecute (Value.function.inj hcallee) ha
  | ofClass c => exact construct_ends hexecute (Value.ofClass.inj hcallee) ha
  | _ => exact .pure rfl

end

/-- Calls end if they do wherever there is room for them. -/
theorem call_ends {callee : Value} {arguments : List Value} {line : Nat}
    (happly : Ends room loopless.value fun fuel =>
      Run.ifRoom line (apply (execute fuel) callee arguments)) :
    Ends room loopless.value fun fuel => call (execute fuel) callee arguments line := by
  simp only [call_eq]
  cases callee.arity? with
  | none => exact .fail _
  | some arity => exact .ite (fun _ => .fail _) fun _ => happly

end

/-- Calls of values without loops end, if there is room for them. -/
def CallsEnd (room : Nat) : Prop :=
  ∀ callee arguments line, loopless.value callee = callee →
    arguments.map loopless.value = arguments →
      Ends room loopless.value fun fuel => Run.ifRoom line (apply (execute fuel) callee arguments)

theorem define_ends (name : String) {v : Value} (hv : loopless.value v = v) :
    Ends room (fun u => u) fun _ => Run.define name v := by
  refine Ends.make (g := fun frame s => ((), s.define frame name v)) fun frame s => ?_
  have hdefine := loopless.define_store s frame name v
  rw [hv] at hdefine
  rw [hdefine]

theorem declareClass_ends (name : Identifier) {methods : List FunctionDecl}
    (h : FunctionDecl.allLoopFree methods = true) :
    Ends room (fun u => u) fun _ => declareClass name methods := by
  rw [Running.declareClass_eq]
  refine (define_ends name.name rfl).bind fun _ _ =>
    (Ends.make (φ := loopless.ofClass) (g := fun frame s => s.newClass name.name methods frame)
      fun frame s => ?_).bind fun c hc => .onStore ?_
  · have hnew := loopless.newClass_store s frame name.name methods
    rwa [loopless_all h] at hnew
  · have hassign := Recoding.carries_assignClass (r := loopless) name c
    rwa [hc] at hassign

mutual

/-- An expression ends if the calls in it do: otherwise it only goes into its parts. -/
theorem evaluate_ends (hcalls : CallsEnd room) (e : Expr) :
    Ends room loopless.value fun fuel => evaluate fuel e := by
  refine .succ ?_
  match e with
  | .literal l =>
    simp only [evaluate]
    exact .pure (loopless.value_literal l)
  | .grouping inner =>
    simp only [evaluate]
    exact evaluate_ends hcalls inner
  | .variable id name =>
    simp only [evaluate, Run.lookUp_eq]
    exact .onStore (Recoding.carries_found id name.name name.line)
  | .this id line =>
    simp only [evaluate, Run.lookUp_eq]
    exact .onStore (Recoding.carries_found id "this" line)
  | .assign id name value =>
    simp only [evaluate, Run.assign_eq]
    refine (evaluate_ends hcalls value).bind fun v hv => ?_
    have htarget := Recoding.carries_target (r := loopless) id name v
    rw [hv] at htarget
    exact (Ends.onStore htarget).bind fun _ _ => .pure hv
  | .unary op line operand =>
    simp only [evaluate, Run.ofExcept_eq]
    refine (evaluate_ends hcalls operand).bind fun v hv =>
      .onStore (Recoding.carries_look fun _ _ => ?_)
    have happly := loopless.unary_apply op line v
    rwa [hv] at happly
  | .binary op line left right =>
    simp only [evaluate, Run.ofExcept_eq]
    refine (evaluate_ends hcalls left).bind fun v hv =>
      (evaluate_ends hcalls right).bind fun w hw => .onStore (Recoding.carries_look fun _ _ => ?_)
    have happly := loopless.binary_apply op line v w
    rwa [hv, hw] at happly
  | .logical op left right =>
    simp only [evaluate]
    exact (evaluate_ends hcalls left).bind fun v hv => .ite (fun _ => .pure hv) fun _ =>
      evaluate_ends hcalls right
  | .call callee line arguments =>
    simp only [evaluate]
    exact (evaluate_ends hcalls callee).bind fun v hv =>
      (inOrder_ends (arguments_end hcalls arguments)).bind fun vs hvs =>
        call_ends (hcalls v vs line hv hvs)
  | .get object name =>
    simp only [evaluate]
    refine (evaluate_ends hcalls object).bind fun v _ => ?_
    cases v with
    | object o =>
      simp only [Run.getProperty_eq]
      exact .onStore (Recoding.carries_property o name)
    | _ => exact .fail _
  | .set object name value =>
    simp only [evaluate]
    refine (evaluate_ends hcalls object).bind fun v _ => ?_
    cases v with
    | object o =>
      refine (evaluate_ends hcalls value).bind fun w hw =>
        (Ends.make (φ := fun u => u) (g := fun _ s => ((), s.setField o name.name w))
          fun _ s => ?_).bind fun _ _ => .pure hw
      have hset := loopless.setField_store s o name.name w
      rw [hw] at hset
      rw [hset]
    | _ => exact .fail _

theorem arguments_end (hcalls : CallsEnd room) (es : List Expr) :
    ∀ e ∈ es, Ends room loopless.value fun fuel => evaluate fuel e := by
  match es with
  | [] => exact fun _ he => nomatch he
  | e :: rest => exact List.forall_mem_cons.mpr ⟨evaluate_ends hcalls e, arguments_end hcalls rest⟩

end

mutual

/-- A statement ends if no loop stands in it and the calls in it do. -/
theorem execute_ends (hcalls : CallsEnd room) (s : Stmt) (h : s.loopFree = true) :
    Ends room loopless.completion fun fuel => execute fuel s := by
  refine .succ ?_
  match s with
  | .expression e =>
    simp only [execute]
    exact (evaluate_ends hcalls e).bind fun _ _ => .pure rfl
  | .print e =>
    simp only [execute]
    exact (evaluate_ends hcalls e).bind fun v hv => (printLine_ends hv).bind fun _ _ => .pure rfl
  | .varDecl name e =>
    simp only [execute]
    exact (evaluate_ends hcalls e).bind fun v hv => (define_ends _ hv).bind fun _ _ => .pure rfl
  | .block body =>
    simp only [execute, block_eq]
    exact (Ends.make (φ := fun frame => frame) (g := fun frame s => s.newFrame (some frame) [])
      fun frame s => loopless.newFrame_store s (some frame) []).bind fun frame _ =>
        (inSequence_ends (statements_end hcalls body h)).inFrame frame
  | .ifElse condition thenBranch none =>
    simp only [execute]
    exact (evaluate_ends hcalls condition).bind fun v _ =>
      .ite (fun _ => execute_ends hcalls thenBranch h) fun _ => .pure rfl
  | .ifElse condition thenBranch (some elseBranch) =>
    obtain ⟨hthen, helse⟩ := Bool.and_eq_true_iff.mp h
    simp only [execute]
    exact (evaluate_ends hcalls condition).bind fun v _ =>
      .ite (fun _ => execute_ends hcalls thenBranch hthen)
        fun _ => execute_ends hcalls elseBranch helse
  | .breakLoop _ =>
    simp only [execute]
    exact .pure rfl
  | .funDecl f =>
    simp only [execute, declareFunction_eq]
    refine (Ends.make (φ := loopless.closure) (g := fun frame s => s.newClosure f frame false)
      fun frame s => ?_).bind fun c hc =>
        (define_ends (v := .function c) _ (congrArg Value.function hc)).bind fun _ _ => .pure rfl
    have hnew := loopless.newClosure_store s frame f false
    rwa [loopless_eq_self_iff.mpr h] at hnew
  | .returnValue _ none =>
    simp only [execute]
    exact .pure rfl
  | .returnValue _ (some e) =>
    simp only [execute]
    exact (evaluate_ends hcalls e).bind fun v hv => .pure (congrArg Completion.returning hv)
  | .classDecl name methods =>
    simp only [execute]
    exact (declareClass_ends name h).bind fun _ _ => .pure rfl

theorem statements_end (hcalls : CallsEnd room) (ss : List Stmt)
    (h : Stmt.allLoopFree ss = true) :
    ∀ s ∈ ss, Ends room loopless.completion fun fuel => execute fuel s := by
  match ss with
  | [] => exact fun _ hs => nomatch hs
  | s :: rest =>
    obtain ⟨hs, hrest⟩ := Bool.and_eq_true_iff.mp h
    exact List.forall_mem_cons.mpr ⟨execute_ends hcalls s hs, statements_end hcalls rest hrest⟩

end

/-- Calls end, by induction on the room that is left: the body of a function runs with less. -/
theorem calls_end (room : Nat) : CallsEnd room := by
  induction room with
  | zero => exact fun _ _ line _ _ => .ifRoom_zero line _
  | succ room ih =>
    exact fun callee arguments line hcallee ha =>
      .ifRoom_succ line (apply_ends (execute_ends ih) hcallee ha)

/-! ## Sessions -/

theorem runStatements_ends {ss : List Stmt} (h : Stmt.allLoopFree ss = true) {m : Machine}
    (hm : m.LoopFree room) (hrest : m.AtRest) :
    ∃ o enough, EndsWell (fun u => u) m o ∧
      ∀ fuel, enough ≤ fuel → runStatements fuel ss m = o := by
  induction ss generalizing m with
  | nil => exact ⟨.ok () m, 0, ⟨.ok rfl hm.store, fun _ h => Option.some.inj h ▸ .refl m⟩,
      fun _ _ => rfl⟩
  | cons s rest ih =>
    obtain ⟨hs, hothers⟩ := Bool.and_eq_true_iff.mp h
    obtain ⟨o, enough, ho, hfirst⟩ := execute_ends (calls_end room) s hs m hm
    dsimp only at hfirst
    unfold runStatements
    cases ho.leaves with
    | @ok c m₁ hc hstore =>
      have hk := ho.kept m₁ rfl
      obtain ⟨o', enough', ho', hsecond⟩ := ih hothers (hm.kept hk hstore) (hk.atRest hrest)
      refine ⟨o', max enough enough', ⟨ho'.leaves, fun m' hm' => hk.trans (ho'.kept m' hm')⟩,
        fun fuel hfuel => ?_⟩
      rw [hfirst fuel (Nat.le_trans (Nat.le_max_left ..) hfuel)]
      exact hsecond fuel (Nat.le_trans (Nat.le_max_right ..) hfuel)
    | @error e m₁ hstore =>
      have hk := ho.kept m₁ rfl
      refine ⟨.error e m₁, enough, ⟨.error hstore, fun m' hm' => Option.some.inj hm' ▸ hk⟩,
        fun fuel hfuel => ?_⟩
      rw [hfirst fuel hfuel]
      exact congrArg (Outcome.error e) (hk.atRest hrest).reset

theorem runProgram_ends {p : Program} (h : Stmt.allLoopFree p = true) (d : Distances) {m : Machine}
    (hm : m.LoopFree room) (hrest : m.AtRest) :
    ∃ o enough, EndsWell (fun u => u) (m.extend d) o ∧
      ∀ fuel, enough ≤ fuel → runProgram fuel p d m = o := by
  obtain ⟨o, enough, ho, hrun⟩ := runStatements_ends h (m := m.extend d)
    ⟨hm.store, hm.host, hm.room⟩ ⟨hrest.frame, hrest.depth⟩
  cases ho.leaves with
  | @ok u m₁ _ hstore =>
    have hk := ho.kept m₁ rfl
    refine ⟨Run.flush m₁, enough, ⟨?_, fun m' hm' => hk.trans (flush_keeps m₁ m' hm')⟩,
      fun fuel hfuel => (runProgram_apply ..).trans (Action.bind_of_ok (hrun fuel hfuel))⟩
    unfold Run.flush
    split
    · exact .error hstore
    · exact .ok rfl hstore
  | error hstore =>
    exact ⟨_, enough, ⟨.error hstore, fun m' hm' => ho.kept m' hm'⟩,
      fun fuel hfuel => (runProgram_apply ..).trans (Action.bind_of_error (hrun fuel hfuel))⟩

/-- The program in the source, if there is one, has no loop. -/
def Request.LoopFree : Request → Prop
  | .run source => ∀ nextId program next,
      parseSource source nextId = (.ok program, next) → Stmt.allLoopFree program = true
  | .evaluate _ => True

theorem Request.loopFree_of_parse {source : String}
    (h : ∀ nextId, (parseSource source nextId).1.map Stmt.allLoopFree = .ok true) :
    (Request.run source).LoopFree := by
  intro nextId program next hparse
  have hfree := h nextId
  rw [hparse] at hfree
  exact Except.ok.inj hfree

def Step.LoopFree : Step → Prop
  | .request r => r.LoopFree
  | _ => True

namespace Session

/-- No loop stands in the store of a session between two steps. -/
structure LoopFree (s : Session) : Prop where
  store : loopless.store s.machine.store = s.machine.store
  host : s.machine.host.MakesNoCode
  atRest : s.machine.AtRest

variable {s : Session}

theorem LoopFree.machine (h : s.LoopFree) : s.machine.LoopFree s.machine.maxDepth :=
  ⟨h.store, h.host, Nat.le_add_left ..⟩

/-- An action that ends well is answered, and leaves no loops. -/
theorem perform_ends {φ : α → α} {m : Machine} {x : Nat → Run α} {enough : Nat}
    {o : Outcome RuntimeError Machine α} (ho : EndsWell φ m o) (hm : m.host.MakesNoCode)
    (hrest : m.AtRest) (hx : ∀ fuel, enough ≤ fuel → x fuel s.machine = o) :
    ∃ reply s', s'.LoopFree ∧ ∀ fuel, enough ≤ fuel → s.perform (x fuel) = some (reply, s') := by
  cases ho.leaves with
  | @ok a m₁ _ hstore =>
    have hk := ho.kept m₁ rfl
    refine ⟨.ok a, { s with machine := m₁ }, ⟨hstore, hk.host ▸ hm, hk.atRest hrest⟩,
      fun fuel hfuel => ?_⟩
    simp only [perform, hx fuel hfuel]
  | @error e m₁ hstore =>
    have hk := ho.kept m₁ rfl
    refine ⟨.error [.runtime e], { s with machine := m₁ }, ⟨hstore, hk.host ▸ hm, hk.atRest hrest⟩,
      fun fuel hfuel => ?_⟩
    simp only [perform, hx fuel hfuel]

theorem run_ends (hs : s.LoopFree) {source : String} (h : (Request.run source).LoopFree) :
    ∃ reply s' enough, s'.LoopFree ∧
      ∀ fuel, enough ≤ fuel → s.run fuel source = some (reply, s') := by
  unfold run
  cases hcheck : checkSource source s.nextId with
  | mk result nextId =>
    cases result with
    | error problems =>
      exact ⟨.error problems, { s with nextId }, 0, ⟨hs.store, hs.host, hs.atRest⟩, fun _ _ => rfl⟩
    | ok checked =>
      obtain ⟨hparse, -⟩ := checkSource_eq_ok hcheck
      obtain ⟨o, enough, ho, hrun⟩ := runProgram_ends (h _ _ _ hparse) checked.distances
        hs.machine hs.atRest
      obtain ⟨reply, s', hs', hperform⟩ := perform_ends (s := { s with nextId }) ho hs.host
        ⟨hs.atRest.frame, hs.atRest.depth⟩ hrun
      exact ⟨reply, s', enough, hs', hperform⟩

theorem evaluate_ends (hs : s.LoopFree) (source : String) :
    ∃ reply s' enough, s'.LoopFree ∧
      ∀ fuel, enough ≤ fuel → s.evaluate fuel source = some (reply, s') := by
  unfold evaluate
  cases parseExpressionSource source s.nextId with
  | mk result nextId =>
    cases result with
    | error problems =>
      exact ⟨.error problems, { s with nextId }, 0, ⟨hs.store, hs.host, hs.atRest⟩, fun _ _ => rfl⟩
    | ok e =>
      obtain ⟨o, enough, ho, hrun⟩ := LoxLang.evaluate_ends (calls_end _) e s.machine hs.machine
      obtain ⟨reply, s', hs', hperform⟩ := perform_ends (s := { s with nextId }) ho hs.host
        hs.atRest hrun
      exact ⟨reply, s', enough, hs', hperform⟩

theorem step_ends (hs : s.LoopFree) {step : Step} (h : step.LoopFree) :
    ∃ reply s' enough, s'.LoopFree ∧
      ∀ fuel, enough ≤ fuel → s.step fuel step = some (reply, s') := by
  cases step with
  | request request =>
    cases request with
    | run source =>
      obtain ⟨reply, s', enough, hs', hrun⟩ := run_ends hs h
      refine ⟨some (reply.map fun _ => none), s', enough, hs', fun fuel hfuel => ?_⟩
      simp only [step, answer, hrun fuel hfuel, Option.map_some]
    | evaluate source =>
      obtain ⟨reply, s', enough, hs', hrun⟩ := evaluate_ends hs source
      refine ⟨some (reply.map some), s', enough, hs', fun fuel hfuel => ?_⟩
      simp only [step, answer, hrun fuel hfuel, Option.map_some]
  | define name v =>
    refine ⟨none, s.define name v.value, 0, ⟨?_, hs.host, hs.atRest.frame, hs.atRest.depth⟩,
      fun _ _ => rfl⟩
    have hdefine := loopless.define_store s.machine.store globals name v.value
    rw [loopless.value_of_codeless v.codeless, hs.store] at hdefine
    exact hdefine.symm
  | limit maxDepth =>
    exact ⟨none, s.withMaxDepth maxDepth, 0, ⟨hs.store, hs.host, hs.atRest.frame, hs.atRest.depth⟩,
      fun _ _ => rfl⟩

theorem follow_ends {steps : List Step} (hs : s.LoopFree) (h : ∀ step ∈ steps, step.LoopFree) :
    ∃ replies s' enough, ∀ fuel, enough ≤ fuel → s.follow fuel steps = some (replies, s') := by
  induction steps generalizing s with
  | nil => exact ⟨[], s, 0, fun _ _ => rfl⟩
  | cons first rest ih =>
    obtain ⟨hfirst, hothers⟩ := List.forall_mem_cons.mp h
    obtain ⟨reply, s₁, enough, hs₁, hstep⟩ := step_ends hs hfirst
    obtain ⟨replies, s', enough', hrest⟩ := ih hs₁ hothers
    refine ⟨reply :: replies, s', max enough enough', fun fuel hfuel => ?_⟩
    exact follow_cons_eq_some.mpr ⟨reply, s₁, replies,
      hstep fuel (Nat.le_trans (Nat.le_max_left ..) hfuel),
      hrest fuel (Nat.le_trans (Nat.le_max_right ..) hfuel), rfl⟩

theorem initial_loopFree (maxDepth : Nat) (output : Output) {host : Host} (h : host.MakesNoCode) :
    (initial maxDepth output host).LoopFree where
  store := by
    simp [initial, Machine.initial, Store.initial, Recoding.store, Recoding.frame]
  host := h
  atRest := ⟨rfl, rfl⟩

end Session

/-- **Sessions without loops end**, whatever the limit on calls and however functions call each
other: on all fuel from some amount on every step is answered, in one and the same way. -/
theorem loop_free_sessions_end (maxDepth : Nat) (output : Output) {host : Host} {steps : List Step}
    (hhost : host.MakesNoCode) (hsteps : ∀ step ∈ steps, step.LoopFree) :
    ∃ replies s enough, ∀ fuel, enough ≤ fuel →
      (Session.initial maxDepth output host).follow fuel steps = some (replies, s) :=
  Session.follow_ends (Session.initial_loopFree maxDepth output hhost) hsteps

/-- An initializer that calls whatever it is given, then an object of a class made of itself without
end. -/
def endlessCalls : List Step :=
  [.request (.run "class A \x7b init(f) \x7b this.f = f; f(this.f); \x7d \x7d"),
   .request (.run "var a = A;\na(a);"),
   .request (.evaluate "a(a)")]

theorem endlessCalls_end :
    Host.nominal.MakesNoCode ∧ (∀ step ∈ endlessCalls, step.LoopFree) ∧
      ∃ replies s enough, ∀ fuel, enough ≤ fuel →
        (Session.initial 8 .unlimited .nominal).follow fuel endlessCalls = some (replies, s) := by
  have hhost : Host.nominal.MakesNoCode := by
    intro f s arguments v h d hd
    cases h
    cases hd
  have hsteps : ∀ step ∈ endlessCalls, step.LoopFree := by
    have hfirst : (Request.run
        "class A \x7b init(f) \x7b this.f = f; f(this.f); \x7d \x7d").LoopFree :=
      Request.loopFree_of_parse fun nextId => by cbv
    have hsecond : (Request.run "var a = A;\na(a);").LoopFree :=
      Request.loopFree_of_parse fun nextId => by cbv
    simp only [endlessCalls, List.forall_mem_cons]
    exact ⟨hfirst, hsecond, trivial, List.forall_mem_nil _⟩
  exact ⟨hhost, hsteps, loop_free_sessions_end 8 .unlimited hhost hsteps⟩

end LoxLang
