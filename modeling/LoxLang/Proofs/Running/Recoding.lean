import LoxLang.Proofs.Running.History
import LoxLang.Proofs.Running.Relations
import LoxLang.Proofs.Store

/-!
# Other code in the same store

Functions and classes carry the declarations they were made from, but no step on the store looks
into one further than its name and the names of its parameters. So the steps commute with a change
of all the code in the store.

* `Recoding`: a change of declarations that keeps these names;
* `Recoding.value`, `Recoding.store`: the same for all the code in a value or in a store;
* `Carries`: a step on the store that commutes with a recoding;
* `carries_found`, `carries_property` and the like: the steps on the store do.
-/

namespace LoxLang

namespace Bindings

variable {α β : Type} (g : α → β)

def mapValues (b : Bindings α) : Bindings β := b.map fun e => (e.1, g e.2)

@[simp] theorem mapValues_nil : mapValues g [] = [] := rfl

@[simp] theorem mapValues_cons (n : String) (v : α) (b : Bindings α) :
    mapValues g ((n, v) :: b) = (n, g v) :: mapValues g b := rfl

theorem find?_mapValues (b : Bindings α) (name : String) :
    (mapValues g b).find? name = (b.find? name).map g := by
  induction b with
  | nil => rfl
  | cons e rest ih =>
    obtain ⟨n, v⟩ := e
    rw [mapValues_cons, find?_cons, find?_cons, ih]
    split <;> rfl

theorem mapValues_insert (name : String) (v : α) (b : Bindings α) :
    mapValues g (b.insert name v) = (mapValues g b).insert name (g v) := by
  induction b with
  | nil => rfl
  | cons e rest ih =>
    obtain ⟨n, w⟩ := e
    by_cases h : n = name
    · simp [insert, h]
    · simp [insert, h, ih]

theorem mapValues_insertAll (b : Bindings α) (entries : List (String × α)) :
    mapValues g (b.insertAll entries)
      = (mapValues g b).insertAll (entries.map fun e => (e.1, g e.2)) := by
  induction entries generalizing b with
  | nil => rfl
  | cons e rest ih =>
    change mapValues g ((b.insert e.1 e.2).insertAll rest) = _
    rw [ih, mapValues_insert]
    rfl

theorem mapValues_mapValues {γ : Type} (g' : β → γ) (b : Bindings α) :
    mapValues g' (mapValues g b) = mapValues (fun v => g' (g v)) b := List.map_map

theorem mapValues_eq_self_iff {g : α → α} {b : Bindings α} :
    mapValues g b = b ↔ ∀ e ∈ b, g e.2 = e.2 := by
  induction b with
  | nil => simp
  | cons e rest ih =>
    obtain ⟨n, v⟩ := e
    rw [mapValues_cons, List.cons.injEq, ih, List.forall_mem_cons, Prod.mk.injEq]
    exact and_congr_left fun _ => and_iff_right rfl

end Bindings

/-! ## Declarations in a store -/

/-- The declarations that a value was made from. -/
def Value.declarations : Value → List FunctionDecl
  | .function f => [f.declaration]
  | .ofClass c => c.methods.map (·.2.declaration)
  | _ => []

/-- What a frame or an object holds was made from the declaration. -/
inductive Store.Holds (s : Store) (d : FunctionDecl) : Prop
  | variable {fr : Frame} {e : String × Value} :
    fr ∈ s.frames → e ∈ fr.bindings → d ∈ e.2.declarations → Holds s d
  | method {o : Object} {e : String × Closure} :
    o ∈ s.objects → e ∈ o.ofClass.methods → e.2.declaration = d → Holds s d
  | field {o : Object} {e : String × Value} :
    o ∈ s.objects → e ∈ o.fields → d ∈ e.2.declarations → Holds s d

/-- A change of the lines, the node identities and the declarations in a program, which keeps the
names of declarations and of their parameters. -/
structure Recoding where
  line : Nat → Nat
  node : NodeId → NodeId
  code : FunctionDecl → FunctionDecl
  name (f : FunctionDecl) : (code f).name.name = f.name.name
  params (f : FunctionDecl) : (code f).params.map (·.name) = f.params.map (·.name)

/-- What a step gives that changes the store only. -/
abbrev StoreStep (α : Type) : Type :=
  DistanceTable → FrameId → Store → Except RuntimeError (α × Store)

open Running

namespace Recoding

variable (r : Recoding)

theorem params_length (f : FunctionDecl) : (r.code f).params.length = f.params.length := by
  rw [← List.length_map (·.name), r.params, List.length_map]

theorem isInitializer (f : FunctionDecl) : (r.code f).isInitializer = f.isInitializer := by
  unfold FunctionDecl.isInitializer
  rw [r.name]

def identifier (name : Identifier) : Identifier := ⟨name.name, r.line name.line⟩

/-! ## Errors -/

def error : RuntimeError → RuntimeError
  | .undefinedVariable name line => .undefinedVariable name (r.line line)
  | .unresolved name distance => .unresolved name distance
  | .operandMustBeNumber line => .operandMustBeNumber (r.line line)
  | .operandsMustBeNumbers line => .operandsMustBeNumbers (r.line line)
  | .operandsMustBeComparable line => .operandsMustBeComparable (r.line line)
  | .notCallable line => .notCallable (r.line line)
  | .arityMismatch expected got line => .arityMismatch expected got (r.line line)
  | .notAnObject line => .notAnObject (r.line line)
  | .undefinedProperty name line => .undefinedProperty name (r.line line)
  | .divisionByZero line => .divisionByZero (r.line line)
  | .stackOverflow line => .stackOverflow (r.line line)
  | .native message => .native message
  | .output reason => .output reason

/-- A value or a failure, recoded. -/
def result {α β : Type} (φ : α → β) : Except RuntimeError α → Except RuntimeError β
  | .ok a => .ok (φ a)
  | .error e => .error (r.error e)

theorem result_bind {α β γ δ : Type} {φ : α → β} {ψ : γ → δ} {x : Except RuntimeError α}
    {f : α → Except RuntimeError γ} {g : β → Except RuntimeError δ}
    (h : ∀ a, g (φ a) = r.result ψ (f a)) : r.result φ x >>= g = r.result ψ (x >>= f) := by
  cases x with
  | ok a => exact h a
  | error e => rfl

theorem result_map {α β γ δ : Type} {φ : α → β} {ψ : γ → δ} {x : Except RuntimeError α}
    {f : α → γ} {g : β → δ} (h : ∀ a, g (φ a) = ψ (f a)) :
    (r.result φ x).map g = r.result ψ (x.map f) := by
  cases x with
  | ok a => exact congrArg Except.ok (h a)
  | error e => rfl

/-! ## Values -/

def closure (f : Closure) : Closure := { f with declaration := r.code f.declaration }

def ofClass (c : Class) : Class := { c with methods := c.methods.mapValues r.closure }

def value : Value → Value
  | .function f => .function (r.closure f)
  | .ofClass c => .ofClass (r.ofClass c)
  | v => v

@[simp] theorem value_nil : r.value .nil = .nil := rfl

@[simp] theorem value_bool (b : Bool) : r.value (.bool b) = .bool b := rfl

@[simp] theorem value_number (x : Float) : r.value (.number x) = .number x := rfl

@[simp] theorem value_string (s : String) : r.value (.string s) = .string s := rfl

@[simp] theorem value_native (f : Native) : r.value (.native f) = .native f := rfl

@[simp] theorem value_function (f : Closure) :
    r.value (.function f) = .function (r.closure f) := rfl

@[simp] theorem value_ofClass (c : Class) : r.value (.ofClass c) = .ofClass (r.ofClass c) := rfl

@[simp] theorem value_object (o : ObjectId) : r.value (.object o) = .object o := rfl

@[simp] theorem closure_name (f : Closure) : (r.closure f).name = f.name := r.name f.declaration

@[simp] theorem closure_arity (f : Closure) : (r.closure f).arity = f.arity :=
  r.params_length f.declaration

@[simp] theorem method?_ofClass (c : Class) (name : String) :
    (r.ofClass c).method? name = (c.method? name).map r.closure :=
  Bindings.find?_mapValues _ _ _

@[simp] theorem initializer?_ofClass (c : Class) :
    (r.ofClass c).initializer? = c.initializer?.map r.closure := r.method?_ofClass c "init"

@[simp] theorem arity_ofClass (c : Class) : (r.ofClass c).arity = c.arity := by
  unfold Class.arity
  rw [initializer?_ofClass]
  cases c.initializer? with
  | none => rfl
  | some f => exact r.closure_arity f

@[simp] theorem isTruthy_value (v : Value) : (r.value v).isTruthy = v.isTruthy := by
  cases v <;> rfl

@[simp] theorem arity?_value (v : Value) : (r.value v).arity? = v.arity? := by
  cases v with
  | function f => exact congrArg some (r.closure_arity f)
  | ofClass c => exact congrArg some (r.arity_ofClass c)
  | _ => rfl

@[simp] theorem same_value (v w : Value) : (r.value v).same (r.value w) = v.same w := by
  cases v <;> cases w <;> rfl

/-- What a statement completes with, with other code in it. -/
def completion : Completion → Completion
  | .returning v => .returning (r.value v)
  | c => c

theorem value_literal (l : Literal) : r.value l.value = l.value := by
  cases l <;> rfl

theorem unary_apply (op : UnaryOp) (line : Nat) (v : Value) :
    op.apply (r.line line) (r.value v) = r.result r.value (op.apply line v) := by
  cases op with
  | not => exact congrArg (fun b => Except.ok (Value.bool !b)) (r.isTruthy_value v)
  | negate => cases v <;> rfl

theorem numbers_value (line : Nat) (v w : Value) :
    BinaryOp.numbers (r.line line) (r.value v) (r.value w)
      = r.result id (BinaryOp.numbers line v w) := by
  cases v <;> cases w <;> rfl

theorem ordering_value (line : Nat) (v w : Value) :
    BinaryOp.ordering (r.line line) (r.value v) (r.value w)
      = r.result id (BinaryOp.ordering line v w) := by
  cases v <;> cases w <;> rfl

theorem binary_apply (op : BinaryOp) (line : Nat) (v w : Value) :
    op.apply (r.line line) (r.value v) (r.value w) = r.result r.value (op.apply line v w) := by
  cases op with
  | equal => exact congrArg (fun b => Except.ok (Value.bool b)) (r.same_value v w)
  | notEqual => exact congrArg (fun b => Except.ok (Value.bool !b)) (r.same_value v w)
  | divide =>
    simp only [BinaryOp.apply, numbers_value]
    refine r.result_bind fun x => ?_
    simp only [id_eq]
    split <;> rfl
  | _ =>
    simp only [BinaryOp.apply, numbers_value, ordering_value]
    exact r.result_bind fun _ => rfl

theorem decidedBy_value (op : LogicalOp) (v : Value) :
    op.decidedBy (r.value v) = op.decidedBy v := by
  cases op <;> simp [LogicalOp.decidedBy]

/-! ## The store -/

def frame (fr : Frame) : Frame := { fr with bindings := fr.bindings.mapValues r.value }

def object (o : Object) : Object := ⟨r.ofClass o.ofClass, o.fields.mapValues r.value⟩

def store (s : Store) : Store :=
  { s with frames := s.frames.map r.frame, objects := s.objects.map r.object }

section
variable (s : Store) (f : FrameId)

@[simp] theorem nextStamp_store : (r.store s).nextStamp = s.nextStamp := rfl

@[simp] theorem frame_store : (r.store s).frame f = r.frame (s.frame f) := by
  simp only [Store.frame, store, Array.getElem?_map]
  cases s.frames[f]? <;> rfl

@[simp] theorem enclosing?_store : (r.store s).enclosing? f = s.enclosing? f := by
  unfold Store.enclosing?
  rw [frame_store]
  rfl

@[simp] theorem local?_store (name : String) :
    (r.store s).local? f name = (s.local? f name).map r.value := by
  unfold Store.local?
  rw [frame_store]
  exact Bindings.find?_mapValues _ _ _

@[simp] theorem binds_store (name : String) : (r.store s).binds f name = s.binds f name := by
  simp [Store.binds]

@[simp] theorem chain_store : (r.store s).chain f = s.chain f := by
  induction f using Nat.strongRecOn with
  | ind f ih =>
    rw [Store.chain, Store.chain, enclosing?_store]
    cases s.enclosing? f with
    | none => rfl
    | some e =>
      dsimp only
      split
      · rename_i he
        rw [ih e he]
      · rfl

@[simp] theorem binder?_store (name : String) : (r.store s).binder? f name = s.binder? f name := by
  simp [Store.binder?]

theorem get_store (name : String) (line : Nat) :
    (r.store s).get f name (r.line line) = r.result r.value (s.get f name line) := by
  unfold Store.get
  rw [binder?_store]
  cases s.binder? f name with
  | none => rfl
  | some b =>
    dsimp only [Option.bind_some]
    rw [local?_store]
    cases s.local? b name <;> rfl

theorem assignee_store (name : String) (line : Nat) :
    (r.store s).assignee f name (r.line line) = r.result id (s.assignee f name line) := by
  unfold Store.assignee
  rw [binder?_store]
  cases s.binder? f name <;> rfl

@[simp] theorem climb_store (d : Nat) : (r.store s).climb d f = s.climb d f := by
  induction d generalizing f with
  | zero => rfl
  | succ d ih => simp only [Store.climb, enclosing?_store, ih]

theorem ancestor_store (d : Nat) :
    (r.store s).ancestor f d = r.result id (s.ancestor f d) := by
  unfold Store.ancestor
  rw [climb_store]
  cases s.climb d f <;> rfl

theorem getAt_store (d : Nat) (name : String) :
    (r.store s).getAt f d name = r.result r.value (s.getAt f d name) := by
  unfold Store.getAt
  rw [ancestor_store]
  refine r.result_bind fun g => ?_
  rw [id, local?_store]
  cases s.local? g name <;> rfl

theorem assigneeAt_store (d : Nat) (name : String) :
    (r.store s).assigneeAt f d name = r.result id (s.assigneeAt f d name) := by
  unfold Store.assigneeAt
  rw [ancestor_store]
  refine r.result_bind fun g => ?_
  rw [id, binds_store]
  split <;> rfl

theorem newFrame_store (enclosing : Option FrameId) (b : Bindings Value) :
    (r.store s).newFrame enclosing (b.mapValues r.value)
      = ((s.newFrame enclosing b).1, r.store (s.newFrame enclosing b).2) := by
  simp [Store.newFrame, store, Array.map_push, frame]

theorem array_map_modify {α β : Type} (a : Array α) (i : Nat) (g : α → β) (h : α → α) (h' : β → β)
    (hg : ∀ x, h' (g x) = g (h x)) : (a.map g).modify i h' = (a.modify i h).map g := by
  ext j hj hj'
  · simp
  · simp only [Array.getElem_modify, Array.getElem_map]
    split
    · exact hg _
    · rfl

theorem define_store (name : String) (v : Value) :
    (r.store s).define f name (r.value v) = r.store (s.define f name v) := by
  have hbound : ∀ fr : Frame, { r.frame fr with
      bindings := (r.frame fr).bindings.insert name (r.value v) }
        = r.frame { fr with bindings := fr.bindings.insert name v } := fun fr => by
    simp [frame, Bindings.mapValues_insert]
  unfold Store.define store
  dsimp only
  rw [array_map_modify _ _ _ _ _ hbound]

theorem newClosure_store (d : FunctionDecl) (isInitializer : Bool) :
    (r.store s).newClosure (r.code d) f isInitializer
      = (r.closure (s.newClosure d f isInitializer).1,
          r.store (s.newClosure d f isInitializer).2) := rfl

theorem methodsFrom_code (ds : List FunctionDecl) (stamp : Nat) (methods : Bindings Closure) :
    Store.methodsFrom f (ds.map r.code) stamp (methods.mapValues r.closure)
      = (Store.methodsFrom f ds stamp methods).mapValues r.closure := by
  induction ds generalizing stamp methods with
  | nil => rfl
  | cons d rest ih =>
    simp only [List.map_cons, Store.methodsFrom, r.name, r.isInitializer]
    rw [← ih, Bindings.mapValues_insert]
    rfl

theorem newClass_store (name : String) (ds : List FunctionDecl) :
    (r.store s).newClass name (ds.map r.code) f
      = (r.ofClass (s.newClass name ds f).1, r.store (s.newClass name ds f).2) := by
  have hmethods := r.methodsFrom_code f ds s.nextStamp []
  rw [Bindings.mapValues_nil] at hmethods
  simp only [Store.newClass_eq, List.length_map, nextStamp_store, hmethods]
  rfl

theorem newObject_store (c : Class) :
    (r.store s).newObject (r.ofClass c) = ((s.newObject c).1, r.store (s.newObject c).2) := by
  simp [Store.newObject, store, Array.map_push, object]

theorem setField_store (o : ObjectId) (name : String) (v : Value) :
    (r.store s).setField o name (r.value v) = r.store (s.setField o name v) := by
  have hset : ∀ ob : Object, { r.object ob with
      fields := (r.object ob).fields.insert name (r.value v) }
        = r.object { ob with fields := ob.fields.insert name v } := fun ob => by
    simp [object, Bindings.mapValues_insert]
  unfold Store.setField store
  dsimp only
  rw [array_map_modify _ _ _ _ _ hset]

theorem bindMethod_store (method : Closure) (o : ObjectId) :
    (r.store s).bindMethod (r.closure method) o
      = (r.closure (s.bindMethod method o).1, r.store (s.bindMethod method o).2) := by
  have hframe := r.newFrame_store s (some method.frame) [("this", .object o)]
  unfold Store.bindMethod
  dsimp only
  change (((r.store s).newFrame (some method.frame) [("this", .object o)]).2.newClosure
    (r.code method.declaration)
    ((r.store s).newFrame (some method.frame) [("this", .object o)]).1 method.isInitializer) = _
  rw [show [("this", Value.object o)] = Bindings.mapValues r.value [("this", .object o)] from rfl,
    hframe]
  rfl

@[simp] theorem className_store (o : ObjectId) : (r.store s).className o = s.className o := by
  simp only [Store.className, store, Array.getElem?_map]
  cases s.objects[o]? <;> rfl

@[simp] theorem display_store (v : Value) : (r.store s).display (r.value v) = s.display v := by
  cases v with
  | function f => exact congrArg (fun n => "<fn " ++ n ++ ">") (r.closure_name f)
  | object o => exact congrArg (· ++ " instance") (r.className_store s o)
  | _ => rfl

end

/-- What an object has under a name, with other code. -/
def property : Store.Property → Store.Property
  | .field v => .field (r.value v)
  | .method f => .method (r.closure f)

theorem property_store (s : Store) (o : ObjectId) (name : Identifier) :
    (r.store s).property o (r.identifier name) = r.result r.property (s.property o name) := by
  have hobject : (r.store s).objects[o]? = s.objects[o]?.map r.object := Array.getElem?_map ..
  unfold Store.property identifier
  dsimp only
  rw [hobject]
  cases s.objects[o]? with
  | none => rfl
  | some ob =>
    have hfield : (r.object ob).fields.find? name.name
        = (ob.fields.find? name.name).map r.value := Bindings.find?_mapValues _ _ _
    have hmethod : (r.object ob).ofClass.method? name.name
        = (ob.ofClass.method? name.name).map r.closure := r.method?_ofClass _ _
    simp only [Option.map_some, Option.bind_some, hfield, hmethod]
    cases ob.fields.find? name.name with
    | some v => rfl
    | none => cases ob.ofClass.method? name.name <;> rfl

/-! ## Steps on the store -/

/-- The second table has for the new identities what the first one has for the old ones. -/
def Matches (distances distances' : DistanceTable) : Prop :=
  ∀ id, distances'.of? (r.node id) = distances.of? id

/-- On a recoded store the second step gives what the first one gives, recoded. -/
def Carries {α β : Type} (φ : α → β) (f : StoreStep α) (f' : StoreStep β) : Prop :=
  ∀ ⦃distances distances'⦄ (frame : FrameId) (s : Store), r.Matches distances distances' →
    f' distances' frame (r.store s) = r.result (Prod.map φ r.store) (f distances frame s)

section
variable {r}

theorem carries_make {α β : Type} {φ : α → β} {g : FrameId → Store → α × Store}
    {g' : FrameId → Store → β × Store}
    (h : ∀ frame s, g' frame (r.store s) = (φ (g frame s).1, r.store (g frame s).2)) :
    r.Carries φ (fun _ frame s => .ok (g frame s)) (fun _ frame s => .ok (g' frame s)) :=
  fun _ _ frame s _ => congrArg Except.ok (h frame s)

theorem carries_look {α β : Type} {φ : α → β} {x : FrameId → Store → Except RuntimeError α}
    {y : FrameId → Store → Except RuntimeError β}
    (h : ∀ frame s, y frame (r.store s) = r.result φ (x frame s)) :
    r.Carries φ (fun _ frame s => (x frame s).map (·, s))
      (fun _ frame s => (y frame s).map (·, s)) := fun _ _ frame s _ => by
  dsimp only
  rw [h]
  exact r.result_map fun _ => rfl

theorem carries_found (id : NodeId) (name : String) (line : Nat) :
    r.Carries r.value
      (fun distances frame s => (Run.found id name line distances frame s).map (·, s))
      (fun distances frame s =>
        (Run.found (r.node id) name (r.line line) distances frame s).map (·, s)) := by
  intro distances distances' frame s hmatches
  unfold Run.found
  dsimp only
  rw [hmatches id]
  cases distances.of? id with
  | none =>
    dsimp only
    rw [get_store]
    exact r.result_map fun _ => rfl
  | some d =>
    dsimp only
    rw [getAt_store]
    exact r.result_map fun _ => rfl

theorem carries_target (id : NodeId) (name : Identifier) (v : Value) :
    r.Carries (fun u => u)
      (fun distances frame s => (Run.target id name distances frame s).map fun f =>
        ((), s.define f name.name v))
      (fun distances frame s =>
        (Run.target (r.node id) (r.identifier name) distances frame s).map fun f =>
          ((), s.define f name.name (r.value v))) := by
  intro distances distances' frame s hmatches
  unfold Run.target identifier
  dsimp only
  rw [hmatches id]
  cases distances.of? id with
  | none =>
    dsimp only
    rw [assignee_store]
    exact r.result_map fun f => congrArg (Prod.mk ()) (r.define_store s f _ v)
  | some d =>
    dsimp only
    rw [assigneeAt_store]
    exact r.result_map fun f => congrArg (Prod.mk ()) (r.define_store s f _ v)

theorem carries_property (o : ObjectId) (name : Identifier) :
    r.Carries r.value (fun _ _ s => Run.property o name s)
      (fun _ _ s => Run.property o (r.identifier name) s) := by
  intro distances distances' frame s _
  unfold Run.property
  dsimp only
  rw [property_store]
  refine r.result_map fun p => ?_
  cases p with
  | field v => rfl
  | method f =>
    change (Value.function ((r.store s).bindMethod (r.closure f) o).1,
      ((r.store s).bindMethod (r.closure f) o).2) = _
    rw [bindMethod_store]
    rfl

theorem carries_assignClass (name : Identifier) (c : Class) :
    r.Carries (fun u => u)
      (fun _ frame s => (s.assignee frame name.name name.line).map fun f =>
        ((), s.define f name.name (.ofClass c)))
      (fun _ frame s => (s.assignee frame name.name (r.line name.line)).map fun f =>
        ((), s.define f name.name (.ofClass (r.ofClass c)))) := fun _ _ frame s _ => by
  dsimp only
  rw [assignee_store]
  exact r.result_map fun f => congrArg (Prod.mk ()) (r.define_store s f _ (.ofClass c))

theorem argumentBindings_recoded {params params' : List Identifier} (arguments : List Value)
    (h : params'.map (·.name) = params.map (·.name)) :
    argumentBindings params' (arguments.map r.value)
      = (argumentBindings params arguments).mapValues r.value := by
  unfold argumentBindings
  rw [Bindings.mapValues_insertAll, Bindings.mapValues_nil, h, List.zip_map_right]
  rfl

end

/-! ## One change after the other -/

section
variable {r} {r' r'' : Recoding} (h : ∀ f, r'.code (r.code f) = r''.code f)
include h

theorem closure_closure (f : Closure) : r'.closure (r.closure f) = r''.closure f := by
  unfold closure
  rw [h]

theorem ofClass_ofClass (c : Class) : r'.ofClass (r.ofClass c) = r''.ofClass c := by
  simp only [ofClass, Bindings.mapValues_mapValues, closure_closure h]

theorem value_value (v : Value) : r'.value (r.value v) = r''.value v := by
  cases v with
  | function f => exact congrArg Value.function (closure_closure h f)
  | ofClass c => exact congrArg Value.ofClass (ofClass_ofClass h c)
  | _ => rfl

theorem store_store (s : Store) : r'.store (r.store s) = r''.store s := by
  have hframe : ∀ fr, r'.frame (r.frame fr) = r''.frame fr := by
    intro fr
    simp only [frame, Bindings.mapValues_mapValues, value_value h]
  have hobject : ∀ o, r'.object (r.object o) = r''.object o := by
    intro o
    simp only [object, Bindings.mapValues_mapValues, value_value h, ofClass_ofClass h]
  simp only [store, Array.map_map, Function.comp_def, hframe, hobject]

end

/-! ## Code that stays as it is -/

theorem closure_eq_self_iff (f : Closure) :
    r.closure f = f ↔ r.code f.declaration = f.declaration := by
  obtain ⟨stamp, d, frame, isInitializer⟩ := f
  simp [closure]

theorem ofClass_eq_self_iff (c : Class) :
    r.ofClass c = c ↔ ∀ e ∈ c.methods, r.code e.2.declaration = e.2.declaration := by
  obtain ⟨stamp, name, methods⟩ := c
  simp only [ofClass, Class.mk.injEq, true_and, Bindings.mapValues_eq_self_iff,
    closure_eq_self_iff]

theorem value_eq_self_iff (v : Value) : r.value v = v ↔ ∀ d ∈ v.declarations, r.code d = d := by
  cases v with
  | function f => simp [Value.declarations, closure_eq_self_iff]
  | ofClass c =>
    simp only [Value.declarations, List.forall_mem_map, value_ofClass, Value.ofClass.injEq,
      ofClass_eq_self_iff]
  | _ => simp [Value.declarations]

/-- A value that a host makes by itself stays as it is. -/
theorem value_of_codeless {v : Value} (h : v.IsCodeless) : r.value v = v := by
  cases v with
  | function | ofClass | object => cases h
  | _ => rfl

theorem array_map_eq_self_iff {α : Type} {a : Array α} {g : α → α} :
    a.map g = a ↔ ∀ x ∈ a, g x = x := by
  constructor
  · intro h x hx
    obtain ⟨i, hi, rfl⟩ := Array.mem_iff_getElem.mp hx
    have hmap : (a.map g)[i]? = a[i]?.map g := Array.getElem?_map ..
    rw [h, Array.getElem?_eq_getElem hi, Option.map_some] at hmap
    exact (Option.some.inj hmap).symm
  · intro h
    ext i hi hi'
    · simp
    · rw [Array.getElem_map]
      exact h _ (Array.getElem_mem hi')

/-- A recoding leaves a store as it is just when it does so with the code in it. -/
theorem store_eq_self_iff (s : Store) : r.store s = s ↔ ∀ d, s.Holds d → r.code d = d := by
  have hframe : ∀ fr, r.frame fr = fr ↔ ∀ e ∈ fr.bindings, r.value e.2 = e.2 := fun fr => by
    rw [← Bindings.mapValues_eq_self_iff, frame]
    exact ⟨congrArg Frame.bindings, fun h => by rw [h]⟩
  have hobject : ∀ o, r.object o = o ↔
      r.ofClass o.ofClass = o.ofClass ∧ ∀ e ∈ o.fields, r.value e.2 = e.2 := fun o => by
    rw [← Bindings.mapValues_eq_self_iff, object]
    exact ⟨fun h => ⟨congrArg Object.ofClass h, congrArg Object.fields h⟩,
      fun h => by rw [h.1, h.2]⟩
  have hstore : r.store s = s ↔
      (∀ fr ∈ s.frames, r.frame fr = fr) ∧ ∀ o ∈ s.objects, r.object o = o := by
    rw [← array_map_eq_self_iff, ← array_map_eq_self_iff, store]
    exact ⟨fun h => ⟨congrArg Store.frames h, congrArg Store.objects h⟩,
      fun h => by rw [h.1, h.2]⟩
  simp only [hstore, hframe, hobject, value_eq_self_iff, ofClass_eq_self_iff]
  constructor
  · rintro ⟨hframes, hobjects⟩ d hd
    cases hd with
    | «variable» hfr he hmem => exact hframes _ hfr _ he d hmem
    | method ho he heq =>
      rw [← heq]
      exact (hobjects _ ho).1 _ he
    | field ho he hmem => exact (hobjects _ ho).2 _ he d hmem
  · intro h
    exact ⟨fun fr hfr e he d hd => h d (.variable hfr he hd),
      fun o ho => ⟨fun e he => h _ (.method ho he rfl), fun e he d hd => h d (.field ho he hd)⟩⟩

end Recoding

end LoxLang
