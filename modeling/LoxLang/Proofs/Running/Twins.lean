import LoxLang.Proofs.Running.References
import LoxLang.Proofs.Running.Stepping
import LoxLang.Proofs.Scoping.Thickened

/-!
# Machines with and without the frames of blocks

On the left a machine makes a frame for the body and the step of every loop, on the right one does
so only where the loop is not taken for a loop with a step. The frames on the right have twins on
the left. The others on the left bind nothing: they only stand between the frames that have twins.

* `Twins`: two such machines, with the frames that are twins and the layers around each node;
* `Twins.Meets`: the frames from two frames outwards are those of the layers;
* `Twins.ValueTwin`: values that are the same but for the frames they close over;
* `Twins.Sound`: all variables and fields hold such values;
* `Twins.Later`: two machines after some running, where what were twins are so still.
-/

namespace LoxLang

structure Twins where
  left : Machine
  right : Machine
  /-- A frame on the left and one on the right are twins. -/
  pairs : FrameId → FrameId → Prop
  /-- The references of all programs so far, with the layers around them. -/
  nodes : NodeId → Layers → Prop

namespace Twins

/-- From two frames outwards the frames are those of the layers, and then those of the global
variables. On the right there is no frame for a layer that is extra. -/
inductive Meets (w : Twins) : Layers → FrameId → FrameId → Prop
  | globals : Meets w [] globals globals
  | shared {layers : Layers} {f g e e' : FrameId} :
      w.pairs f g → w.left.store.enclosing? f = some e → w.right.store.enclosing? g = some e' →
      Meets w layers e e' → Meets w (.shared :: layers) f g
  | extra {layers : Layers} {f g e : FrameId} :
      w.left.store.enclosing? f = some e → Meets w layers e g → Meets w (.extra :: layers) f g

/-- The current frames are those of the layers. -/
abbrev Here (w : Twins) (layers : Layers) : Prop := w.Meets layers w.left.frame w.right.frame

/-- What two machines keep of two earlier ones. -/
structure Later (w w' : Twins) : Prop where
  pairs : ∀ f g, w.pairs f g → w'.pairs f g
  left : ∀ f e, w.left.store.enclosing? f = some e → w'.left.store.enclosing? f = some e
  right : ∀ f e, w.right.store.enclosing? f = some e → w'.right.store.enclosing? f = some e
  nodes : ∀ id layers, w.nodes id layers → w'.nodes id layers

variable {w w' w'' : Twins}

theorem Later.refl (w : Twins) : Later w w where
  pairs _ _ h := h
  left _ _ h := h
  right _ _ h := h
  nodes _ _ h := h

theorem Later.trans (h : Later w w') (h' : Later w' w'') : Later w w'' where
  pairs f g hf := h'.pairs f g (h.pairs f g hf)
  left f e he := h'.left f e (h.left f e he)
  right f e he := h'.right f e (h.right f e he)
  nodes id layers hid := h'.nodes id layers (h.nodes id layers hid)

theorem Meets.later {layers : Layers} {f g : FrameId} (h : w.Meets layers f g)
    (hl : Later w w') : w'.Meets layers f g := by
  induction h with
  | globals => exact .globals
  | shared hpair hleft hright _ ih =>
    exact .shared (hl.pairs _ _ hpair) (hl.left _ _ hleft) (hl.right _ _ hright) ih
  | extra hleft _ ih => exact .extra (hl.left _ _ hleft) ih

section
variable (chosen : Choice)

/-! ## Code -/

/-- The references of a statement at a place are known. -/
structure Fits (w : Twins) (layers : Layers) (s : Stmt) : Prop where
  nodes : ∀ node ∈ s.layered chosen layers, w.nodes node.1 node.2
  regular : s.Regular
  suits : s.Suits layers

/-- The references of a function at a place are known. -/
structure FitsFunction (w : Twins) (layers : Layers) (f : FunctionDecl) : Prop where
  nodes : ∀ node ∈ f.layered chosen layers, w.nodes node.1 node.2
  regular : f.Regular

/-! ## Values -/

/-- Functions that are the same but for their frames. An initializer closes over the frame of its
object, which has a twin. -/
structure ClosureTwin (w : Twins) (c c' : Closure) : Prop where
  stamp : c'.stamp = c.stamp
  declaration : c'.declaration = c.declaration
  isInitializer : c'.isInitializer = c.isInitializer
  code : ∃ layers, w.Meets layers c.frame c'.frame ∧ FitsFunction chosen w layers c.declaration
  object : c.isInitializer = true → w.pairs c.frame c'.frame

/-- Methods that are the same but for their frames, not bound to an object yet. -/
structure MethodTwin (w : Twins) (c c' : Closure) : Prop where
  stamp : c'.stamp = c.stamp
  declaration : c'.declaration = c.declaration
  isInitializer : c'.isInitializer = c.isInitializer
  code : ∃ layers, w.Meets layers c.frame c'.frame ∧
    FitsFunction chosen w (.shared :: layers) c.declaration

structure ClassTwin (w : Twins) (c c' : Class) : Prop where
  stamp : c'.stamp = c.stamp
  name : c'.name = c.name
  methods : Bindings.Linked id (MethodTwin chosen w) c.methods c'.methods

inductive ValueTwin (w : Twins) : Value → Value → Prop
  | plain {v : Value} : v.IsPlain → ValueTwin w v v
  | clock : ValueTwin w (.native .clock) (.native .clock)
  | function {c c' : Closure} : ClosureTwin chosen w c c' → ValueTwin w (.function c) (.function c')
  | ofClass {c c' : Class} : ClassTwin chosen w c c' → ValueTwin w (.ofClass c) (.ofClass c')
  | object {o : ObjectId} : ValueTwin w (.object o) (.object o)

abbrev BindingsTwin (w : Twins) : Bindings Value → Bindings Value → Prop :=
  Bindings.Linked id (ValueTwin chosen w)

structure ObjectTwin (w : Twins) (o o' : Object) : Prop where
  ofClass : ClassTwin chosen w o.ofClass o'.ofClass
  fields : BindingsTwin chosen w o.fields o'.fields

/-- The two stores are the same but for the frames without a twin, which bind nothing. -/
structure Stores (w : Twins) : Prop where
  bounds : ∀ f g, w.pairs f g →
    f < w.left.store.frames.size ∧ g < w.right.store.frames.size
  functional : ∀ f g g', w.pairs f g → w.pairs f g' → g = g'
  injective : ∀ f f' g, w.pairs f g → w.pairs f' g → f = f'
  onto : ∀ g < w.right.store.frames.size, ∃ f, w.pairs f g
  spare : ∀ f, (∀ g, ¬w.pairs f g) → (w.left.store.frame f).bindings = []
  bindings : ∀ f g, w.pairs f g →
    BindingsTwin chosen w (w.left.store.frame f).bindings (w.right.store.frame g).bindings
  global : w.pairs globals globals
  outermost : w.left.store.enclosing? globals = none
  outermost' : w.right.store.enclosing? globals = none
  objectsSize : w.right.store.objects.size = w.left.store.objects.size
  objects : ∀ (o : ObjectId) (ob ob' : Object), w.left.store.objects[o]? = some ob →
    w.right.store.objects[o]? = some ob' → ObjectTwin chosen w ob ob'
  stamps : w.right.store.nextStamp = w.left.store.nextStamp

/-- The two machines are the same but for frames without a twin, and distances differ by these. -/
structure Sound (w : Twins) : Prop where
  stores : Stores chosen w
  distances : ∀ id layers, w.nodes id layers →
    w.left.distances.of? id = (w.right.distances.of? id).map layers.lift
  depth : w.right.depth = w.left.depth
  maxDepth : w.right.maxDepth = w.left.maxDepth
  output : w.right.output = w.left.output
  host : w.right.host = w.left.host
  readings : w.right.readings = w.left.readings

end

variable {chosen : Choice} {layers : Layers} {v v' : Value} {f g : FrameId}

/-! ## Later machines -/

theorem Fits.later {s : Stmt} (h : Fits chosen w layers s) (hl : Later w w') :
    Fits chosen w' layers s :=
  { h with nodes := fun node hnode => hl.nodes _ _ (h.nodes node hnode) }

theorem FitsFunction.later {f : FunctionDecl} (h : FitsFunction chosen w layers f)
    (hl : Later w w') : FitsFunction chosen w' layers f :=
  { h with nodes := fun node hnode => hl.nodes _ _ (h.nodes node hnode) }

theorem ClosureTwin.later {c c' : Closure} (h : ClosureTwin chosen w c c') (hl : Later w w') :
    ClosureTwin chosen w' c c' :=
  { h with
    code := by
      obtain ⟨layers, hmeets, hfits⟩ := h.code
      exact ⟨layers, hmeets.later hl, hfits.later hl⟩
    object := fun hinit => hl.pairs _ _ (h.object hinit) }

theorem MethodTwin.later {c c' : Closure} (h : MethodTwin chosen w c c') (hl : Later w w') :
    MethodTwin chosen w' c c' :=
  { h with
    code := by
      obtain ⟨layers, hmeets, hfits⟩ := h.code
      exact ⟨layers, hmeets.later hl, hfits.later hl⟩ }

theorem ClassTwin.later {c c' : Class} (h : ClassTwin chosen w c c') (hl : Later w w') :
    ClassTwin chosen w' c c' :=
  { h with methods := h.methods.mono fun _ _ h => h.later hl }

theorem ValueTwin.later (h : ValueTwin chosen w v v') (hl : Later w w') :
    ValueTwin chosen w' v v' := by
  cases h with
  | plain hv => exact .plain hv
  | clock => exact .clock
  | function hc => exact .function (hc.later hl)
  | ofClass hc => exact .ofClass (hc.later hl)
  | object => exact .object

theorem ObjectTwin.later {o o' : Object} (h : ObjectTwin chosen w o o') (hl : Later w w') :
    ObjectTwin chosen w' o o' where
  ofClass := h.ofClass.later hl
  fields := h.fields.mono fun _ _ h => h.later hl

/-! ## Parts of statements -/

/-- The statements of a scope that is there in any case. -/
theorem Fits.all {ss : List Stmt} (hhead : layers.head? ≠ some .extra)
    (hnodes : ∀ node ∈ Stmt.allLayered chosen layers ss, w.nodes node.1 node.2)
    (hregular : Stmt.AllRegular ss) : ∀ s ∈ ss, Fits chosen w layers s :=
  fun s hs => {
    nodes := fun node hnode => hnodes node (Stmt.mem_allLayered chosen hs hnode)
    regular := Stmt.allRegular_iff.mp hregular s hs
    suits := fun hextra => absurd hextra hhead }

/-- What stands in a function is in the scope of its parameters. -/
theorem FitsFunction.body {f : FunctionDecl} (h : FitsFunction chosen w layers f) :
    ∀ s ∈ f.body, Fits chosen w (.shared :: layers) s := by
  cases f with
  | mk name params body => exact Fits.all (by simp) h.nodes h.regular.2

theorem FitsFunction.all {fs : List FunctionDecl}
    (hnodes : ∀ node ∈ FunctionDecl.allLayered chosen layers fs, w.nodes node.1 node.2)
    (hregular : FunctionDecl.AllRegular fs) : ∀ f ∈ fs, FitsFunction chosen w layers f :=
  fun f hf => {
    nodes := fun node hnode => hnodes node (FunctionDecl.mem_allLayered chosen hf hnode)
    regular := FunctionDecl.allRegular_iff.mp hregular f hf }

/-! ## What twins have in common -/

theorem ClosureTwin.name_eq {c c' : Closure} (h : ClosureTwin chosen w c c') :
    c'.name = c.name := by
  rw [Closure.name, h.declaration, Closure.name]

theorem ClosureTwin.arity_eq {c c' : Closure} (h : ClosureTwin chosen w c c') :
    c'.arity = c.arity := by
  rw [Closure.arity, h.declaration, Closure.arity]

theorem MethodTwin.arity_eq {c c' : Closure} (h : MethodTwin chosen w c c') :
    c'.arity = c.arity := by
  rw [Closure.arity, h.declaration, Closure.arity]

theorem ClassTwin.method? {c c' : Class} (h : ClassTwin chosen w c c') (name : String) :
    (c.method? name = none ∧ c'.method? name = none) ∨
      ∃ f f', c.method? name = some f ∧ c'.method? name = some f' ∧ MethodTwin chosen w f f' :=
  h.methods.find?_id name

theorem ClassTwin.arity_eq {c c' : Class} (h : ClassTwin chosen w c c') : c'.arity = c.arity := by
  unfold Class.arity Class.initializer?
  obtain ⟨hf, hf'⟩ | ⟨f, f', hf, hf', htwin⟩ := h.method? "init"
  · rw [hf, hf']
  · rw [hf, hf', Option.map_some, Option.map_some, htwin.arity_eq]

theorem ValueTwin.resembles (h : ValueTwin chosen w v v') : v.Resembles v' := by
  cases h with
  | plain hv => exact .plain hv
  | clock => exact .native
  | function hc => exact .function hc.stamp hc.name_eq hc.arity_eq
  | ofClass hc => exact .ofClass hc.stamp hc.name hc.arity_eq
  | object => exact .object

/-- The frames of a scope that is there in any case are twins. -/
theorem Meets.paired (h : w.Meets layers f g) (hw : Stores chosen w)
    (hhead : layers.head? ≠ some .extra) : w.pairs f g := by
  cases h with
  | globals => exact hw.global
  | shared hpair _ _ _ => exact hpair
  | extra _ _ => exact absurd rfl hhead

/-- A distance leads to twins, or to nothing on either side. -/
theorem Meets.climb (h : w.Meets layers f g) (hw : Stores chosen w) (d : Nat) :
    (∃ t t', w.left.store.climb (layers.lift d) f = .ok t ∧
      w.right.store.climb d g = .ok t' ∧ w.pairs t t') ∨
    ∃ i i', w.left.store.climb (layers.lift d) f = .error i ∧
      w.right.store.climb d g = .error i' ∧ layers.lift d ≠ 0 := by
  induction h generalizing d with
  | globals =>
    cases d with
    | zero => exact .inl ⟨_, _, rfl, rfl, hw.global⟩
    | succ d =>
      refine .inr ⟨1, 1, ?_, ?_, Nat.succ_ne_zero d⟩
      · simp only [Layers.lift, Store.climb, hw.outermost]
      · simp only [Store.climb, hw.outermost']
  | shared hpair hleft hright _ ih =>
    cases d with
    | zero => exact .inl ⟨_, _, rfl, rfl, hpair⟩
    | succ d =>
      obtain ⟨t, t', ht, ht', hpairs⟩ | ⟨i, i', hi, hi', -⟩ := ih d
      · exact .inl ⟨t, t', Store.climb_succ hleft ht, Store.climb_succ hright ht', hpairs⟩
      · refine .inr ⟨i + 1, i' + 1, ?_, ?_, Nat.succ_ne_zero _⟩
        · simp only [Layers.lift, Store.climb, hleft, hi]
          rfl
        · simp only [Store.climb, hright, hi']
          rfl
  | extra hleft _ ih =>
    obtain ⟨t, t', ht, ht', hpairs⟩ | ⟨i, i', hi, hi', -⟩ := ih d
    · exact .inl ⟨t, t', Store.climb_succ hleft ht, ht', hpairs⟩
    · refine .inr ⟨i + 1, i', ?_, hi', Nat.succ_ne_zero _⟩
      simp only [Layers.lift, Store.climb, hleft, hi]
      rfl

namespace Stores

variable (h : Stores chosen w)
include h

/-- A name is bound in both twins or in neither. -/
theorem local? (hpair : w.pairs f g) (name : String) :
    (w.left.store.local? f name = none ∧ w.right.store.local? g name = none) ∨
      ∃ v v', w.left.store.local? f name = some v ∧ w.right.store.local? g name = some v' ∧
        ValueTwin chosen w v v' :=
  (h.bindings f g hpair).find?_id name

theorem binds (hpair : w.pairs f g) (name : String) :
    w.right.store.binds g name = w.left.store.binds f name := by
  obtain ⟨hnone, hnone'⟩ | ⟨v, v', hsome, hsome', -⟩ := h.local? hpair name
  · rw [Store.binds, Store.binds, hnone, hnone']
  · rw [Store.binds, Store.binds, hsome, hsome']
    rfl

theorem className (o : ObjectId) : w.right.store.className o = w.left.store.className o := by
  unfold Store.className
  by_cases ho : o < w.left.store.objects.size
  · have ho' : o < w.right.store.objects.size := by rw [h.objectsSize]; exact ho
    have hob := h.objects o _ _ (Array.getElem?_eq_getElem ho) (Array.getElem?_eq_getElem ho')
    rw [Array.getElem?_eq_getElem ho, Array.getElem?_eq_getElem ho']
    exact hob.ofClass.name
  · have ho' : ¬o < w.right.store.objects.size := by rw [h.objectsSize]; exact ho
    simp [ho, ho']

end Stores

end Twins

end LoxLang
