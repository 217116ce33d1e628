import LoxLang.Proofs.Running.Resemblance
import LoxLang.Proofs.Scoping.Linked
import LoxLang.Proofs.Store

/-!
# Two machines side by side

On the left runs a traced program, on the right a linked one. The two stores have the same frames
and the same objects, but a frame on the right may write a name in another way.

* `World`: the traced machine on the left, with the label of each frame;
* `Chain`: the frames from one frame outwards, one for each scope of a context;
* `ValueLinked`: values on the left and on the right that are the same but for names;
* `Linked`: the machine on the right belongs to the world;
* `Later`: a world after some running. What is linked in a world stays linked in later ones.
-/

namespace LoxLang

open Scoping (Context Scope Routine)

/-- Bindings on the left and on the right, in the same order. -/
inductive Bindings.Linked {α β : Type} (write : String → String) (P : α → β → Prop) :
    Bindings α → Bindings β → Prop
  | nil : Bindings.Linked write P [] []
  | cons {name : String} {v : α} {v' : β} {b : Bindings α} {b' : Bindings β} :
      P v v' → Bindings.Linked write P b b' →
      Bindings.Linked write P ((name, v) :: b) ((write name, v') :: b')

namespace Bindings.Linked

variable {α β : Type} {write : String → String} {P Q : α → β → Prop} {b : Bindings α}
  {b' : Bindings β}

theorem mono (h : Bindings.Linked write P b b') (hPQ : ∀ v v', P v v' → Q v v') :
    Bindings.Linked write Q b b' := by
  induction h with
  | nil => exact .nil
  | cons hv _ ih => exact .cons (hPQ _ _ hv) ih

/-- A name finds linked values, or nothing on either side, if no other bound name is written like
it. -/
theorem find? (h : Bindings.Linked write P b b') {name : String}
    (hinj : ∀ x, b.isBound x = true → write x = write name → x = name) :
    (b.find? name = none ∧ b'.find? (write name) = none) ∨
      ∃ v v', b.find? name = some v ∧ b'.find? (write name) = some v' ∧ P v v' := by
  induction h with
  | nil => exact .inl ⟨rfl, rfl⟩
  | @cons n v v' b b' hv _ ih =>
    rw [find?_cons, find?_cons]
    by_cases hn : n = name
    · rw [if_pos hn, if_pos (by rw [hn])]
      exact .inr ⟨v, v', rfl, rfl, hv⟩
    · have hbound : Bindings.isBound ((n, v) :: b) n = true := by simp [isBound, find?_cons]
      have hw : ¬write n = write name := fun e => hn (hinj n hbound e)
      rw [if_neg hn, if_neg hw]
      refine ih fun x hx => hinj x ?_
      rw [isBound, find?_cons]
      split
      · rfl
      · exact hx

/-- Where all names are written as they are. -/
theorem find?_id (h : Bindings.Linked id P b b') (name : String) :
    (b.find? name = none ∧ b'.find? name = none) ∨
      ∃ v v', b.find? name = some v ∧ b'.find? name = some v' ∧ P v v' :=
  h.find? fun _ _ h => h

theorem insert (h : Bindings.Linked write P b b') {name : String} {v : α} {v' : β}
    (hinj : ∀ x, b.isBound x = true → write x = write name → x = name) (hv : P v v') :
    Bindings.Linked write P (b.insert name v) (b'.insert (write name) v') := by
  induction h with
  | nil => exact .cons hv .nil
  | @cons n w w' b b' hw hrest ih =>
    unfold Bindings.insert
    by_cases hn : n = name
    · subst hn
      rw [if_pos rfl, if_pos rfl]
      exact .cons hv hrest
    · have hbound : Bindings.isBound ((n, w) :: b) n = true := by simp [isBound, find?_cons]
      have hne : ¬write n = write name := fun e => hn (hinj n hbound e)
      rw [if_neg hn, if_neg hne]
      refine .cons hw (ih fun x hx => hinj x ?_)
      rw [isBound, find?_cons]
      split
      · rfl
      · exact hx

end Bindings.Linked

/-- A traced machine with the label of each of its frames; the frame of the global variables has
none. -/
structure World where
  labels : List (Option Label)
  left : Traced
  /-- The node identities from here on are not given out yet. -/
  next : NodeId
  /-- The expressions of all programs so far, at their sites. -/
  placed : Site → Expr → Prop

namespace World

/-- The world with another machine on the left. -/
def withMachine (w : World) (m : Machine) : World :=
  { w with left := { w.left with machine := m } }

abbrev machine (w : World) : Machine := w.left.machine

abbrev store (w : World) : Store := w.machine.store

abbrev frame (w : World) : FrameId := w.machine.frame

/-- The world with another store on the left. -/
def withStore (w : World) (s : Store) : World := w.withMachine { w.machine with store := s }

end World

/-- What a world keeps of an earlier one. Only the frame `o` may have got further names. -/
structure Later (o : Option FrameId) (w w' : World) : Prop where
  labels : ∀ (f : FrameId) (l : Option Label), w.labels[f]? = some l → w'.labels[f]? = some l
  size : w.labels.length ≤ w'.labels.length
  enclosing : ∀ f < w.labels.length, w'.store.enclosing? f = w.store.enclosing? f
  binds : ∀ f name, w.store.binds f name = true → w'.store.binds f name = true
  kept : ∀ f < w.labels.length, o ≠ some f → ∀ name, w'.store.binds f name = true →
    w.store.binds f name = true
  stamps : w.store.nextStamp ≤ w'.store.nextStamp
  origins : ∀ stamp < w.store.nextStamp, w'.left.origins stamp = w.left.origins stamp
  next : w.next ≤ w'.next
  placed : ∀ site e, w.placed site e → w'.placed site e
  distances : ∀ id < w.next, w'.machine.distances.of? id = w.machine.distances.of? id

namespace Later

variable {o : Option FrameId} {w w' w'' : World}

theorem refl (o : Option FrameId) (w : World) : Later o w w where
  labels _ _ h := h
  size := Nat.le_refl _
  enclosing _ _ := rfl
  binds _ _ h := h
  kept _ _ _ _ h := h
  stamps := Nat.le_refl _
  origins _ _ := rfl
  next := Nat.le_refl _
  placed _ _ h := h
  distances _ _ := rfl

theorem trans (h : Later o w w') (h' : Later o w' w'') : Later o w w'' where
  labels f l hl := h'.labels f l (h.labels f l hl)
  size := Nat.le_trans h.size h'.size
  enclosing f hf := (h'.enclosing f (Nat.lt_of_lt_of_le hf h.size)).trans (h.enclosing f hf)
  binds f name hb := h'.binds f name (h.binds f name hb)
  kept f hf ho name hb :=
    h.kept f hf ho name (h'.kept f (Nat.lt_of_lt_of_le hf h.size) ho name hb)
  stamps := Nat.le_trans h.stamps h'.stamps
  origins stamp hs := (h'.origins stamp (Nat.lt_of_lt_of_le hs h.stamps)).trans (h.origins stamp hs)
  next := Nat.le_trans h.next h'.next
  placed site e he := h'.placed site e (h.placed site e he)
  distances id hid := (h'.distances id (Nat.lt_of_lt_of_le hid h.next)).trans (h.distances id hid)

/-- Nothing has happened to the frames. -/
theorem of_frames (hlabels : w'.labels = w.labels) (hframes : w'.store.frames = w.store.frames)
    (hstamps : w.store.nextStamp ≤ w'.store.nextStamp)
    (horigins : ∀ stamp < w.store.nextStamp, w'.left.origins stamp = w.left.origins stamp)
    (hnext : w.next ≤ w'.next) (hplaced : ∀ site e, w.placed site e → w'.placed site e)
    (hdistances : ∀ id < w.next, w'.machine.distances.of? id = w.machine.distances.of? id) :
    Later o w w' := by
  have hframe : ∀ f, w'.store.frame f = w.store.frame f := fun f => by
    simp only [Store.frame, hframes]
  exact {
    labels := fun f l h => by rwa [hlabels]
    size := Nat.le_of_eq (congrArg List.length hlabels.symm)
    enclosing := fun f _ => congrArg Frame.enclosing (hframe f)
    binds := fun f name h => by rwa [Store.binds, Store.local?, hframe]
    kept := fun f _ _ name h => by rwa [Store.binds, Store.local?, hframe] at h
    stamps := hstamps
    origins := horigins
    next := hnext
    placed := hplaced
    distances := hdistances }

theorem weaken (h : Later none w w') : Later o w w' :=
  { h with kept := fun f hf _ => h.kept f hf (fun e => nomatch e) }

/-- Names that only a new frame got do not count. -/
theorem of_new {f : FrameId} (h : Later (some f) w w') (hf : w.labels.length ≤ f) :
    Later none w w' :=
  { h with kept := fun g hg _ => h.kept g hg fun e => by cases e; omega }

end Later

/-- The frames from `f` outwards are those of the scopes, and then that of the global variables.
Each binds the names that are ready in its scope. -/
inductive Chain (w : World) : FrameId → List Scope → List Label → Prop
  | globals : Chain w globals [] []
  | scope {f e : FrameId} {scope : Scope} {label : Label} {scopes : List Scope}
      {labels : List Label} :
      w.labels[f]? = some (some label) → w.store.enclosing? f = some e →
      (∀ name, scope.lookup name = some true → w.store.binds f name = true) →
      Chain w e scopes labels → Chain w f (scope :: scopes) (label :: labels)

theorem lt_of_getElem? {α : Type} {l : List α} {i : Nat} {a : α} (h : l[i]? = some a) :
    i < l.length := (List.getElem?_eq_some_iff.mp h).1

theorem Chain.lt {w : World} {f : FrameId} {scope : Scope} {scopes : List Scope}
    {labels : List Label} (h : Chain w f (scope :: scopes) labels) : f < w.labels.length := by
  cases h with
  | scope hlabel => exact lt_of_getElem? hlabel

theorem Chain.of_cons {w : World} {f : FrameId} {scope : Scope} {scopes : List Scope}
    {labels : List Label} (h : Chain w f (scope :: scopes) labels) :
    ∃ label outer e, labels = label :: outer ∧ w.labels[f]? = some (some label) ∧
      w.store.enclosing? f = some e ∧
      (∀ name, scope.lookup name = some true → w.store.binds f name = true) ∧
      Chain w e scopes outer := by
  cases h with
  | scope hlabel henclosing hready houter =>
    exact ⟨_, _, _, rfl, hlabel, henclosing, hready, houter⟩

theorem Chain.later {o : Option FrameId} {w w' : World} {f : FrameId} {scopes : List Scope}
    {labels : List Label} (h : Chain w f scopes labels) (hl : Later o w w') :
    Chain w' f scopes labels := by
  induction h with
  | globals => exact .globals
  | scope hlabel henclosing hready _ ih =>
    refine .scope (hl.labels _ _ hlabel) ?_ (fun name h => hl.binds _ _ (hready name h)) ih
    rw [hl.enclosing _ (lt_of_getElem? hlabel), henclosing]

/-- Climbing to the frame of a scope. -/
theorem Chain.climb {w : World} {f : FrameId} {scopes : List Scope} {labels : List Label}
    (h : Chain w f scopes labels) {d : Nat} {scope : Scope} (hd : scopes[d]? = some scope) :
    ∃ t label, w.store.climb d f = .ok t ∧ labels[d]? = some label ∧
      w.labels[t]? = some (some label) ∧
      ∀ name, scope.lookup name = some true → w.store.binds t name = true := by
  induction h generalizing d with
  | globals => cases hd
  | @scope f e _ label _ _ hlabel henclosing hready _ ih =>
    cases d with
    | zero =>
      cases hd
      exact ⟨f, label, rfl, rfl, hlabel, hready⟩
    | succ d =>
      obtain ⟨t, l, ht, hl, hlt, hbinds⟩ := ih hd
      exact ⟨t, l, Store.climb_succ henclosing ht, hl, hlt, hbinds⟩

theorem Chain.climb_globals {w : World} {f : FrameId} {scopes : List Scope} {labels : List Label}
    (h : Chain w f scopes labels) : w.store.climb scopes.length f = .ok LoxLang.globals := by
  induction h with
  | globals => rfl
  | scope _ henclosing _ _ ih => exact Store.climb_succ henclosing ih

theorem Chain.length_eq {w : World} {f : FrameId} {scopes : List Scope} {labels : List Label}
    (h : Chain w f scopes labels) : labels.length = scopes.length := by
  induction h with
  | globals => rfl
  | scope _ _ _ _ ih => rw [List.length_cons, List.length_cons, ih]

/-- What is known is so in the world. -/
structure Covers (w : World) (K : Findings) : Prop where
  known : K.next ≤ w.next
  distances : ∀ id < K.next, w.machine.distances.of? id = K.distance? id
  placed : ∀ site e, K.placed site e → w.placed site e

theorem Covers.later {o : Option FrameId} {w w' : World} {K : Findings} (h : Covers w K)
    (hl : Later o w w') : Covers w' K where
  known := Nat.le_trans h.known hl.next
  distances id hid :=
    (hl.distances id (Nat.lt_of_lt_of_le hid h.known)).trans (h.distances id hid)
  placed site e he := hl.placed site e (h.placed site e he)

section
variable (ρ : Renaming)

/-- Two declarations are linked in a context, and the function of this stamp starts there. -/
structure CodeLinked (w : World) (ctx : Context) (labels : List Label) (stamp : Nat)
    (d d' : FunctionDecl) : Prop where
  made : stamp < w.store.nextStamp
  linked : ∃ K routine, Covers w K ∧ FunctionLinked ρ K (ctx.inRoutine routine) labels d d' ∧
    w.left.origins stamp = (siteOf ctx labels).inFunction routine d

/-- Functions that are the same but for names. The frame of an initializer is one of an object. -/
structure ClosureLinked (w : World) (c c' : Closure) : Prop where
  stamp : c'.stamp = c.stamp
  frame : c'.frame = c.frame
  isInitializer : c'.isInitializer = c.isInitializer
  code : ∃ (ctx : Context) (labels : List Label),
    CodeLinked ρ w ctx labels c.stamp c.declaration c'.declaration ∧
    Chain w c.frame ctx.scopes labels ∧
    (c.isInitializer = true → ctx.scopes.head? = some [("this", true)] ∧
      labels.head? = some .this)

/-- Methods that are the same but for names, not bound to an object yet. -/
structure MethodLinked (w : World) (c c' : Closure) : Prop where
  stamp : c'.stamp = c.stamp
  frame : c'.frame = c.frame
  isInitializer : c'.isInitializer = c.isInitializer
  code : ∃ (ctx : Context) (labels : List Label),
    CodeLinked ρ w ctx.inClassBody (.this :: labels) c.stamp c.declaration c'.declaration ∧
    Chain w c.frame ctx.scopes labels

structure ClassLinked (w : World) (c c' : Class) : Prop where
  stamp : c'.stamp = c.stamp
  name : c'.name = c.name
  methods : Bindings.Linked id (MethodLinked ρ w) c.methods c'.methods

inductive ValueLinked (w : World) : Value → Value → Prop
  | plain {v : Value} : v.IsPlain → ValueLinked w v v
  | clock : ValueLinked w (.native .clock) (.native .clock)
  | function {c c' : Closure} : ClosureLinked ρ w c c' → ValueLinked w (.function c) (.function c')
  | ofClass {c c' : Class} : ClassLinked ρ w c c' → ValueLinked w (.ofClass c) (.ofClass c')
  | object {o : ObjectId} : ValueLinked w (.object o) (.object o)

structure FrameLinked (w : World) (l : Option Label) (fr fr' : Frame) : Prop where
  enclosing : fr'.enclosing = fr.enclosing
  bindings : Bindings.Linked (ρ.inScope l) (ValueLinked ρ w) fr.bindings fr'.bindings
  declared : ∀ label ∈ l, ∀ name, fr.bindings.isBound name = true → name ∈ label.names
  proper : ∀ label ∈ l, label.Proper ρ

structure ObjectLinked (w : World) (o o' : Object) : Prop where
  ofClass : ClassLinked ρ w o.ofClass o'.ofClass
  fields : Bindings.Linked id (ValueLinked ρ w) o.fields o'.fields

/-- The store on the right belongs to the world. -/
structure StoreLinked (w : World) (s : Store) : Prop where
  stamps : s.nextStamp = w.store.nextStamp
  size : w.store.frames.size = w.labels.length
  size' : s.frames.size = w.labels.length
  frames : ∀ (f : FrameId) (l : Option Label), w.labels[f]? = some l →
    FrameLinked ρ w l (w.store.frame f) (s.frame f)
  objectsSize : s.objects.size = w.store.objects.size
  objects : ∀ (o : ObjectId) (ob ob' : Object), w.store.objects[o]? = some ob →
    s.objects[o]? = some ob' → ObjectLinked ρ w ob ob'
  global : w.labels[globals]? = some none
  outermost : w.store.enclosing? globals = none

/-- The visit is of an expression at its site, and finds in the store what it should. -/
structure Visit.Sound (placed : Site → Expr → Prop) (v : Visit) : Prop where
  aligned : v.Aligned
  refers : v.Refers
  placed : placed v.site v.expr

/-- The machine on the right belongs to the world. -/
structure Linked (w : World) (m : Machine) : Prop where
  store : StoreLinked ρ w m.store
  frame : m.frame = w.frame
  depth : m.depth = w.machine.depth
  distances : m.distances = w.machine.distances
  maxDepth : m.maxDepth = w.machine.maxDepth
  output : m.output = w.machine.output
  host : m.host = w.machine.host
  readings : m.readings = w.machine.readings
  visits : ∀ v ∈ w.left.visits, v.Sound w.placed

end

/-! ## Later worlds -/

section
variable {ρ : Renaming} {o : Option FrameId} {w w' : World}

theorem CodeLinked.later {ctx : Context} {labels : List Label} {stamp : Nat} {d d' : FunctionDecl}
    (h : CodeLinked ρ w ctx labels stamp d d') (hl : Later o w w') :
    CodeLinked ρ w' ctx labels stamp d d' where
  made := Nat.lt_of_lt_of_le h.made hl.stamps
  linked := by
    obtain ⟨K, routine, hcovers, hlinked, horigin⟩ := h.linked
    exact ⟨K, routine, hcovers.later hl, hlinked, (hl.origins _ h.made).trans horigin⟩

theorem ClosureLinked.later {c c' : Closure} (h : ClosureLinked ρ w c c') (hl : Later o w w') :
    ClosureLinked ρ w' c c' :=
  { h with
    code := by
      obtain ⟨ctx, labels, hcode, hchain, hthis⟩ := h.code
      exact ⟨ctx, labels, hcode.later hl, hchain.later hl, hthis⟩ }

theorem MethodLinked.later {c c' : Closure} (h : MethodLinked ρ w c c') (hl : Later o w w') :
    MethodLinked ρ w' c c' :=
  { h with
    code := by
      obtain ⟨ctx, labels, hcode, hchain⟩ := h.code
      exact ⟨ctx, labels, hcode.later hl, hchain.later hl⟩ }

theorem ClassLinked.later {c c' : Class} (h : ClassLinked ρ w c c') (hl : Later o w w') :
    ClassLinked ρ w' c c' :=
  { h with methods := h.methods.mono fun _ _ hm => hm.later hl }

theorem ValueLinked.later {v v' : Value} (h : ValueLinked ρ w v v') (hl : Later o w w') :
    ValueLinked ρ w' v v' := by
  cases h with
  | plain hv => exact .plain hv
  | clock => exact .clock
  | function hc => exact .function (hc.later hl)
  | ofClass hc => exact .ofClass (hc.later hl)
  | object => exact .object

theorem FrameLinked.later {l : Option Label} {fr fr' : Frame} (h : FrameLinked ρ w l fr fr')
    (hl : Later o w w') : FrameLinked ρ w' l fr fr' :=
  { h with bindings := h.bindings.mono fun _ _ hv => hv.later hl }

theorem ObjectLinked.later {ob ob' : Object} (h : ObjectLinked ρ w ob ob') (hl : Later o w w') :
    ObjectLinked ρ w' ob ob' where
  ofClass := h.ofClass.later hl
  fields := h.fields.mono fun _ _ hv => hv.later hl

/-- Linked stores stay linked in a later world with the same store. -/
theorem StoreLinked.later {s : Store} (h : StoreLinked ρ w s) (hl : Later o w w')
    (hlabels : w'.labels = w.labels) (hstore : w'.store = w.store) : StoreLinked ρ w' s where
  stamps := by rw [hstore, h.stamps]
  size := by rw [hstore, hlabels, h.size]
  size' := by rw [hlabels, h.size']
  frames f l hf := by
    rw [hlabels] at hf
    rw [hstore]
    exact (h.frames f l hf).later hl
  objectsSize := by rw [hstore, h.objectsSize]
  objects ob o o' ho ho' := by
    rw [hstore] at ho
    exact (h.objects ob o o' ho ho').later hl
  global := by rw [hlabels, h.global]
  outermost := by rw [hstore, h.outermost]

end

end LoxLang
