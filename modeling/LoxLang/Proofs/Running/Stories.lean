import LoxLang.Proofs.Running.Conduct
import LoxLang.Proofs.Running.Cuts

/-!
# What is told of calls

* `Event.Fits`: what a call of a class or of an initializer gives;
* `Recalls`: what was bound to objects still is;
* `Value.Proper`, `Store.Proper`: code in which nothing is named `this`, and initializers that are
  marked as such;
* `Store.Becomes`: a later store, in which objects have the classes and bound methods the objects
  they had;
* `Plan.Tells`: what happens in a plan fits, and the plan leads to such a store; with a rule for
  each kind of plan.
-/

namespace LoxLang

/-! ## What calls give -/

/-- A call of a class gives a new object of this class. A call of an initializer gives the object
that it has been bound to, whose class is then what it was at the binding and before the call. -/
def Event.Fits (past : List Event) : Event → Prop
  | calls (.ofClass c) m result m' =>
    ∃ o, result = .object o ∧ m.store.class? o = none ∧ m'.store.class? o = some c
  | calls (.function f) m result m' =>
    ∀ o n, .passes (.binds o "init" f) n ∈ past →
      result = .object o ∧ ∃ c, n.store.class? o = some c ∧ m'.store.class? o = some c ∧
        ∀ c', m.store.class? o = some c' → c' = c
  | _ => True

/-- Everything that is told fits what happened before. -/
def AllFit (past told : List Event) : Prop :=
  ∀ earlier e later, told = earlier ++ e :: later → e.Fits (past ++ earlier)

theorem AllFit.nil (past : List Event) : AllFit past [] :=
  fun _ _ _ h => nomatch (List.append_eq_nil_iff.mp h.symm).2

theorem AllFit.single {past : List Event} {e : Event} (h : e.Fits past) : AllFit past [e] := by
  intro earlier e' later heq
  obtain ⟨rfl, hrest⟩ | ⟨_, rfl, hrest⟩ := List.cons_eq_append_iff.mp heq
  · cases hrest
    rwa [List.append_nil]
  · exact nomatch (List.append_eq_nil_iff.mp hrest.symm).2

theorem AllFit.append {past told told' : List Event} (h : AllFit past told)
    (h' : AllFit (past ++ told) told') : AllFit past (told ++ told') := by
  intro earlier e later heq
  obtain ⟨rest, hearlier, hrest⟩ | ⟨rest, htold, hrest⟩ := List.append_eq_append_iff.mp heq
  · rw [hearlier, ← List.append_assoc]
    exact h' rest e later hrest
  · cases rest with
    | nil =>
      have hnone := h' [] e later hrest.symm
      rwa [List.append_nil, htold, List.append_nil] at hnone
    | cons e' more =>
      cases hrest
      exact h earlier e more htold

/-- What was bound still is, and the object is of the class it was of. -/
def Recalls (past : List Event) (s : Store) : Prop :=
  ∀ o name f n, .passes (.binds o name f) n ∈ past →
    s.local? f.frame "this" = some (.object o) ∧ (name = "init" → f.isInitializer = true) ∧
      ∃ c, n.store.class? o = some c ∧ s.class? o = some c

/-- What is no binding makes no difference. -/
theorem Recalls.other {past : List Event} {s : Store} {e : Event} (h : Recalls past s)
    (he : ∀ mark n, e ≠ .passes mark n) : Recalls (past ++ [e]) s := by
  intro o name f n hmem
  obtain hmem | hmem := List.mem_append.mp hmem
  · exact h o name f n hmem
  · exact (he _ _ (List.mem_singleton.mp hmem).symm).elim

/-! ## Proper values -/

structure Class.Proper (c : Class) : Prop where
  names (name : String) (f : Closure) : c.method? name = some f → "this" ∉ f.declaration.names
  initializer (f : Closure) : c.method? "init" = some f → f.isInitializer = true

/-- In what runs when the value is called, nothing is named `this`. -/
def Value.Proper : Value → Prop
  | native f => f = .clock
  | function f => "this" ∉ f.declaration.names
  | ofClass c => c.Proper
  | _ => True

theorem Value.IsPlain.proper {v : Value} (h : v.IsPlain) : v.Proper := by
  cases v with
  | function f => cases h
  | ofClass c => cases h
  | native f => cases h
  | _ => trivial

namespace Store

structure Proper (s : Store) : Prop where
  locals (f : FrameId) (x : String) (v : Value) : s.local? f x = some v → v.Proper
  fields (o : ObjectId) (x : String) (v : Value) : s.field? o x = some v → v.Proper
  classes (o : ObjectId) (c : Class) : s.class? o = some c → c.Proper

/-- A proper store of the same machine, later. -/
structure Becomes (s s' : Store) : Prop where
  proper : s'.Proper
  this (f : FrameId) (v : Value) : s.local? f "this" = some v → s'.local? f "this" = some v
  classes (o : ObjectId) (c : Class) : s.class? o = some c → s'.class? o = some c

namespace Becomes

variable {s s' s'' : Store}

theorem refl (h : s.Proper) : s.Becomes s := ⟨h, fun _ _ hf => hf, fun _ _ ho => ho⟩

theorem trans (h : s.Becomes s') (h' : s'.Becomes s'') : s.Becomes s'' where
  proper := h'.proper
  this f v hf := h'.this f v (h.this f v hf)
  classes o c ho := h'.classes o c (h.classes o c ho)

theorem define {name : String} {v : Value} (h : s.Proper) (f : FrameId) (hname : name ≠ "this")
    (hv : v.Proper) : s.Becomes (s.define f name v) where
  proper := by
    refine ⟨fun g x w hw => ?_, h.fields, h.classes⟩
    obtain rfl | hw := Store.local?_define hw
    · exact hv
    · exact h.locals g x w hw
  this g w hg := (Store.local?_define_of_ne hname).trans hg
  classes _ _ ho := ho

theorem newFrame {bindings : Bindings Value} (h : s.Proper) (enclosing : Option FrameId)
    (hb : ∀ x v, bindings.find? x = some v → v.Proper) :
    s.Becomes (s.newFrame enclosing bindings).2 where
  proper := by
    refine ⟨fun g x w hw => ?_, h.fields, h.classes⟩
    obtain hw | hw := Store.local?_newFrame hw
    · exact hb x w hw
    · exact h.locals g x w hw
  this _ _ hg := Store.local?_newFrame_of_some hg
  classes _ _ ho := ho

theorem newObject {c : Class} (h : s.Proper) (hc : c.Proper) : s.Becomes (s.newObject c).2 where
  proper := by
    refine ⟨h.locals, fun o x v hv => h.fields o x v (Store.field?_newObject hv), fun o c' ho => ?_⟩
    obtain rfl | ho := Store.class?_newObject ho
    · exact hc
    · exact h.classes o c' ho
  this _ _ hg := hg
  classes _ _ ho := Store.class?_newObject_of_some ho

theorem setField {v : Value} (h : s.Proper) (o : ObjectId) (name : String) (hv : v.Proper) :
    s.Becomes (s.setField o name v) where
  proper := by
    refine ⟨h.locals, fun o' x w hw => ?_, fun o' c ho => ?_⟩
    · obtain rfl | hw := Store.field?_setField hw
      · exact hv
      · exact h.fields o' x w hw
    · exact h.classes o' c (Store.class?_setField.symm.trans ho)
  this _ _ hg := hg
  classes _ _ ho := Store.class?_setField.trans ho

/-- Stamps are used up. -/
theorem newStamps (h : s.Proper) (n : Nat) :
    s.Becomes { s with nextStamp := s.nextStamp + n } :=
  ⟨⟨h.locals, h.fields, h.classes⟩, fun _ _ hf => hf, fun _ _ ho => ho⟩

theorem recalls {past : List Event} (h : s.Becomes s') (hs : Recalls past s) : Recalls past s' := by
  intro o name f n hmem
  obtain ⟨hthis, hinit, c, hn, hc⟩ := hs o name f n hmem
  exact ⟨h.this _ _ hthis, hinit, c, hn, h.classes o c hc⟩

end Becomes

end Store

namespace Plan

open Running

variable {α β : Type} {m : Machine} {Q : α → Store → Prop} {Q' : β → Store → Prop}

/-- On the machine, what happens in the plan fits; and the plan leads to a later store, with a value
of which something holds. -/
structure Tells (m : Machine) (x : Plan α) (Q : α → Store → Prop) : Prop where
  fits (past : List Event) : Recalls past m.store → AllFit past (x.tell Run.printLine m)
  becomes (m' : Machine) :
    (x.perform Run.printLine m).state? = some m' → m.store.Becomes m'.store
  recalls (past : List Event) (m' : Machine) : Recalls past m.store →
    (x.perform Run.printLine m).state? = some m' →
    Recalls (past ++ x.tell Run.printLine m) m'.store
  gives (a : α) (m' : Machine) : x.perform Run.printLine m = .ok a m' → Q a m'.store

namespace Tells

/-- Nothing is told. -/
theorem quiet {x : Plan α} (htold : x.tell Run.printLine m = [])
    (hbecomes : ∀ m', (x.perform Run.printLine m).state? = some m' → m.store.Becomes m'.store)
    (hgives : ∀ a m', x.perform Run.printLine m = .ok a m' → Q a m'.store) : Tells m x Q where
  fits past _ := by
    rw [htold]
    exact .nil past
  becomes := hbecomes
  recalls past m' hpast hm' := by
    rw [htold, List.append_nil]
    exact (hbecomes m' hm').recalls hpast
  gives := hgives

theorem step {f : DistanceTable → FrameId → Store → Except RuntimeError (α × Store)}
    (h : m.store.Proper) (hf : ∀ a s, f m.distances m.frame m.store = .ok (a, s) →
      m.store.Becomes s ∧ Q a s) : Tells m (.step f) Q := by
  cases hfm : f m.distances m.frame m.store with
  | ok r =>
    obtain ⟨a, s⟩ := r
    have hperform : (Plan.step f).perform Run.printLine m = .ok a { m with store := s } := by
      simp only [perform, Run.onStore, hfm]
    obtain ⟨hbecomes, hQ⟩ := hf a s hfm
    refine .quiet rfl (fun m' hm' => ?_) fun b m' hm' => ?_ <;> rw [hperform] at hm' <;> cases hm'
    · exact hbecomes
    · exact hQ
  | error e =>
    have hperform : (Plan.step f).perform Run.printLine m = .error e m := by
      simp only [perform, Run.onStore, hfm]
    refine .quiet rfl (fun m' hm' => ?_) fun b m' hm' => ?_ <;> rw [hperform] at hm' <;> cases hm'
    exact .refl h

theorem make {f : FrameId → Store → α × Store} (h : m.store.Proper)
    (hbecomes : m.store.Becomes (f m.frame m.store).2)
    (hQ : Q (f m.frame m.store).1 (f m.frame m.store).2) : Tells m (.make f) Q :=
  .step h fun a s heq => by
    rw [Except.ok.inj heq] at hbecomes hQ
    exact ⟨hbecomes, hQ⟩

theorem pure {a : α} (h : m.store.Proper) (ha : Q a m.store) : Tells m (Pure.pure a) Q :=
  .make h (.refl h) ha

theorem fail {e : RuntimeError} (h : m.store.Proper) : Tells m (.fail e : Plan α) Q :=
  .step h fun _ _ heq => nomatch heq

theorem outOfFuel : Tells m (.outOfFuel : Plan α) Q :=
  .quiet rfl (fun _ h => nomatch h) fun _ _ h => nomatch h

/-- A plan that tells and leaves what another one does, without a value. -/
theorem stopped {x : Plan α} {y : Plan β} (hx : Tells m x Q)
    (htell : y.tell Run.printLine m = x.tell Run.printLine m)
    (hstate : (y.perform Run.printLine m).state? = (x.perform Run.printLine m).state?)
    (hnone : ∀ b m', y.perform Run.printLine m ≠ .ok b m') : Tells m y Q' where
  fits := by
    rw [htell]
    exact hx.fits
  becomes := by
    rw [hstate]
    exact hx.becomes
  recalls := by
    rw [htell, hstate]
    exact hx.recalls
  gives b m' h := (hnone b m' h).elim

/-- Two plans in a row. -/
theorem bind {x : Plan α} {f : α → Plan β} (hx : Tells m x Q)
    (hf : ∀ a m', m.store.Becomes m'.store → Q a m'.store → Tells m' (f a) Q') :
    Tells m (x >>= f) Q' := by
  have htell : (x >>= f).tell Run.printLine m = x.tell Run.printLine m
      ++ onward (x.perform Run.printLine m) fun a => (f a).tell Run.printLine := rfl
  have hperform : (x >>= f).perform Run.printLine m
      = (x.perform Run.printLine >>= fun a => (f a).perform Run.printLine) m := rfl
  cases hxm : x.perform Run.printLine m with
  | ok a m₁ =>
    rw [hxm, onward_ok] at htell
    rw [Action.bind_of_ok hxm] at hperform
    have hstate : (x.perform Run.printLine m).state? = some m₁ := by
      rw [hxm]
      rfl
    have hbecomes := hx.becomes m₁ hstate
    have hrest := hf a m₁ hbecomes (hx.gives a m₁ hxm)
    refine ⟨fun past hpast => ?_, ?_, ?_, ?_⟩
    · rw [htell]
      exact (hx.fits past hpast).append (hrest.fits _ (hx.recalls past m₁ hpast hstate))
    · rw [hperform]
      exact fun m' hm' => hbecomes.trans (hrest.becomes m' hm')
    · rw [hperform, htell]
      intro past m' hpast hm'
      rw [← List.append_assoc]
      exact hrest.recalls _ m' (hx.recalls past m₁ hpast hstate) hm'
    · rw [hperform]
      exact hrest.gives
  | error e m₁ =>
    rw [hxm, onward_error, List.append_nil] at htell
    rw [Action.bind_of_error hxm] at hperform
    exact hx.stopped htell (by rw [hperform, hxm]; rfl) fun b m' h => nomatch hperform.symm.trans h
  | outOfFuel =>
    rw [hxm, onward_outOfFuel, List.append_nil] at htell
    rw [Action.bind_of_outOfFuel hxm] at hperform
    exact hx.stopped htell (by rw [hperform, hxm]; rfl) fun b m' h => nomatch hperform.symm.trans h

theorem imp {x : Plan α} {Q' : α → Store → Prop} (hx : Tells m x Q)
    (h : ∀ a s, m.store.Becomes s → Q a s → Q' a s) : Tells m x Q' where
  fits := hx.fits
  becomes := hx.becomes
  recalls := hx.recalls
  gives a m' hm' := h a m'.store (hx.becomes m' (by rw [hm']; rfl)) (hx.gives a m' hm')

/-- Something is told of which the past holds. -/
theorem note {mark : Mark} (h : m.store.Proper)
    (hmark : ∀ o name f, mark = .binds o name f →
      m.store.local? f.frame "this" = some (.object o) ∧
        (name = "init" → f.isInitializer = true) ∧ ∃ c, m.store.class? o = some c) :
    Tells m (.note mark) fun _ _ => True where
  fits _ _ := .single trivial
  becomes m' hm' := by
    cases hm'
    exact .refl h
  recalls past m' hpast hm' := by
    cases hm'
    intro o name f n hmem
    obtain hmem | hmem := List.mem_append.mp hmem
    · exact hpast o name f n hmem
    · cases List.mem_singleton.mp hmem
      obtain ⟨hthis, hinit, c, hc⟩ := hmark o name f rfl
      exact ⟨hthis, hinit, c, hc, hc⟩
  gives _ _ _ := trivial

/-- Something is told that is no binding. -/
theorem noted {x : Plan α} {mark : Mark} (hmark : mark.isBinding = false)
    (h : m.store.Proper) (hx : ∀ m', m'.store.Proper → Tells m' x Q) :
    Tells m (Plan.note mark >>= fun _ => x) Q := by
  refine .bind (.note h fun o name f heq => ?_) fun _ m' hreach _ => hx m' hreach.proper
  rw [heq] at hmark
  cases hmark

/-- A machine with the same store. -/
theorem print (value : Value) (h : m.store.Proper) :
    Tells m (.print value) fun _ _ => True := by
  have hsame (m' : Machine) (hm' : (Run.printLine value m).state? = some m') :
      m'.store = m.store := by
    obtain haccepts | ⟨reason, part, hrefuses⟩ := printLine_honest value m
    · rw [haccepts] at hm'
      cases hm'
      rfl
    · rw [hrefuses.error] at hm'
      cases hm'
      rfl
  refine ⟨fun _ _ => .single trivial, fun m' hm' => ?_, fun past m' hpast hm' => ?_,
    fun _ _ _ => trivial⟩
  · rw [hsame m' hm']
    exact .refl h
  · rw [hsame m' hm']
    exact hpast.other fun _ _ => nofun

theorem clock (arguments : List Value) (h : m.store.Proper) :
    Tells m (.native .clock arguments) fun v _ => v.Proper := by
  refine .quiet rfl (fun m' hm' => ?_) fun v m' hm' => ?_ <;> cases hm'
  · exact .refl h
  · trivial

/-- Something that runs on another machine with the same store, and back. -/
theorem elsewhere {x y : Plan α} {n : Machine} {g : Machine → Machine} (hx : Tells n x Q)
    (hstore : n.store = m.store) (htell : y.tell Run.printLine m = x.tell Run.printLine n)
    (hperform : y.perform Run.printLine m = (x.perform Run.printLine n).mapState g)
    (hback : ∀ m, (g m).store = m.store) :
    Tells m y Q := by
  have hstate (m' : Machine) (hm' : (y.perform Run.printLine m).state? = some m') :
      ∃ n', (x.perform Run.printLine n).state? = some n' ∧ m'.store = n'.store := by
    rw [hperform, Outcome.state?_mapState] at hm'
    obtain ⟨n', hn', rfl⟩ := Option.map_eq_some_iff.mp hm'
    exact ⟨n', hn', hback n'⟩
  refine ⟨fun past hpast => ?_, fun m' hm' => ?_, fun past m' hpast hm' => ?_, fun a m' hm' => ?_⟩
  · rw [htell]
    exact hx.fits past (hstore ▸ hpast)
  · obtain ⟨n', hn', heq⟩ := hstate m' hm'
    rw [heq, ← hstore]
    exact hx.becomes n' hn'
  · obtain ⟨n', hn', heq⟩ := hstate m' hm'
    rw [heq, htell]
    exact hx.recalls past n' (hstore ▸ hpast) hn'
  · rw [hperform] at hm'
    cases hxn : x.perform Run.printLine n with
    | ok b n' =>
      rw [hxn] at hm'
      cases hm'
      rw [hback]
      exact hx.gives a n' hxn
    | error e n' =>
      rw [hxn] at hm'
      cases hm'
    | outOfFuel =>
      rw [hxn] at hm'
      cases hm'

theorem inFrame {frame : FrameId} {x : Plan α} (hx : Tells { m with frame } x Q) :
    Tells m (.inFrame frame x) Q :=
  hx.elsewhere rfl rfl (Run.inFrame_apply _ _ _) fun _ => rfl

theorem ifRoom {x : Plan α} (line : Nat) (h : m.store.Proper)
    (hx : Tells { m with depth := m.depth + 1 } x Q) : Tells m (.ifRoom line x) Q := by
  by_cases hfull : m.maxDepth ≤ m.depth
  · have hperform : (Plan.ifRoom line x).perform Run.printLine m
        = .error (.stackOverflow line) m := if_pos hfull
    refine .quiet (if_pos hfull) (fun m' hm' => ?_) fun a m' hm' => ?_ <;>
      rw [hperform] at hm' <;> cases hm'
    exact .refl h
  · exact hx.elsewhere rfl (if_neg hfull) ((if_neg hfull).trans (Run.oneDeeper_apply _ _))
      fun _ => rfl

/-- A call whose result fits. -/
theorem called {callee : Value} {x : Plan Value} {Q : Value → Store → Prop} (hx : Tells m x Q)
    (hfits : ∀ past v m', Recalls past m'.store → m.store.Becomes m'.store → Q v m'.store →
      (Event.calls callee m v m').Fits past) : Tells m (.called callee x) Q := by
  have htell : (Plan.called callee x).tell Run.printLine m = x.tell Run.printLine m
      ++ onward (x.perform Run.printLine m) fun v m' => [.calls callee m v m'] := rfl
  cases hxm : x.perform Run.printLine m with
  | ok v m₁ =>
    have hstate : (x.perform Run.printLine m).state? = some m₁ := by
      rw [hxm]
      rfl
    have hfit := fun past hpast => hfits past v m₁ hpast (hx.becomes m₁ hstate) (hx.gives v m₁ hxm)
    rw [hxm, onward_ok] at htell
    refine ⟨fun past hpast => ?_, hx.becomes, fun past m' hpast hm' => ?_, hx.gives⟩
    · rw [htell]
      exact (hx.fits past hpast).append (.single (hfit _ (hx.recalls past m₁ hpast hstate)))
    · rw [htell, ← List.append_assoc]
      exact (hx.recalls past m' hpast hm').other fun _ _ => nofun
  | error e m₁ =>
    rw [hxm, onward_error, List.append_nil] at htell
    exact hx.stopped htell rfl fun b m' h => nomatch hxm.symm.trans h
  | outOfFuel =>
    rw [hxm, onward_outOfFuel, List.append_nil] at htell
    exact hx.stopped htell rfl fun b m' h => nomatch hxm.symm.trans h

end Tells

end Plan

end LoxLang
