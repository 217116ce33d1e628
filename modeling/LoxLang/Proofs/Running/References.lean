import LoxLang.Proofs.Running.Stores

/-!
# References in lockstep

Where the machine stands in a context, a reference of the context finds the frame of its scope, and
the two sides read or assign linked values there; with no distance they do so among the global
variables. The one failure is an assignment to a variable in its own initializer.

* `Here.aligned`, `Here.refers`: what the visits of a run find;
* `lookUp_runs`, `assign_runs`.
-/

namespace LoxLang

open Scoping (Context Scope)

variable {ρ : Renaming} {w : World} {m : Machine} {ctx : Context} {labels : List Label}
  {K : Findings}

/-! ## Visits -/

/-- The current frame has the label of the innermost scope. -/
theorem Chain.label {f : FrameId} {scopes : List Scope} (h : Chain w f scopes labels)
    (hglobal : w.labels[LoxLang.globals]? = some none) : w.labels[f]? = some labels.head? := by
  cases h with
  | globals => exact hglobal
  | scope hlabel => exact hlabel

theorem Here.label {s : Store} (h : Here w ctx labels) (hs : StoreLinked ρ w s) :
    w.labels[w.frame]? = some labels.head? := h.chain.label hs.global

theorem Here.aligned {s : Store} (h : Here w ctx labels) (hs : StoreLinked ρ w s) (e : Expr) :
    (Visit.mk (siteOf ctx labels) e w.machine).Aligned where
  globals := h.chain.climb_globals
  outermost := hs.outermost
  frames k scope hscope := by
    obtain ⟨f, label, hclimb, hlabel, hframe, hready⟩ := h.chain.climb hscope
    refine ⟨f, label.names, hclimb, ?_, hready, fun name hb => hs.declared hframe hb⟩
    simp [siteOf, hlabel]

/-- A reference that is ready is bound at its distance. -/
theorem Here.binds_of_ready (h : Here w ctx labels) {name : String} {d : Nat}
    (hd : ctx.distance? name = some d) (hready : ctx.mark? name ≠ some false) :
    ∃ f label, w.store.climb d w.frame = .ok f ∧ labels[d]? = some label ∧
      w.labels[f]? = some (some label) ∧ w.store.binds f name = true := by
  obtain ⟨scope, b, hscope, hlookup, hmark⟩ := Context.mark?_of_distance? hd
  obtain ⟨f, label, hclimb, hlabel, hframe, hbinds⟩ := h.chain.climb hscope
  refine ⟨f, label, hclimb, hlabel, hframe, hbinds name ?_⟩
  cases b with
  | true => exact hlookup
  | false => exact absurd hmark hready

/-- What is found of a name that is not ready: the current frame, without the name. -/
theorem Here.not_binds (h : Here w ctx labels) {name : String} (hname : Unready ctx labels name) :
    ctx.distance? name = some 0 ∧ w.store.binds w.frame name = false ∧
      ∃ label, labels[0]? = some label ∧ name ∈ label.names := by
  obtain ⟨scope, hhead, hlookup⟩ := hname.mark
  obtain ⟨outer, hscopes⟩ := List.head?_eq_some_iff.mp hhead
  refine ⟨Context.distance?_of_head hscopes hlookup, Bool.eq_false_iff.mpr fun hb => ?_, ?_⟩
  · rw [h.exact scope hhead name hb] at hlookup
    cases hlookup
  · obtain ⟨label, hlabel⟩ : ∃ label, labels.head? = some label := by
      have hlen := h.chain.length_eq
      rw [hscopes] at hlen
      cases labels with
      | nil => simp at hlen
      | cons label _ => exact ⟨label, rfl⟩
    exact ⟨label, by rwa [← List.head?_eq_getElem?], hname.declared label hlabel⟩

/-- The name of a reference, and whether it is ready unless it is assigned in its initializer. -/
theorem Here.refers (h : Here w ctx labels) (hcovers : Covers w K) {e e' : Expr}
    (he : ExprLinked ρ K ctx labels e e') :
    (Visit.mk (siteOf ctx labels) e w.machine).Refers := by
  -- A reference that is ready is no early assignment.
  have hready : ∀ {id : NodeId} {name : String} {d : Nat}, Recorded K ctx id name →
      ctx.mark? name ≠ some false → w.machine.distances.of? id = some d →
      (∀ i x v, e = .assign i x v → x.name = name) →
      ∃ f, w.store.climb d w.frame = .ok f ∧ (w.store.binds f name = true ↔
        ¬(Visit.mk (siteOf ctx labels) e w.machine).AssignsEarly) := by
    intro id name d hrecorded hmark hd hname
    rw [hcovers.distances id hrecorded.known, hrecorded.distance] at hd
    obtain ⟨f, label, hclimb, -, -, hbinds⟩ := h.binds_of_ready hd hmark
    refine ⟨f, hclimb, iff_of_true hbinds ?_⟩
    rintro ⟨i, x, v, heq, hinit⟩
    rw [hname i x v heq] at hinit
    obtain ⟨scope, hhead, hlookup⟩ := Site.initializes_iff.mp hinit
    obtain ⟨outer, hscopes⟩ := List.head?_eq_some_iff.mp hhead
    exact hmark (Context.mark?_of_head hscopes hlookup)
  intro r d hr hd
  cases he with
  | var _ hrecorded hmark =>
    cases hr
    exact hready hrecorded hmark hd fun _ _ _ heq => nomatch heq
  | this _ hrecorded hmark =>
    cases hr
    exact hready hrecorded hmark hd fun _ _ _ heq => nomatch heq
  | @assign id name value value' _ hrecorded hmark =>
    cases hr
    by_cases hfalse : ctx.mark? name.name = some false
    · have hunready := hmark hfalse
      obtain ⟨hzero, hnot, -⟩ := h.not_binds hunready
      have hd : w.machine.distances.of? id = some d := hd
      rw [hcovers.distances id hrecorded.known, hrecorded.distance, hzero] at hd
      cases hd
      have hearly : (Visit.mk (siteOf ctx labels) (.assign id name value) w.machine).AssignsEarly :=
        ⟨id, name, value, rfl, Site.initializes_iff.mpr hunready.mark⟩
      refine ⟨w.frame, rfl, iff_of_false ?_ fun h => h hearly⟩
      change ¬w.store.binds w.frame name.name = true
      rw [hnot]
      exact Bool.false_ne_true
    · exact hready hrecorded hfalse hd fun i x v heq => by cases heq; rfl
  | _ => cases hr

/-! ## Reading a variable -/

theorem getAt_of_climb {s : Store} {d : Nat} {f t : FrameId} (h : s.climb d f = .ok t)
    (name : String) : s.getAt f d name = match s.local? t name with
      | some value => .ok value
      | none => .error (.unresolved name d) := by
  simp only [Store.getAt, Store.ancestor, h]
  rfl

theorem assigneeAt_of_climb {s : Store} {d : Nat} {f t : FrameId} (h : s.climb d f = .ok t)
    (name : String) : s.assigneeAt f d name
      = if s.binds t name then .ok t else .error (.unresolved name d) := by
  simp only [Store.assigneeAt, Store.ancestor, h]
  rfl

/-- What is bound in the frame of the global variables is all that is seen from there. -/
theorem StoreLinked.binder?_globals {s : Store} (h : StoreLinked ρ w s) (name : String) :
    w.store.binder? globals name = (if w.store.binds globals name then some globals else none) ∧
      s.binder? globals name = (if w.store.binds globals name then some globals else none) := by
  have hs : s.enclosing? globals = none := (h.enclosing globals).trans h.outermost
  have hb : s.binds globals name = w.store.binds globals name :=
    h.binds h.global (fun _ hl => nomatch hl)
  rw [Store.binder?_outermost h.outermost, Store.binder?_outermost hs, hb]
  exact ⟨rfl, rfl⟩

theorem StoreLinked.get_globals {s : Store} (h : StoreLinked ρ w s) (name : String) (line : Nat) :
    (w.store.get globals name line = .error (.undefinedVariable name line) ∧
      s.get globals name line = .error (.undefinedVariable name line)) ∨
    ∃ v v', w.store.get globals name line = .ok v ∧ s.get globals name line = .ok v' ∧
      ValueLinked ρ w v v' := by
  obtain ⟨hw, hs⟩ := h.binder?_globals name
  unfold Store.get
  rw [hw, hs]
  cases hb : w.store.binds globals name with
  | false => exact .inl ⟨rfl, rfl⟩
  | true =>
    obtain ⟨v, v', hv, hv', hlinked⟩ := h.local?_of_binds h.global hb
    have hv' : s.local? globals name = some v' := hv'
    simp only [if_true, Option.bind_some, hv, hv']
    exact .inr ⟨v, v', rfl, rfl, hlinked⟩

section
variable {o : Option FrameId} {id : NodeId} {name : String} {line : Nat}

theorem lookUp_runs (hsettled : Settled ρ w m) (hhere : Here w ctx labels)
    (hcovers : Covers w K) (hrecorded : Recorded K ctx id name)
    (hready : ctx.mark? name ≠ some false) :
    Runs ρ o w m (ValueLinked ρ) (Tracing.quietly (Run.lookUp id name line))
      (Run.lookUp id (ρ.reference ctx labels name) line) := by
  have hs := hsettled.linked.store
  have hw : w.machine.distances.of? id = ctx.distance? name :=
    (hcovers.distances id hrecorded.known).trans hrecorded.distance
  have hm : m.distances.of? id = ctx.distance? name := by
    rw [hsettled.linked.distances]
    exact hw
  have hframe := hsettled.linked.frame
  have hkept : Reached ρ o w w m := .refl hsettled
  cases hd : ctx.distance? name with
  | some d =>
    obtain ⟨f, label, hclimb, hlabel, hflabel, hbinds⟩ := hhere.binds_of_ready hd hready
    obtain ⟨v, v', hv, hv', hlinked⟩ := hs.local?_of_binds hflabel hbinds
    have hclimb' : m.store.climb d m.frame = .ok f := by rw [hs.climb, hframe, hclimb]
    rw [hd] at hw hm
    rw [Renaming.reference_local hd, hlabel]
    refine Runs.ok ?_ ?_ hkept hlinked
    · simp only [Tracing.quietly, Run.lookUp, hw, getAt_of_climb hclimb, hv]
    · simp only [Run.lookUp, hm, getAt_of_climb hclimb', hv']
  | none =>
    rw [hd] at hw hm
    rw [Renaming.reference_global hd]
    obtain ⟨hv, hv'⟩ | ⟨v, v', hv, hv', hlinked⟩ := hs.get_globals name line
    · refine Runs.error hsettled (e := .undefinedVariable name line) (by simp) ?_ ?_
      · simp only [Tracing.quietly, Run.lookUp, hw, hv]
      · simp only [Run.lookUp, hm, hv']
    · refine Runs.ok ?_ ?_ hkept hlinked
      · simp only [Tracing.quietly, Run.lookUp, hw, hv]
      · simp only [Run.lookUp, hm, hv']

end

/-! ## Assigning to a variable -/

section
variable {id : NodeId} {name : Identifier} {v v' : Value}

/-- Recording an assignment that is not early changes nothing. -/
theorem noteAssignment_calm (hname : (siteOf ctx labels).initializes name.name = false) :
    { w.left with early := w.left.early || (siteOf ctx labels).initializes name.name } = w.left := by
  rw [hname, Bool.or_false]

/-- An assignment to a variable in its own initializer fails, on both sides. -/
theorem assign_early_runs {value : Expr} {k : Machine} (hsettled : Settled ρ w m)
    (hhere : Here w ctx labels) (hcovers : Covers w K) (hrecorded : Recorded K ctx id name.name)
    (hunready : Unready ctx labels name.name)
    (hvisited : ⟨siteOf ctx labels, .assign id name value, k⟩ ∈ w.left.visits) :
    Runs ρ none w m (fun _ _ _ => True)
      (do
        Tracing.noteAssignment (siteOf ctx labels) name.name
        Tracing.quietly (Run.assign id name v))
      (Run.assign id ⟨ρ.reference ctx labels name.name, name.line⟩ v') := by
  have hs := hsettled.linked.store
  have hw : w.machine.distances.of? id = ctx.distance? name.name :=
    (hcovers.distances id hrecorded.known).trans hrecorded.distance
  have hm : m.distances.of? id = ctx.distance? name.name := by
    rw [hsettled.linked.distances]
    exact hw
  have hframe := hsettled.linked.frame
  -- The variable is not bound yet, on neither side.
  obtain ⟨hzero, hnot, label, hlabel, hmem⟩ := hhere.not_binds hunready
  have hhead : labels.head? = some label := by rwa [List.head?_eq_getElem?]
  have hflabel := hhere.label hs
  rw [hhead] at hflabel
  have hnot' : m.store.binds w.frame (ρ.inScope (some label) name.name) = false := by
    rw [hs.binds hflabel (fun l hl => by cases hl; exact hmem), hnot]
  have hinit : (siteOf ctx labels).initializes name.name = true :=
    Site.initializes_iff.mpr hunready.mark
  rw [hzero] at hw hm
  rw [Renaming.reference_local hzero, hlabel]
  have hleft : (do
      Tracing.noteAssignment (siteOf ctx labels) name.name
      Tracing.quietly (Run.assign id name v) : Tracing Unit) w.left
        = .error (.failure (.unresolved name.name 0)) { w.left with early := true } := by
    have hassign : Run.assign id name v w.machine = .error (.unresolved name.name 0) w.machine := by
      simp only [Run.assign, Run.assignIn, hw, assigneeAt_of_climb (d := 0) (t := w.frame) rfl, hnot]
      rfl
    refine (Action.bind_of_ok rfl).trans ?_
    simp only [Tracing.quietly, hassign, hinit, Bool.or_true]
  have hright : Run.assign id ⟨ρ.inScope (some label) name.name, name.line⟩ v' m
      = .error (.unresolved (ρ.inScope (some label) name.name) 0) m := by
    simp only [Run.assign, Run.assignIn, hm, hframe,
      assigneeAt_of_climb (d := 0) (t := w.frame) rfl, hnot']
    rfl
  unfold Runs
  rw [hleft, hright]
  let noted : World := { w with left := { w.left with early := true } }
  have hlater : Later none w noted :=
    .of_frames rfl rfl (Nat.le_refl _) (fun _ _ => rfl) (Nat.le_refl _) (fun _ _ h => h)
      fun _ _ => rfl
  have hlinked : Linked ρ ⟨w.labels, { w.left with early := true }, w.next, w.placed⟩ m :=
    { hsettled.linked with store := hs.later hlater rfl rfl }
  refine .error hlinked rfl rfl (.unresolved (Renaming.inScope_allows _ _)) ?_
  constructor
  · exact iff_of_true rfl ⟨_, _, rfl⟩
  · intro _
    exact ⟨_, hvisited, id, name, value, rfl, hinit⟩
  · intro a d heq
    cases heq
    rfl

/-- An assignment to a variable that is ready, or to a global one, on both sides. -/
theorem assign_ready_runs (hsettled : Settled ρ w m) (hhere : Here w ctx labels)
    (hcovers : Covers w K) (hrecorded : Recorded K ctx id name.name)
    (hready : ctx.mark? name.name ≠ some false) (hv : ValueLinked ρ w v v') :
    Runs ρ none w m (fun _ _ _ => True) (Tracing.quietly (Run.assign id name v))
      (Run.assign id ⟨ρ.reference ctx labels name.name, name.line⟩ v') := by
  have hs := hsettled.linked.store
  have hw : w.machine.distances.of? id = ctx.distance? name.name :=
    (hcovers.distances id hrecorded.known).trans hrecorded.distance
  have hm : m.distances.of? id = ctx.distance? name.name := by
    rw [hsettled.linked.distances]
    exact hw
  have hframe := hsettled.linked.frame
  cases hd : ctx.distance? name.name with
  | some d =>
    obtain ⟨f, label, hclimb, hlabel, hflabel, hbinds⟩ := hhere.binds_of_ready hd hready
    have hbinds' : m.store.binds f (ρ.inScope (some label) name.name) = true := by
      rw [hs.binds hflabel (fun l hl => by cases hl; exact hs.declared hflabel hbinds), hbinds]
    have hclimb' : m.store.climb d m.frame = .ok f := by rw [hs.climb, hframe, hclimb]
    rw [hd] at hw hm
    rw [Renaming.reference_local hd, hlabel]
    refine Runs.ok (a := ()) (b := ()) ?_ ?_ (Reached.define_bound hsettled hflabel hbinds hv) trivial
    · simp only [Tracing.quietly, Run.assign, Run.assignIn, hw, assigneeAt_of_climb hclimb, hbinds,
        if_true]
      rfl
    · simp only [Run.assign, Run.assignIn, hm, assigneeAt_of_climb hclimb', hbinds', if_true]
  | none =>
    rw [hd] at hw hm
    rw [Renaming.reference_global hd]
    obtain ⟨hbinder, hbinder'⟩ := hs.binder?_globals name.name
    cases hbinds : w.store.binds globals name.name with
    | true =>
      rw [hbinds] at hbinder hbinder'
      have hreached := Reached.define_bound hsettled hs.global hbinds hv
      refine Runs.ok (a := ()) (b := ()) ?_ ?_ hreached trivial
      · simp only [Tracing.quietly, Run.assign, Run.assignIn, hw, Store.assignee, hbinder, if_true]
        rfl
      · simp only [Run.assign, Run.assignIn, hm, Store.assignee, hbinder', if_true]
        rfl
    | false =>
      rw [hbinds] at hbinder hbinder'
      refine Runs.error hsettled (e := .undefinedVariable name.name name.line) (by simp) ?_ ?_
      · simp only [Tracing.quietly, Run.assign, Run.assignIn, hw, Store.assignee, hbinder]
        rfl
      · simp only [Run.assign, Run.assignIn, hm, Store.assignee, hbinder']
        rfl

/-- An assignment, on both sides. -/
theorem assign_runs {value : Expr} {k : Machine} (hsettled : Settled ρ w m)
    (hhere : Here w ctx labels) (hcovers : Covers w K) (hrecorded : Recorded K ctx id name.name)
    (hmark : ctx.mark? name.name = some false → Unready ctx labels name.name)
    (hvisited : ⟨siteOf ctx labels, .assign id name value, k⟩ ∈ w.left.visits)
    (hv : ValueLinked ρ w v v') :
    Runs ρ none w m (fun _ _ _ => True)
      (do
        Tracing.noteAssignment (siteOf ctx labels) name.name
        Tracing.quietly (Run.assign id name v))
      (Run.assign id ⟨ρ.reference ctx labels name.name, name.line⟩ v') := by
  by_cases hfalse : ctx.mark? name.name = some false
  · exact assign_early_runs hsettled hhere hcovers hrecorded (hmark hfalse) hvisited
  · have hcalm : (siteOf ctx labels).initializes name.name = false := by
      refine Bool.eq_false_iff.mpr fun hinit => ?_
      obtain ⟨scope, hhead, hlookup⟩ := Site.initializes_iff.mp hinit
      obtain ⟨outer, hscopes⟩ := List.head?_eq_some_iff.mp hhead
      exact hfalse (Context.mark?_of_head hscopes hlookup)
    have hnoted : Tracing.noteAssignment (siteOf ctx labels) name.name w.left = .ok () w.left :=
      congrArg (Outcome.ok ()) (noteAssignment_calm hcalm)
    have hready := assign_ready_runs hsettled hhere hcovers hrecorded hfalse hv
    unfold Runs at hready ⊢
    rwa [Action.bind_of_ok hnoted]

end

end LoxLang
