import LoxLang.Proofs.Running.World

/-!
# Running in lockstep

* `Runs`: from a world on, a traced run on the left and a run on the right end alike, in a later
  world to which the machine on the right belongs;
* `Runs.bind`: two runs in a row;
* `Here`: the current frame and those around it are those of a context.
-/

namespace LoxLang

open Scoping (Context Scope)

section
variable (ρ : Renaming)

/-- Failures that are the same but for a name. -/
inductive ErrorLinked : RuntimeError → RuntimeError → Prop
  | same {e : RuntimeError} : (∀ a d, e ≠ .unresolved a d) → ErrorLinked e e
  | unresolved {a b : String} {d : Nat} :
      ρ.Allows a b → ErrorLinked (.unresolved a d) (.unresolved b d)

/-- The machine on the right belongs to the world, and nothing was assigned early. -/
structure Settled (w : World) (m : Machine) : Prop where
  linked : Linked ρ w m
  calm : w.left.early = false

/-- A settled world after some running in the same frame. -/
structure Reached (o : Option FrameId) (w w' : World) (m : Machine) : Prop where
  settled : Settled ρ w' m
  later : Later o w w'
  frame : w'.frame = w.frame
  distances : w'.machine.distances = w.machine.distances
  next : w'.next = w.next
  placed : w'.placed = w.placed
  visits : ∀ v ∈ w.left.visits, v ∈ w'.left.visits

/-- The failure is one of the distances just when a variable was assigned early, in the innermost
scope. The expression that did so was visited. -/
structure Blames (early : Bool) (visits : List Visit) (e : RuntimeError) : Prop where
  unresolved : early = true ↔ ∃ a d, e = .unresolved a d
  visited : early = true → ∃ v ∈ visits, v.AssignsEarly
  innermost : ∀ a d, e = .unresolved a d → d = 0

/-- How a traced run and a run end alike. -/
inductive EndsAlike {α β : Type} (o : Option FrameId) (w : World) (R : World → α → β → Prop) :
    Outcome Stop Traced α → Outcome RuntimeError Machine β → Prop
  | ok {w' : World} {a : α} {b : β} {m : Machine} :
      Reached ρ o w w' m → R w' a b → EndsAlike o w R (.ok a w'.left) (.ok b m)
  | error {labels : List (Option Label)} {t : Traced} {m : Machine} {e e' : RuntimeError} :
      Linked ρ ⟨labels, t, w.next, w.placed⟩ m → t.machine.frame = w.frame →
      t.machine.distances = w.machine.distances → ErrorLinked ρ e e' → Blames t.early t.visits e →
      EndsAlike o w R (.error (.failure e) t) (.error e' m)
  | outOfFuel {t : Traced} :
      (∀ v ∈ t.visits, v.Sound w.placed) → t.early = false →
      EndsAlike o w R (.error .outOfFuel t) .outOfFuel

/-- A traced run and a run end alike. -/
def Runs {α β : Type} (o : Option FrameId) (w : World) (m : Machine) (R : World → α → β → Prop)
    (x : Tracing α) (y : Run β) : Prop :=
  EndsAlike ρ o w R (x w.left) (y m)

end

variable {ρ : Renaming} {α β γ δ : Type} {o : Option FrameId} {w w' w'' : World}
  {m m' m'' : Machine} {R S : World → α → β → Prop}

namespace Reached

theorem refl (h : Settled ρ w m) : Reached ρ o w w m :=
  ⟨h, .refl o w, rfl, rfl, rfl, rfl, fun _ h => h⟩

theorem trans (h : Reached ρ o w w' m') (h' : Reached ρ o w' w'' m'') :
    Reached ρ o w w'' m'' where
  settled := h'.settled
  later := h.later.trans h'.later
  frame := h'.frame.trans h.frame
  distances := h'.distances.trans h.distances
  next := h'.next.trans h.next
  placed := h'.placed.trans h.placed
  visits v hv := h'.visits v (h.visits v hv)

theorem weaken (h : Reached ρ none w w' m) : Reached ρ o w w' m :=
  { h with later := h.later.weaken }

theorem linked (h : Reached ρ o w w' m) : Linked ρ w' m := h.settled.linked

end Reached

namespace EndsAlike

variable {x : Outcome Stop Traced α} {y : Outcome RuntimeError Machine β}

/-- Ending alike, seen from an earlier world. -/
theorem earlier (h : EndsAlike ρ o w' R x y) (hw : Reached ρ o w w' m') :
    EndsAlike ρ o w R x y := by
  cases h with
  | ok hreached hR => exact .ok (hw.trans hreached) hR
  | error hlinked hframe hdistances herror hearly =>
    rw [hw.next, hw.placed] at hlinked
    exact .error hlinked (hframe.trans hw.frame) (hdistances.trans hw.distances) herror hearly
  | outOfFuel hvisits hcalm =>
    rw [hw.placed] at hvisits
    exact .outOfFuel hvisits hcalm

theorem mono (h : EndsAlike ρ o w R x y)
    (hRS : ∀ w' m' a b, Reached ρ o w w' m' → R w' a b → S w' a b) : EndsAlike ρ o w S x y := by
  cases h with
  | ok hreached hR => exact .ok hreached (hRS _ _ _ _ hreached hR)
  | error hlinked hframe hdistances herror hearly =>
    exact .error hlinked hframe hdistances herror hearly
  | outOfFuel hvisits hcalm => exact .outOfFuel hvisits hcalm

theorem weaken (h : EndsAlike ρ none w R x y) : EndsAlike ρ o w R x y := by
  cases h with
  | ok hreached hR => exact .ok hreached.weaken hR
  | error hlinked hframe hdistances herror hearly =>
    exact .error hlinked hframe hdistances herror hearly
  | outOfFuel hvisits hcalm => exact .outOfFuel hvisits hcalm

/-- What is done behind two runs that end alike, whatever they started from. -/
theorem bind_of {o' : Option FrameId} {x : Tracing α} {y : Run β} {t : Traced}
    {f : α → Tracing γ} {g : β → Run δ} {S : World → γ → δ → Prop}
    (h : EndsAlike ρ o' w R (x t) (y m))
    (ho : ∀ w' m', Reached ρ o' w w' m' → Reached ρ o w w' m')
    (hf : ∀ w' m' a b, Reached ρ o' w w' m' → R w' a b → Runs ρ o w' m' S (f a) (g b)) :
    EndsAlike ρ o w S ((x >>= f) t) ((y >>= g) m) := by
  generalize hx : x t = out at h
  generalize hy : y m = out' at h
  cases h with
  | ok hreached hR =>
    rw [Action.bind_of_ok hx, Action.bind_of_ok hy]
    exact earlier (hf _ _ _ _ hreached hR) (ho _ _ hreached)
  | error hlinked hframe hdistances herror hearly =>
    rw [Action.bind_of_error hx, Action.bind_of_error hy]
    exact .error hlinked hframe hdistances herror hearly
  | outOfFuel hvisits hcalm =>
    rw [Action.bind_of_error hx, Action.bind_of_outOfFuel hy]
    exact .outOfFuel hvisits hcalm

theorem bind {x : Tracing α} {y : Run β} {t : Traced} {f : α → Tracing γ} {g : β → Run δ}
    {S : World → γ → δ → Prop} (h : EndsAlike ρ o w R (x t) (y m))
    (hf : ∀ w' m' a b, Reached ρ o w w' m' → R w' a b → Runs ρ o w' m' S (f a) (g b)) :
    EndsAlike ρ o w S ((x >>= f) t) ((y >>= g) m) :=
  h.bind_of (fun _ _ h => h) hf

end EndsAlike

namespace Runs

variable {x : Tracing α} {y : Run β}

theorem mono (h : Runs ρ o w m R x y)
    (hRS : ∀ w' m' a b, Reached ρ o w w' m' → R w' a b → S w' a b) : Runs ρ o w m S x y :=
  EndsAlike.mono h hRS

theorem weaken (h : Runs ρ none w m R x y) : Runs ρ o w m R x y := EndsAlike.weaken h

/-- Two runs in a row. -/
theorem bind {f : α → Tracing γ} {g : β → Run δ} {S : World → γ → δ → Prop}
    (h : Runs ρ o w m R x y)
    (hf : ∀ w' m' a b, Reached ρ o w w' m' → R w' a b → Runs ρ o w' m' S (f a) (g b)) :
    Runs ρ o w m S (x >>= f) (y >>= g) := EndsAlike.bind h hf

/-- A run that leaves the frames as they are, and then one that may add names to the current one. -/
theorem andThen {f : α → Tracing γ} {g : β → Run δ} {S : World → γ → δ → Prop}
    (h : Runs ρ none w m R x y)
    (hf : ∀ w' m' a b, Reached ρ none w w' m' → R w' a b →
      Runs ρ (some w'.frame) w' m' S (f a) (g b)) :
    Runs ρ (some w.frame) w m S (x >>= f) (y >>= g) := by
  refine EndsAlike.bind_of h (fun _ _ h => h.weaken) fun w' m' a b hreached hR => ?_
  rw [← hreached.frame]
  exact hf w' m' a b hreached hR

theorem ok {a : α} {b : β} (hx : x w.left = .ok a w'.left) (hy : y m = .ok b m')
    (hreached : Reached ρ o w w' m') (hR : R w' a b) : Runs ρ o w m R x y := by
  unfold Runs
  rw [hx, hy]
  exact .ok hreached hR

theorem pure {a : α} {b : β} (h : Settled ρ w m) (hR : R w a b) :
    Runs ρ o w m R (Pure.pure a) (Pure.pure b) :=
  ok rfl rfl (.refl h) hR

/-- A failure that is no fault of the distances. -/
theorem error {e : RuntimeError} (h : Settled ρ w m) (he : ∀ a d, e ≠ .unresolved a d)
    (hx : x w.left = .error (.failure e) w.left) (hy : y m = .error e m) :
    Runs ρ o w m R x y := by
  unfold Runs
  rw [hx, hy]
  have hlinked : Linked ρ ⟨w.labels, w.left, w.next, w.placed⟩ m := h.linked
  refine .error hlinked rfl rfl (.same he) ?_
  constructor
  · rw [h.calm]
    exact ⟨fun h => (nomatch h), fun ⟨a, d, h⟩ => absurd h (he a d)⟩
  · intro hearly
    exact absurd (h.calm.symm.trans hearly) (by simp)
  · exact fun a d heq => absurd heq (he a d)

theorem outOfFuel (h : Settled ρ w m) : Runs ρ o w m R Tracing.outOfFuel Action.outOfFuel :=
  EndsAlike.outOfFuel h.linked.visits h.calm

/-- A step that only adds to the record. -/
theorem record {f : Traced → Traced} (hreached : Reached ρ o w { w with left := f w.left } m)
    (h : Runs ρ o { w with left := f w.left } m R x y) :
    Runs ρ o w m R (Action.modify f >>= fun _ => x) y :=
  EndsAlike.earlier h hreached

/-- A look at the machine, on the left with its record. -/
theorem get {f : Traced → Tracing α} {g : Machine → Run β}
    (h : Runs ρ o w m R (f w.left) (g m)) : Runs ρ o w m R (Action.get >>= f) (Action.get >>= g) :=
  h

theorem look {f : Traced → Tracing α} (h : Runs ρ o w m R (f w.left) y) :
    Runs ρ o w m R (Action.get >>= f) y := h

end Runs

/-! ## Places -/

/-- The current frame and those around it are those of the context. The current one binds no name
that is not ready, if it is not the frame of the global variables. -/
structure Here (w : World) (ctx : Context) (labels : List Label) : Prop where
  chain : Chain w w.frame ctx.scopes labels
  exact : ∀ scope ∈ ctx.scopes.head?, ∀ name, w.store.binds w.frame name = true →
    scope.lookup name = some true

theorem Here.reached {ctx : Context} {labels : List Label} (h : Here w ctx labels)
    (hw : Reached ρ none w w' m) : Here w' ctx labels where
  chain := by
    rw [hw.frame]
    exact h.chain.later hw.later
  exact scope hscope name hbinds := by
    rw [hw.frame] at hbinds
    obtain ⟨outer, hscopes⟩ := List.head?_eq_some_iff.mp hscope
    have hlt := (hscopes ▸ h.chain).lt
    exact h.exact scope hscope name (hw.later.kept _ hlt (fun e => nomatch e) name hbinds)

end LoxLang
