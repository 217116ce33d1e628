import LoxLang.Proofs.Running.Lockstep
import LoxLang.Proofs.Running.TracedSession

/-!
# Programs in lockstep

* `Between`: two linked machines between two requests, back in the global scope;
* `Settles`: two runs that end alike, between requests again;
* `runProgram_runs`: linked programs with the same distances do so.
-/

namespace LoxLang

open Scoping (Context)

section
variable (ρ : Renaming)

/-- The machine on the right belongs to the world, nothing runs, and no node that is not given out
yet has a distance. -/
structure Between (w : World) (m : Machine) : Prop where
  linked : Linked ρ w m
  frame : w.frame = globals
  fresh : ∀ id, w.next ≤ id → w.machine.distances.of? id = none

/-- How a request ends on both sides. -/
inductive Settles {α β : Type} (next : NodeId) (placed : Site → Expr → Prop)
    (R : World → α → β → Prop) : Outcome Stop Traced α → Outcome RuntimeError Machine β → Prop
  | ok {w : World} {m : Machine} {a : α} {b : β} :
      Between ρ w m → w.next = next → w.placed = placed → w.left.early = false → R w a b →
      Settles next placed R (.ok a w.left) (.ok b m)
  | error {w : World} {m : Machine} {e e' : RuntimeError} :
      Between ρ w m → w.next = next → w.placed = placed → ErrorLinked ρ e e' →
      Blames w.left.early w.left.visits e →
      Settles next placed R (.error (.failure e) w.left) (.error e' m)
  | outOfFuel {t : Traced} :
      (∀ v ∈ t.visits, v.Sound placed) → t.early = false →
      Settles next placed R (.error .outOfFuel t) .outOfFuel

end

variable {ρ : Renaming} {α β : Type} {w : World} {m : Machine} {R : World → α → β → Prop}

/-- What is known in a world. -/
def World.known (w : World) : Findings := ⟨w.machine.distances.of?, w.next, w.placed⟩

theorem covers_known (w : World) : Covers w w.known where
  known := Nat.le_refl _
  distances _ _ := rfl
  placed _ _ h := h

theorem Between.here (h : Between ρ w m) : Here w .top [] where
  chain := by
    rw [h.frame]
    exact .globals
  exact _ hscope := nomatch hscope

/-- Two runs that end alike leave both machines between requests. -/
theorem EndsAlike.settles {o : Option FrameId} {x : Outcome Stop Traced α}
    {y : Outcome RuntimeError Machine β} (hw : Between ρ w m) (h : EndsAlike ρ o w R x y) :
    Settles ρ w.next w.placed R x y := by
  cases h with
  | ok hreached hR =>
    refine .ok ⟨hreached.linked, hreached.frame.trans hw.frame, fun id hid => ?_⟩ hreached.next
      hreached.placed hreached.settled.calm hR
    rw [hreached.distances]
    exact hw.fresh id (Nat.le_trans (Nat.le_of_eq hreached.next.symm) hid)
  | @error labels t m' _ _ hlinked hframe hdistances herror hearly =>
    have hbetween : Between ρ ⟨labels, t, w.next, w.placed⟩ m' := by
      refine ⟨hlinked, hframe.trans hw.frame, fun id hid => ?_⟩
      change t.machine.distances.of? id = none
      rw [hdistances]
      exact hw.fresh id hid
    exact .error hbetween rfl rfl herror hearly
  | outOfFuel hvisits hcalm => exact .outOfFuel hvisits hcalm

theorem runStatements_runs (fuel : Nat) {ctx : Context} {labels : List Label}
    {K : Findings} {ss ss' : List Stmt} (hsettled : Settled ρ w m)
    (hframe : w.frame = globals) (hhere : Here w ctx labels) (hcovers : Covers w K)
    (hss : StmtsLinked ρ K ctx labels ss ss') :
    Runs ρ (some w.frame) w m (fun _ _ _ => True)
      (Tracing.runStatements fuel (siteOf ctx labels) ss) (Running.runStatements fuel ss') := by
  induction ss generalizing w m ctx ss' with
  | nil =>
    cases hss
    exact .pure hsettled trivial
  | cons s rest ih =>
    cases hss with
    | cons hs hbehind hrest =>
      have hrun := execute_runs ρ fuel w m K ctx _ labels s _ hsettled hhere hcovers hs
      unfold Runs at hrun ⊢
      unfold Tracing.runStatements Running.runStatements
      generalize Tracing.execute fuel (siteOf ctx labels) s w.left = out at hrun
      generalize Running.execute fuel _ m = out' at hrun
      cases hrun with
      | ok hreached hR =>
        have hnext := ih hreached.settled (hreached.frame.trans hframe) hR.2
          (hcovers.later hreached.later) hrest
        rw [hreached.frame, ← hbehind] at hnext
        exact EndsAlike.earlier hnext hreached
      | error hlinked _ hdistances herror hearly =>
        have hreset := (hlinked.inFrame globals).withDepth 0
        exact .error hreset hframe.symm hdistances herror hearly
      | outOfFuel hvisits hcalm => exact .outOfFuel hvisits hcalm

/-- The world in which a further program is known. -/
def World.withProgram (w : World) (d : Distances) (next : NodeId) (placed : Site → Expr → Prop) :
    World :=
  { w.withMachine { w.machine with distances := w.machine.distances.extend d } with next, placed }

theorem Between.withProgram (h : Between ρ w m) {d : Distances} {next : NodeId}
    {placed : Site → Expr → Prop} (hnext : w.next ≤ next)
    (hd : ∀ id, id < w.next ∨ next ≤ id → d.of? id = none)
    (hplaced : ∀ site e, w.placed site e → placed site e) :
    Between ρ (w.withProgram d next placed) { m with distances := m.distances.extend d } := by
  have hlater : Later none w (w.withProgram d next placed) := by
    refine .of_frames rfl rfl (Nat.le_refl _) (fun _ _ => rfl) hnext hplaced fun id hid => ?_
    change (w.machine.distances.extend d).of? id = _
    rw [DistanceTable.of?_extend, hd id (.inl hid), Option.none_or]
  have hm := h.linked
  refine ⟨?_, h.frame, fun id hid => ?_⟩
  · exact { hm with
      store := hm.store.later hlater rfl rfl
      distances := congrArg (·.extend d) hm.distances
      visits := fun v hv => { hm.visits v hv with placed := hplaced _ _ (hm.visits v hv).placed } }
  · change (w.machine.distances.extend d).of? id = none
    rw [DistanceTable.of?_extend, hd id (.inr hid), Option.none_or]
    exact h.fresh id (Nat.le_trans hnext hid)

section
variable {next : NodeId} {placed : Site → Expr → Prop} (fuel : Nat)

/-- **Linked programs run alike**, on every fuel, and leave both machines between requests. -/
theorem runProgram_runs {p p' : Program} {d : Distances}
    (hw : Between ρ w m) (hcalm : w.left.early = false) (hnext : w.next ≤ next)
    (hd : ∀ id, id < w.next ∨ next ≤ id → d.of? id = none)
    (hplaced : ∀ site e, w.placed site e → placed site e)
    (hp : StmtsLinked ρ (w.withProgram d next placed).known .top [] p p') :
    Settles ρ next placed (fun _ _ _ => True) (Tracing.runProgram fuel p d w.left)
      (Running.runProgram fuel p' d m) := by
  have hw' := hw.withProgram hnext hd hplaced
  have hrun := runStatements_runs fuel ⟨hw'.linked, hcalm⟩ hw'.frame hw'.here (covers_known _) hp
  have hflush := hrun.bind fun w' m' _ _ hreached _ => flush_runs hreached.settled
  exact EndsAlike.settles hw' hflush

/-- An expression whose names are all looked up among the global variables. -/
theorem evaluateTop_runs {e e' : Expr} (hw : Between ρ w m) (hcalm : w.left.early = false)
    (hnext : w.next ≤ next) (hplaced : ∀ site e, w.placed site e → placed site e)
    (he : ExprLinked ρ (w.withProgram [] next placed).known .top [] e e') :
    Settles ρ next placed (ValueLinked ρ) (Tracing.evaluate fuel .top e w.left)
      (Running.evaluate fuel e' m) := by
  have hw' := hw.withProgram (d := []) hnext (fun _ _ => rfl) hplaced
  have hrun := evaluate_runs ρ fuel _ _ _ .top [] e e' ⟨hw'.linked, hcalm⟩ hw'.here
    (covers_known _) he
  exact EndsAlike.settles hw' hrun

end

end LoxLang
