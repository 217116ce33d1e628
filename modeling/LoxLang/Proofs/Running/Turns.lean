import Mathlib
import LoxLang.Proofs.Running.Conduct
import LoxLang.Proofs.Running.StagedSession

/-!
# What every turn keeps

* `runProgram_leads`: a program that is accepted runs on an upright machine, to another one;
* `StagedSession.Sound`: a session whose machine is upright for the programs of its history, and
  whose table is the one of its ledger;
* `StagedSession.turn_sound`: every turn keeps this, whether its run ends or not;
* `StagedSession.Reachable.sound`: so it holds of every reachable session.
-/

namespace LoxLang

variable {nodes nodes' : List (Spot × Node)} {aside aside' : List Expr} {t t' : Staged}

/-! ## More programs -/

theorem Closure.WrittenAt.mono {spot : Spot} {f : Closure} (h : f.WrittenAt nodes spot)
    (hsub : nodes ⊆ nodes') : f.WrittenAt nodes' spot := by
  obtain ⟨routine, hbody, hinit⟩ := h
  exact ⟨routine, List.Subset.trans hbody hsub, hinit⟩

theorem ClassHeld.mono {c : Class} (h : ClassHeld nodes t c) (hsub : nodes ⊆ nodes') :
    ClassHeld nodes' t c where
  stamp := h.stamp
  methods := by
    obtain ⟨decl, hdecl, hmethods⟩ := h.methods
    refine ⟨decl, hdecl, fun name f hf => ?_⟩
    obtain ⟨hstamp, hscene, spot, hwritten⟩ := hmethods name f hf
    exact ⟨hstamp, hscene, spot, hwritten.mono hsub⟩

theorem ValueHeld.mono {v : Value} (h : ValueHeld nodes t v) (hsub : nodes ⊆ nodes') :
    ValueHeld nodes' t v := by
  cases v with
  | function f =>
    obtain ⟨hstamp, spot, hwritten, hstands⟩ := h
    exact ⟨hstamp, spot, hwritten.mono hsub, hstands⟩
  | ofClass c => exact ClassHeld.mono h hsub
  | _ => exact h

/-- Before the next request runs. Its nodes are there too, and the record is empty. -/
theorem Upright.begin (h : Upright nodes aside t) (hsub : nodes ⊆ nodes')
    (hstore : t'.machine.store = t.machine.store) (hscenes : t'.scenes = t.scenes)
    (hrecord : t'.entrances = [] ∧ t'.endings = [])
    (hadmits : ∀ node ∈ nodes',
      node.1.Admits (fun id k => t'.machine.distances.of? id = some k) node.2) :
    Upright nodes' aside' t' := by
  have hgrows : Grows t t' := .sameStore hstore hscenes
  constructor
  · intro f name v hv
    rw [hstore] at hv
    exact ((h.locals f name v hv).later hgrows).mono hsub
  · intro o name v hv
    rw [hstore] at hv
    exact ((h.fields o name v hv).later hgrows).mono hsub
  · intro o c hc
    rw [hstore] at hc
    exact ((h.classes o c hc).later hgrows).mono hsub
  · exact hadmits
  · rw [hrecord.1]
    exact fun _ hv => nomatch hv
  · rw [hrecord.2]
    exact fun _ hending => nomatch hending

/-! ## Programs -/

/-- Outside of everything a statement can only complete normally. -/
theorem CompletesAt.eq_normal {c : Completion} (h : CompletesAt nodes .top c t) : c = .normal := by
  cases c with
  | normal => rfl
  | breaking => cases h.breaking rfl
  | returning v =>
    obtain ⟨-, routine, hroutine, -⟩ := h.returning v rfl
    cases hroutine

theorem runStatements_leads (fuel : Nat) (body : List Stmt) (h : Upright nodes aside t)
    (hframe : t.machine.frame = globals) (hbody : Stmt.allSpotted .top body ⊆ nodes) :
    Leads nodes aside t (Staging.runStatements fuel body) fun _ _ => True := by
  induction body generalizing t with
  | nil => exact .pure h trivial
  | cons s rest ih =>
    obtain ⟨hs, hrest⟩ := List.append_subset.mp hbody
    obtain ⟨-, hexecute, -⟩ := Staging.leads nodes aside fuel
    have hstatement : Leads nodes aside t (Staging.execute fuel .top s >>= fun completion =>
        Staging.conclude (.statement completion)) fun _ _ => True := by
      refine (hexecute t .top .top s h (.top t _) hs).bind fun c t₁ hreach hc => ?_
      have hcalm : (Ending.statement c).IsCalm := hc.eq_normal
      exact .ok rfl (.conclude hreach.upright hcalm) trivial
    unfold Leads at hstatement
    cases hrun : (Staging.execute fuel .top s >>= fun completion =>
        Staging.conclude (.statement completion)) t with
    | ok _ t₁ =>
      rw [hrun] at hstatement
      have hreach := hstatement.1
      have hthen : Staging.runStatements fuel (s :: rest) t = Staging.runStatements fuel rest t₁ := by
        simp only [Staging.runStatements, hrun]
      exact (ih hreach.upright (hreach.frame.trans hframe) hrest).behind hreach hthen
    | error e t₁ =>
      rw [hrun] at hstatement
      cases e with
      | outOfFuel =>
        have hstops : Staging.runStatements fuel (s :: rest) t = .error .outOfFuel t₁ := by
          simp only [Staging.runStatements, hrun]
        exact .error hstops hstatement
      | failure e =>
        have hgrows : Grows t₁ { t₁ with machine := t₁.machine.reset } := .sameStore rfl rfl
        have hfails : Staging.runStatements fuel (s :: rest) t
            = .error (.failure e) { t₁ with machine := t₁.machine.reset } := by
          simp only [Staging.runStatements, hrun]
        exact .error hfails ⟨hstatement.upright.sameStore hgrows ⟨rfl, rfl, rfl⟩ rfl,
          hstatement.grows.trans hgrows, hframe.symm, hstatement.distances⟩
    | outOfFuel =>
      rw [hrun] at hstatement
      exact hstatement.elim

theorem flush_leads (h : Upright nodes aside t) :
    Leads nodes aside t (Staging.quietly Run.flush) fun _ _ => True := by
  cases hrefusal : t.machine.output.flushRefusal? with
  | some reason =>
    have hrefused : Staging.quietly Run.flush t = .error (.failure (.output reason)) t := by
      simp only [Staging.quietly, Run.flush, hrefusal]
    exact .error hrefused (.refl h)
  | none =>
    have hdone : Staging.quietly Run.flush t = .ok () t := by
      simp only [Staging.quietly, Run.flush, hrefusal]
    exact .ok hdone (.refl h) trivial

/-- A program that runs on a machine which has the distances of its references. -/
theorem runProgram_leads (fuel : Nat) {p : Program} {d : Distances}
    (h : Upright nodes aside { t with machine := t.machine.extend d })
    (hframe : t.machine.frame = globals) (hp : p.spotted ⊆ nodes) :
    Leads nodes aside { t with machine := t.machine.extend d }
      (do Staging.runStatements fuel p; Staging.quietly Run.flush) fun _ _ => True :=
  (runStatements_leads fuel p h hframe hp).bind fun _ _ hreach _ => flush_leads hreach.upright

/-- An expression that is read by itself is ready when its parts stand aside. -/
theorem Ready.of_parse {source : String} {nextId next : NodeId} {e : Expr}
    (hparse : parseExpressionSource source nextId = (.ok e, next)) :
    Ready nodes e.parts t .top e := by
  intro part hpart
  refine ⟨fun hthis => ?_, fun _ _ _ => .inl hpart⟩
  have hname := parseExpressionSource_names hparse "this" (e.names_parts part hpart hthis)
  exact absurd hname (by decide)

/-! ## Sessions -/

/-- The parts of the expression that the request evaluates, if it is one to do so. -/
def Issued.evaluated (r : Issued) : List Expr :=
  match r.request with
  | .run _ => []
  | .evaluate source =>
    match (parseExpressionSource source r.nextId).1 with
    | .ok e => e.parts
    | .error _ => []

namespace StagedSession

/-- The nodes of all programs that were accepted. -/
def accepted (s : StagedSession) : List (Spot × Node) := s.history.flatMap Issued.spotted

/-- The parts of the expression that the last request has evaluated. -/
def evaluated (s : StagedSession) : List Expr := (s.history.head?.map Issued.evaluated).getD []

structure Sound (s : StagedSession) : Prop where
  ledger : Ledger s.history s.nextId s.staged.machine.distances
  upright : Upright s.accepted s.evaluated s.staged
  frame : s.staged.machine.frame = globals

theorem initial_sound (maxDepth : Nat) (output : Output) (host : Host) :
    (initial maxDepth output host).Sound where
  ledger := .empty
  upright := by
    constructor
    · intro f name v hv
      have hnew : (Store.empty.newFrame none [("clock", .native .clock)]).2.local? f name = some v :=
        hv
      obtain hclock | hnone := Store.local?_newFrame hnew
      · rw [Bindings.find?_cons] at hclock
        split at hclock
        · cases hclock
          rfl
        · cases hclock
      · simp [Store.local?, Store.frame, Store.empty] at hnone
    · intro o name v hv
      simp [initial, Machine.initial, Store.initial, Store.field?] at hv
    · intro o c hc
      simp [initial, Machine.initial, Store.initial, Store.class?] at hc
    · intro node hnode
      cases hnode
    · intro v hv
      cases hv
    · intro ending hending
      cases hending
  frame := rfl

/-- A run that starts on an upright machine leads to a sound session. -/
theorem perform_sound {s : StagedSession} {x y : Staging (Option Value)}
    (hy : Leads s.accepted s.evaluated t y fun _ _ => True) (hstart : x s.staged = y t)
    (hledger : Ledger s.history s.nextId t.machine.distances) (hframe : t.machine.frame = globals) :
    (s.perform x).after.Sound := by
  have hsound : ∀ {t'}, Reaches s.accepted s.evaluated t t' → Sound { s with staged := t' } :=
    fun hreach => ⟨hreach.distances ▸ hledger, hreach.upright, hreach.frame.trans hframe⟩
  unfold Leads at hy
  unfold perform
  rw [hstart]
  cases hrun : y t with
  | ok a t' =>
    rw [hrun] at hy
    exact hsound hy.1
  | error e t' =>
    rw [hrun] at hy
    cases e <;> exact hsound hy
  | outOfFuel =>
    rw [hrun] at hy
    exact hy.elim

/-- Every turn enters its request into the history. -/
theorem turn_history (fuel : Nat) (request : Request) (s : StagedSession) :
    (s.turn fuel request).after.history = ⟨request, s.nextId⟩ :: s.history := by
  have hperform : ∀ (s : StagedSession) x, (s.perform x).after.history = s.history := by
    intro s x
    unfold perform
    split <;> rfl
  unfold turn
  split <;> split
  · rfl
  · exact hperform _ _
  · rfl
  · exact hperform _ _

/-- With the distances of the request the machine is upright before it runs. -/
theorem facing_upright {s : StagedSession} (hs : s.Sound) (request : Request) :
    Upright (s.facing request).accepted (s.facing request).evaluated
      { (s.facing request).staged with
        machine := s.staged.machine.extend (Issued.mk request s.nextId).recorded } :=
  hs.upright.begin (List.subset_append_right _ _) rfl rfl ⟨rfl, rfl⟩
    (hs.ledger.record rfl : Ledger (⟨request, s.nextId⟩ :: s.history) _ _).admits

/-- A request whose source has a fault, or an expression, brings no distances. -/
theorem facing_sound {s : StagedSession} (hs : s.Sound) {request : Request}
    (hrecorded : (Issued.mk request s.nextId).recorded = []) : (s.facing request).Sound where
  ledger := by
    have hledger : Ledger (⟨request, s.nextId⟩ :: s.history) _ _ := hs.ledger.record rfl
    rw [hrecorded] at hledger
    exact hledger
  upright := by
    have hupright := facing_upright hs request
    rw [hrecorded] at hupright
    exact hupright
  frame := hs.frame

/-- **Every turn leaves a sound session**, whether its run ends or not. -/
theorem turn_sound {s : StagedSession} (hs : s.Sound) (fuel : Nat) (request : Request) :
    (s.turn fuel request).after.Sound := by
  have hledger : Ledger (⟨request, s.nextId⟩ :: s.history) _ _ := hs.ledger.record rfl
  have hupright := facing_upright hs request
  cases request with
  | run source =>
    cases hcheck : checkSource source s.nextId with
    | mk answer next =>
      cases answer with
      | error problems =>
        have hrecorded : (Issued.mk (.run source) s.nextId).recorded = [] := by
          simp only [Issued.recorded, hcheck]
        simp only [turn, hcheck]
        exact facing_sound hs hrecorded
      | ok checked =>
        have hrecorded : (Issued.mk (.run source) s.nextId).recorded = checked.distances := by
          simp only [Issued.recorded, hcheck]
        have hspotted : (Issued.mk (.run source) s.nextId).spotted = checked.program.spotted := by
          simp only [Issued.spotted, hcheck]
        rw [hrecorded] at hledger hupright
        have hp : checked.program.spotted ⊆ (s.facing (.run source)).accepted := by
          rw [← hspotted]
          exact List.subset_append_left _ _
        have hprogram := runProgram_leads (t := (s.facing (.run source)).staged) fuel hupright
          hs.frame hp
        have hruns := hprogram.bind fun _ _ hreach _ =>
          Leads.pure (a := (none : Option Value)) (Q := fun _ _ => True) hreach.upright trivial
        simp only [turn, hcheck]
        exact perform_sound hruns rfl hledger hs.frame
  | evaluate source =>
    have hsound : (s.facing (.evaluate source)).Sound := facing_sound hs rfl
    cases hparse : parseExpressionSource source s.nextId with
    | mk answer next =>
      cases answer with
      | error problems =>
        simp only [turn, hparse]
        exact hsound
      | ok e =>
        have hevaluated : (s.facing (.evaluate source)).evaluated = e.parts := by
          change (Issued.mk (.evaluate source) s.nextId).evaluated = e.parts
          simp only [Issued.evaluated, hparse]
        have hready : Ready (s.facing (.evaluate source)).accepted
            (s.facing (.evaluate source)).evaluated (s.facing (.evaluate source)).staged .top e := by
          rw [hevaluated]
          exact .of_parse hparse
        obtain ⟨hevaluate, -, -⟩ := Staging.leads (s.facing (.evaluate source)).accepted
          (s.facing (.evaluate source)).evaluated fuel
        have hruns := (hevaluate _ .top e hsound.upright hready).bind fun v _ hreach _ =>
          Leads.pure (a := some v) (Q := fun _ _ => True) hreach.upright trivial
        simp only [turn, hparse]
        exact perform_sound hruns rfl hsound.ledger hsound.frame

/-- **Every reachable session is sound.** -/
theorem Reachable.sound {maxDepth : Nat} {output : Output} {host : Host} {s : StagedSession}
    (h : Reachable maxDepth output host s) : s.Sound := by
  induction h with
  | initial => exact initial_sound maxDepth output host
  | turn _ _ ih => exact turn_sound ih _ _

end StagedSession

end LoxLang
