import Mathlib
import LoxLang.Proofs.Running.History
import LoxLang.Proofs.Running.Relations

/-!
# What running leaves as it was

* `Kept`: what a machine keeps of an earlier one: frame, depth, limit, distances, host, and all
  that was printed;
* `Keeps`: a run after which the machine keeps this, however the run ends;
* `frame_and_depth_restored`: every run comes back to the frame and the number of calls in progress
  that it started with, and a session is in the global scope after each of its steps.
-/

namespace LoxLang

open Running

/-- What was written before stands at the start of what is written later. -/
def WritesOn (m m' : Machine) : Prop := ∃ more, m'.output.written = m.output.written ++ more

theorem WritesOn.refl (m : Machine) : WritesOn m m := ⟨"", by simp⟩

theorem WritesOn.trans {m m' m'' : Machine} (h : WritesOn m m') (h' : WritesOn m' m'') :
    WritesOn m m'' := by
  obtain ⟨first, hfirst⟩ := h
  obtain ⟨second, hsecond⟩ := h'
  exact ⟨first ++ second, by rw [hsecond, hfirst, String.append_assoc]⟩

/-- What a machine keeps of an earlier one. -/
structure Kept (m m' : Machine) : Prop where
  frame : m'.frame = m.frame
  depth : m'.depth = m.depth
  maxDepth : m'.maxDepth = m.maxDepth
  distances : m'.distances = m.distances
  host : m'.host = m.host
  flushRefusal? : m'.output.flushRefusal? = m.output.flushRefusal?
  printed : WritesOn m m'

namespace Kept

variable {m m' m'' : Machine}

theorem refl (m : Machine) : Kept m m := ⟨rfl, rfl, rfl, rfl, rfl, rfl, .refl m⟩

theorem trans (h : Kept m m') (h' : Kept m' m'') : Kept m m'' where
  frame := h'.frame.trans h.frame
  depth := h'.depth.trans h.depth
  maxDepth := h'.maxDepth.trans h.maxDepth
  distances := h'.distances.trans h.distances
  host := h'.host.trans h.host
  flushRefusal? := h'.flushRefusal?.trans h.flushRefusal?
  printed := h.printed.trans h'.printed

theorem inFrame {frame : FrameId} (h : Kept { m with frame } m') :
    Kept m { m' with frame := m.frame } :=
  ⟨rfl, h.depth, h.maxDepth, h.distances, h.host, h.flushRefusal?, h.printed⟩

theorem oneDeeper (h : Kept { m with depth := m.depth + 1 } m') :
    Kept m { m' with depth := m'.depth - 1 } := by
  have hdepth : m'.depth - 1 = m.depth := by rw [h.depth, Nat.add_sub_cancel]
  exact ⟨h.frame, hdepth, h.maxDepth, h.distances, h.host, h.flushRefusal?, h.printed⟩

end Kept

/-- However it ends, the machine keeps what it should. -/
def Keeps {α : Type} (x : Run α) : Prop := ∀ m m', (x m).state? = some m' → Kept m m'

namespace Keeps

variable {α β : Type} {x : Run α}

theorem ok (h : Keeps x) {m m' : Machine} {a : α} (hx : x m = .ok a m') : Kept m m' :=
  h m m' (by rw [hx]; rfl)

theorem error (h : Keeps x) {m m' : Machine} {e : RuntimeError} (hx : x m = .error e m') :
    Kept m m' :=
  h m m' (by rw [hx]; rfl)

theorem onStore (f : DistanceTable → FrameId → Store → Except RuntimeError (α × Store)) :
    Keeps (Run.onStore f) := by
  intro m m' h
  unfold Run.onStore at h
  split at h <;> cases h
  · exact ⟨rfl, rfl, rfl, rfl, rfl, rfl, .refl m⟩
  · exact .refl m

theorem outOfFuel : Keeps (Action.outOfFuel : Run α) := fun _ _ h => nomatch h

theorem write (text : String) : Keeps (Run.write text) := by
  intro m m' h
  unfold Run.write at h
  split at h
  · cases h
    exact .refl m
  · split at h <;> cases h
    · exact .refl m
    · exact ⟨rfl, rfl, rfl, rfl, rfl, rfl, text, rfl⟩

theorem callNative (f : Native) (arguments : List Value) : Keeps (callNative f arguments) := by
  intro m m' h
  unfold Running.callNative at h
  split at h
  · cases h
    exact ⟨rfl, rfl, rfl, rfl, rfl, rfl, .refl m⟩
  · split at h <;> cases h <;> exact .refl m

theorem bind {f : α → Run β} (hx : Keeps x) (hf : ∀ a, Keeps (f a)) : Keeps (x >>= f) := by
  intro m m' h
  cases hxm : x m with
  | ok a m₁ =>
    rw [Action.bind_of_ok hxm] at h
    exact (hx.ok hxm).trans (hf a m₁ m' h)
  | error e m₁ =>
    rw [Action.bind_of_error hxm] at h
    cases h
    exact hx.error hxm
  | outOfFuel =>
    rw [Action.bind_of_outOfFuel hxm] at h
    cases h

/-- The frame is set back, however the run in the other frame ends. -/
theorem inFrame (frame : FrameId) (hx : Keeps x) : Keeps (Run.inFrame frame x) := by
  intro m m' h
  rw [Run.inFrame_apply, Outcome.state?_mapState] at h
  obtain ⟨m₁, hm₁, rfl⟩ := Option.map_eq_some_iff.mp h
  exact (hx { m with frame } m₁ hm₁).inFrame

/-- The call is counted off, however it ends. -/
theorem oneDeeper (hx : Keeps x) : Keeps (Run.oneDeeper x) := by
  intro m m' h
  rw [Run.oneDeeper_apply, Outcome.state?_mapState] at h
  obtain ⟨m₁, hm₁, rfl⟩ := Option.map_eq_some_iff.mp h
  exact (hx { m with depth := m.depth + 1 } m₁ hm₁).oneDeeper

theorem ifRoom (line : Nat) (hx : Keeps x) : Keeps (Run.ifRoom line x) := by
  intro m m' h
  unfold Run.ifRoom at h
  split at h
  · cases h
    exact .refl m
  · exact hx.oneDeeper m m' h

end Keeps

/-- To keep what it should is a property that a run has if its pieces have it. -/
theorem respects_keeps : Respects fun _ x _ => Keeps x where
  onStore := .onStore
  write := .write
  callNative := .callNative
  bind := .bind
  inFrame := .inFrame
  ifRoom := .ifRoom

theorem runs_keep (fuel : Nat) : Respects.Between (fun _ x _ => Keeps x) fuel fuel :=
  respects_keeps.runs_same (fun _ => .outOfFuel) fuel

theorem evaluate_keeps (fuel : Nat) (e : Expr) : Keeps (evaluate fuel e) :=
  (runs_keep fuel).evaluate e

theorem execute_keeps (fuel : Nat) (s : Stmt) : Keeps (execute fuel s) := (runs_keep fuel).execute s

theorem inSequence_keeps (fuel : Nat) (body : List Stmt) : Keeps (inSequence (execute fuel) body) :=
  @Respects.inSequence _ respects_keeps _ (execute fuel) (execute_keeps fuel) body

theorem call_keeps (fuel : Nat) (callee : Value) (arguments : List Value) (line : Nat) :
    Keeps (call (execute fuel) callee arguments line) :=
  @Respects.call _ respects_keeps _ (execute fuel) (execute_keeps fuel) callee arguments line

/-! ## Between requests -/

/-- In the global scope, with no call in progress. -/
structure Machine.AtRest (m : Machine) : Prop where
  frame : m.frame = globals
  depth : m.depth = 0

theorem Kept.atRest {m m' : Machine} (h : Kept m m') (hm : m.AtRest) : m'.AtRest :=
  ⟨h.frame.trans hm.frame, h.depth.trans hm.depth⟩

/-- A machine at rest is not changed by bringing it back into the global scope. -/
theorem Machine.AtRest.reset {m : Machine} (h : m.AtRest) : m.reset = m := by
  change { m with frame := globals, depth := 0 } = m
  rw [← h.frame, ← h.depth]

theorem runStatements_kept (fuel : Nat) (body : List Stmt) {m m' : Machine} (hm : m.AtRest)
    (h : (runStatements fuel body m).state? = some m') : Kept m m' := by
  induction body generalizing m with
  | nil =>
    cases h
    exact .refl _
  | cons s rest ih =>
    unfold runStatements at h
    cases hs : execute fuel s m with
    | ok c m₁ =>
      have hkept := (execute_keeps fuel s).ok hs
      rw [hs] at h
      exact hkept.trans (ih (hkept.atRest hm) h)
    | error e m₁ =>
      have hkept := (execute_keeps fuel s).error hs
      rw [hs] at h
      cases h
      rw [(hkept.atRest hm).reset]
      exact hkept
    | outOfFuel =>
      rw [hs] at h
      cases h

theorem flush_keeps : Keeps Run.flush := by
  intro m m' h
  rw [state?_flush] at h
  cases h
  exact .refl m

/-- A program leaves a machine at rest that keeps what it should, but for the new distances. -/
theorem runProgram_kept {fuel : Nat} {p : Program} {d : Distances} {m m' : Machine}
    (hm : m.AtRest) (h : (runProgram fuel p d m).state? = some m') : Kept (m.extend d) m' := by
  have hextended : (m.extend d).AtRest := ⟨hm.frame, hm.depth⟩
  rw [runProgram_apply, state?_runToEnd] at h
  exact runStatements_kept fuel p hextended h

namespace Session

theorem Moved.atRest {fuel : Nat} {s s' : Session} (h : Moved fuel s s')
    (hs : s.machine.AtRest) : s'.machine.AtRest := by
  cases h with
  | refused hle => exact hs
  | ran hcheck hstate => exact (runProgram_kept hs hstate).atRest ⟨hs.frame, hs.depth⟩
  | evaluated hparse hstate => exact (evaluate_keeps _ _ _ _ hstate).atRest hs
  | defined name value => exact ⟨hs.frame, hs.depth⟩
  | limited maxDepth => exact ⟨hs.frame, hs.depth⟩

theorem follow_atRest {fuel : Nat} {steps : List Step} {s s' : Session}
    {replies : List (Option Reply)} (hs : s.machine.AtRest)
    (h : s.follow fuel steps = some (replies, s')) : s'.machine.AtRest :=
  follow_induction (P := (·.machine.AtRest)) hs (fun _ _ hs hmoved => hmoved.atRest hs) h

end Session

/-- A run that comes back to the frame and the number of calls in progress it started with, however
it ends. -/
def Restores {α : Type} (x : Run α) : Prop :=
  ∀ m m', (x m).state? = some m' → m'.frame = m.frame ∧ m'.depth = m.depth

theorem Keeps.restores {α : Type} {x : Run α} (h : Keeps x) : Restores x :=
  fun m m' hx => ⟨(h m m' hx).frame, (h m m' hx).depth⟩

/-- **Every way out restores the frame and the depth.** On any machine, an expression, a statement,
statements in a frame of their own and a call leave the current frame and the number of calls in
progress as they were, whether they end with a value, a completion or a failure. So a session is in
the global scope with no call in progress whenever a step has ended, failed or not. -/
theorem frame_and_depth_restored (fuel : Nat) :
    (∀ e, Restores (evaluate fuel e)) ∧ (∀ s, Restores (execute fuel s)) ∧
      (∀ body, Restores (inSequence (execute fuel) body)) ∧
      (∀ frame body, Restores (Run.inFrame frame (inSequence (execute fuel) body))) ∧
      (∀ callee arguments line, Restores (call (execute fuel) callee arguments line)) ∧
      ∀ maxDepth output host steps replies s,
        (Session.initial maxDepth output host).follow fuel steps = some (replies, s) →
          s.machine.frame = globals ∧ s.machine.depth = 0 := by
  refine ⟨fun e => (evaluate_keeps fuel e).restores, fun s => (execute_keeps fuel s).restores,
    fun body => (inSequence_keeps fuel body).restores,
    fun frame body => ((inSequence_keeps fuel body).inFrame frame).restores,
    fun callee arguments line => (call_keeps fuel callee arguments line).restores, ?_⟩
  intro maxDepth output host steps replies s h
  have hinitial : (Session.initial maxDepth output host).machine.AtRest := ⟨rfl, rfl⟩
  have hs := Session.follow_atRest hinitial h
  exact ⟨hs.frame, hs.depth⟩

/-- A program that fails in a block of an initializer, and an expression that fails in a method. -/
def failingSteps : List Step :=
  [.request (.run ("class A \x7b init() \x7b \x7b var f = clock; f(f); \x7d \x7d \x7d\n" ++
    "class B \x7b m() \x7b return -this; \x7d \x7d\n" ++ "A();")),
   .request (.evaluate "B().m()")]

theorem failingSteps_restored :
    ∃ s, (Session.initial 8 .unlimited .nominal).follow 60 failingSteps
        = some ([some (.error [.runtime (.arityMismatch 0 1 1)]),
            some (.error [.runtime (.operandMustBeNumber 2)])], s) ∧
      s.machine.frame = globals ∧ s.machine.depth = 0 := by
  have hreplies : ((Session.initial 8 .unlimited .nominal).follow 60 failingSteps).map (·.1)
      = some [some (.error [.runtime (.arityMismatch 0 1 1)]),
          some (.error [.runtime (.operandMustBeNumber 2)])] := by cbv
  obtain ⟨⟨_, s⟩, hfollow, rfl⟩ := Option.map_eq_some_iff.mp hreplies
  obtain ⟨-, -, -, -, -, hsessions⟩ := frame_and_depth_restored 60
  exact ⟨s, hfollow, hsessions 8 .unlimited .nominal _ _ s hfollow⟩

end LoxLang
