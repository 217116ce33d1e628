import Mathlib
import LoxLang.Proofs.Running.Fuel
import LoxLang.Proofs.Running.Restoration

/-!
# The limit on calls in progress

The limit is looked at only where a call begins, and a run that it stops has failed there. So a
higher limit lets a run go on, and changes nothing of a run that stayed below the lower one.

* `CutShort`: how a run ends under a limit, beside how it ends under a higher one;
* `Extends`: a run under the higher limit does the same as long as the lower one admits;
* `limit_only_cuts_short`: the same for a request to any session.
-/

namespace LoxLang

open Running

variable {α β : Type} {N M : Nat}

def Machine.withMaxDepth (m : Machine) (maxDepth : Nat) : Machine := { m with maxDepth }

/-- A run whose output starts with all that was written before, however it ends. -/
def Appends (x : Run α) : Prop :=
  ∀ m m', (x m).state? = some m' → WritesOn m m'

theorem Keeps.appends {x : Run α} (h : Keeps x) : Appends x := fun m m' hx => (h m m' hx).printed

/-- The second outcome is the first one with the limit `M`, unless the first is an overflow. Then
whatever the second leaves starts with what the first has written. -/
inductive CutShort (M : Nat) :
    Outcome RuntimeError Machine α → Outcome RuntimeError Machine α → Prop
  | ok {a : α} {m : Machine} : CutShort M (.ok a m) (.ok a (m.withMaxDepth M))
  | error {e : RuntimeError} {m : Machine} : CutShort M (.error e m) (.error e (m.withMaxDepth M))
  | overflow {line : Nat} {m : Machine} {y : Outcome RuntimeError Machine α} :
    (∀ m', y.state? = some m' → WritesOn m m') →
      CutShort M (.error (.stackOverflow line) m) y
  | outOfFuel {y : Outcome RuntimeError Machine α} : CutShort M .outOfFuel y

theorem CutShort.bind {x y : Run α} {f g : α → Run β} {m m' : Machine}
    (h : CutShort M (x m) (y m'))
    (hok : ∀ a m₁, x m = .ok a m₁ → CutShort M (f a m₁) (g a (m₁.withMaxDepth M)))
    (happends : ∀ a, Appends (g a)) : CutShort M ((x >>= f) m) ((y >>= g) m') := by
  generalize hxm : x m = out at h
  generalize hym : y m' = out' at h
  cases h with
  | @ok a m₁ =>
    rw [Action.bind_of_ok hxm, Action.bind_of_ok hym]
    exact hok a m₁ hxm
  | error =>
    rw [Action.bind_of_error hxm, Action.bind_of_error hym]
    exact .error
  | overflow hout =>
    rw [Action.bind_of_error hxm]
    refine .overflow fun m₂ hm₂ => ?_
    cases out' with
    | ok a m₁ =>
      rw [Action.bind_of_ok hym] at hm₂
      exact (hout m₁ rfl).trans (happends a m₁ m₂ hm₂)
    | error e m₁ =>
      rw [Action.bind_of_error hym] at hm₂
      exact hout m₂ hm₂
    | outOfFuel =>
      rw [Action.bind_of_outOfFuel hym] at hm₂
      cases hm₂
  | outOfFuel =>
    rw [Action.bind_of_outOfFuel hxm]
    exact .outOfFuel

/-- To be cut short does not depend on anything but the limit and what was written. -/
theorem CutShort.mapState {f : Machine → Machine} {x y : Outcome RuntimeError Machine α}
    (hwritten : ∀ m, (f m).output.written = m.output.written)
    (hlimit : ∀ m, f (m.withMaxDepth M) = (f m).withMaxDepth M) (h : CutShort M x y) :
    CutShort M (x.mapState f) (y.mapState f) := by
  cases h with
  | @ok a m =>
    change CutShort M (.ok a (f m)) (.ok a (f (m.withMaxDepth M)))
    rw [hlimit]
    exact .ok
  | @error e m =>
    change CutShort M (.error e (f m)) (.error e (f (m.withMaxDepth M)))
    rw [hlimit]
    exact .error
  | overflow hout =>
    refine .overflow fun m' hm' => ?_
    rw [Outcome.state?_mapState] at hm'
    obtain ⟨m₁, hm₁, rfl⟩ := Option.map_eq_some_iff.mp hm'
    unfold WritesOn
    rw [hwritten, hwritten]
    exact hout m₁ hm₁
  | outOfFuel => exact .outOfFuel

/-- The second run, under the limit `M`, does what the first does under `N`, unless that is cut
short. -/
structure Extends (N M : Nat) (x y : Run α) : Prop where
  keeps : Keeps x
  keeps' : Keeps y
  cut : ∀ m, m.maxDepth = N → CutShort M (x m) (y (m.withMaxDepth M))

namespace Extends

variable {x y : Run α}

theorem onStore (f : DistanceTable → FrameId → Store → Except RuntimeError (α × Store)) :
    Extends N M (Run.onStore f) (Run.onStore f) where
  keeps := .onStore f
  keeps' := .onStore f
  cut m _ := by
    unfold Run.onStore Machine.withMaxDepth
    dsimp only
    cases f m.distances m.frame m.store with
    | ok r => exact .ok
    | error e => exact .error

theorem outOfFuel : Extends N M (Action.outOfFuel : Run α) Action.outOfFuel :=
  ⟨.outOfFuel, .outOfFuel, fun _ _ => .outOfFuel⟩

theorem write (text : String) : Extends N M (Run.write text) (Run.write text) where
  keeps := .write text
  keeps' := .write text
  cut m _ := by
    unfold Run.write
    split
    · exact .ok
    · simp only [Machine.withMaxDepth]
      split
      · exact .error
      · exact .ok

theorem callNative (f : Native) (arguments : List Value) :
    Extends N M (callNative f arguments) (callNative f arguments) where
  keeps := .callNative f arguments
  keeps' := .callNative f arguments
  cut m _ := by
    unfold Running.callNative
    split
    · exact .ok
    · simp only [Machine.withMaxDepth]
      split
      · exact .ok
      · exact .error

theorem bind {f g : α → Run β} (hx : Extends N M x y) (hf : ∀ a, Extends N M (f a) (g a)) :
    Extends N M (x >>= f) (y >>= g) where
  keeps := hx.keeps.bind fun a => (hf a).keeps
  keeps' := hx.keeps'.bind fun a => (hf a).keeps'
  cut m hm := (hx.cut m hm).bind
    (fun a m₁ hxm => (hf a).cut m₁ ((hx.keeps.ok hxm).maxDepth.trans hm))
    fun a => (hf a).keeps'.appends

theorem inFrame (frame : FrameId) (h : Extends N M x y) :
    Extends N M (Run.inFrame frame x) (Run.inFrame frame y) where
  keeps := h.keeps.inFrame frame
  keeps' := h.keeps'.inFrame frame
  cut m hm := by
    rw [Run.inFrame_apply, Run.inFrame_apply]
    exact (h.cut { m with frame } hm).mapState (fun _ => rfl) fun _ => rfl

theorem oneDeeper (h : Extends N M x y) {m : Machine} (hm : m.maxDepth = N) :
    CutShort M (Run.oneDeeper x m) (Run.oneDeeper y (m.withMaxDepth M)) := by
  rw [Run.oneDeeper_apply, Run.oneDeeper_apply]
  exact (h.cut { m with depth := m.depth + 1 } hm).mapState (fun _ => rfl) fun _ => rfl

/-- A call for which there is no room below the lower limit is where the first run is cut short. -/
theorem ifRoom (hle : N ≤ M) (line : Nat) (h : Extends N M x y) :
    Extends N M (Run.ifRoom line x) (Run.ifRoom line y) where
  keeps := h.keeps.ifRoom line
  keeps' := h.keeps'.ifRoom line
  cut m hm := by
    by_cases hfull : m.maxDepth ≤ m.depth
    · have hx : Run.ifRoom line x m = .error (.stackOverflow line) m := if_pos hfull
      rw [hx]
      exact .overflow fun m' => (h.keeps'.ifRoom line).appends (m.withMaxDepth M) m'
    · have hroom : ¬ (m.withMaxDepth M).maxDepth ≤ (m.withMaxDepth M).depth := by
        change ¬ M ≤ m.depth
        omega
      have hx : Run.ifRoom line x m = Run.oneDeeper x m := if_neg hfull
      have hy : Run.ifRoom line y (m.withMaxDepth M) = Run.oneDeeper y (m.withMaxDepth M) :=
        if_neg hroom
      rw [hx, hy]
      exact h.oneDeeper hm

end Extends

theorem respects_extends (hle : N ≤ M) : Respects fun _ x y => Extends N M x y where
  onStore := .onStore
  write := .write
  callNative := .callNative
  bind := .bind
  inFrame := .inFrame
  ifRoom := .ifRoom hle

theorem runs_extend (hle : N ≤ M) (fuel : Nat) :
    Respects.Between (fun _ x y => Extends N M x y) fuel fuel :=
  (respects_extends hle).runs_same (fun _ => .outOfFuel) fuel

/-! ## Programs -/

theorem runStatements_appends (fuel : Nat) (body : List Stmt) :
    Appends (runStatements fuel body) := by
  induction body with
  | nil =>
    intro m m' h
    cases h
    exact .refl _
  | cons s rest ih =>
    intro m m' h
    unfold runStatements at h
    cases hs : execute fuel s m with
    | ok c m₁ =>
      rw [hs] at h
      exact ((execute_keeps fuel s).ok hs).printed.trans (ih m₁ m' h)
    | error e m₁ =>
      rw [hs] at h
      cases h
      exact ((execute_keeps fuel s).error hs).printed
    | outOfFuel =>
      rw [hs] at h
      cases h

theorem runStatements_cutShort (hle : N ≤ M) (fuel : Nat) (body : List Stmt) {m : Machine}
    (hm : m.maxDepth = N) :
    CutShort M (runStatements fuel body m) (runStatements fuel body (m.withMaxDepth M)) := by
  induction body generalizing m with
  | nil => exact .ok
  | cons s rest ih =>
    have hcut := ((runs_extend hle fuel).execute s).cut m hm
    have hkeeps := execute_keeps fuel s
    unfold runStatements
    generalize hs : execute fuel s m = out at hcut
    generalize execute fuel s (m.withMaxDepth M) = out' at hcut
    cases hcut with
    | ok => exact ih ((hkeeps.ok hs).maxDepth.trans hm)
    | error => exact .error
    | overflow hout =>
      refine .overflow fun m' hm' => ?_
      cases out' with
      | ok c m₁ => exact (hout m₁ rfl).trans (runStatements_appends fuel rest m₁ m' hm')
      | error e m₁ =>
        cases hm'
        exact hout m₁ rfl
      | outOfFuel => cases hm'
    | outOfFuel => exact .outOfFuel

theorem flush_cutShort (m : Machine) :
    CutShort M (Run.flush m) (Run.flush (m.withMaxDepth M)) := by
  unfold Run.flush
  simp only [Machine.withMaxDepth]
  split
  · exact .error
  · exact .ok

theorem runProgram_cutShort (hle : N ≤ M) (fuel : Nat) (p : Program) (d : Distances) {m : Machine}
    (hm : m.maxDepth = N) :
    CutShort M (runProgram fuel p d m) (runProgram fuel p d (m.withMaxDepth M)) := by
  have hstatements := runStatements_cutShort hle fuel p (m := m.extend d) hm
  exact hstatements.bind (fun _ m₁ _ => flush_cutShort m₁) fun _ => flush_keeps.appends

/-! ## Requests -/

/-- A reply that tells of an overflow. -/
def Reply.IsOverflow (reply : Reply) : Prop :=
  ∃ line, reply = .error [.runtime (.stackOverflow line)]

/-- What is answered under one limit, beside what is answered under another. -/
inductive AnsweredShort (M : Nat) :
    Option (Except (List Problem) α × Session) → Option (Except (List Problem) α × Session) → Prop
  | same {reply : Except (List Problem) α} {s : Session} :
    AnsweredShort M (some (reply, s)) (some (reply, s.withMaxDepth M))
  | overflow {line : Nat} {s : Session} {y : Option (Except (List Problem) α × Session)} :
    (∀ reply' s', y = some (reply', s') → WritesOn s.machine s'.machine) →
    AnsweredShort M (some (.error [.runtime (.stackOverflow line)], s)) y
  | outOfFuel {y : Option (Except (List Problem) α × Session)} : AnsweredShort M none y

namespace AnsweredShort

theorem map {f : Except (List Problem) α → Except (List Problem) β}
    {x y : Option (Except (List Problem) α × Session)}
    (hf : ∀ problems, f (.error problems) = .error problems) (h : AnsweredShort M x y) :
    AnsweredShort M (x.map fun r => (f r.1, r.2)) (y.map fun r => (f r.1, r.2)) := by
  cases h with
  | same => exact .same
  | overflow hy =>
    rw [Option.map_some, hf]
    refine .overflow fun reply' s' hs' => ?_
    obtain ⟨r, hr, heq⟩ := Option.map_eq_some_iff.mp hs'
    cases heq
    exact hy _ _ hr
  | outOfFuel => exact .outOfFuel

end AnsweredShort

namespace Session

theorem perform_short {x y : Run α} {s : Session}
    (h : CutShort M (x s.machine) (y (s.machine.withMaxDepth M))) :
    AnsweredShort M (s.perform x) ((s.withMaxDepth M).perform y) := by
  have h : CutShort M (x s.machine) (y (s.withMaxDepth M).machine) := h
  unfold perform
  generalize x s.machine = out at h
  generalize y (s.withMaxDepth M).machine = out' at h
  cases h with
  | ok => exact .same
  | error => exact .same
  | overflow hout =>
    refine .overflow fun reply' s' hs' => ?_
    cases out' with
    | outOfFuel => cases hs'
    | _ =>
      cases hs'
      exact hout _ rfl
  | outOfFuel => exact .outOfFuel

theorem run_short (hle : N ≤ M) (fuel : Nat) (source : String) {s : Session}
    (hs : s.machine.maxDepth = N) :
    AnsweredShort M (s.run fuel source) ((s.withMaxDepth M).run fuel source) := by
  unfold run
  rw [show (s.withMaxDepth M).nextId = s.nextId from rfl]
  cases checkSource source s.nextId with
  | mk result nextId =>
    cases result with
    | error problems => exact .same
    | ok checked =>
      exact perform_short (s := { s with nextId }) (runProgram_cutShort hle fuel _ _ hs)

theorem evaluate_short (hle : N ≤ M) (fuel : Nat) (source : String) {s : Session}
    (hs : s.machine.maxDepth = N) :
    AnsweredShort M (s.evaluate fuel source) ((s.withMaxDepth M).evaluate fuel source) := by
  unfold evaluate
  rw [show (s.withMaxDepth M).nextId = s.nextId from rfl]
  cases parseExpressionSource source s.nextId with
  | mk result nextId =>
    cases result with
    | error problems => exact .same
    | ok e =>
      exact perform_short (s := { s with nextId }) (((runs_extend hle fuel).evaluate e).cut _ hs)

theorem answer_short (hle : N ≤ M) (fuel : Nat) (request : Request) {s : Session}
    (hs : s.machine.maxDepth = N) :
    AnsweredShort M (s.answer fuel request) ((s.withMaxDepth M).answer fuel request) := by
  cases request with
  | run source => exact (run_short hle fuel source hs).map fun _ => rfl
  | evaluate source => exact (evaluate_short hle fuel source hs).map fun _ => rfl

end Session

/-- **The limit only cuts runs short.** A request that is answered under a limit without an overflow
is answered in the same way, with the same output and the same session behind it, under every
higher limit. A request that overflows has by then written the first part of what it writes under a
higher limit, if it ends there. -/
theorem limit_only_cuts_short (hle : N ≤ M) {s s₁ : Session} {request : Request} {fuel : Nat}
    {reply : Reply} (h : (s.withMaxDepth N).answer fuel request = some (reply, s₁)) :
    (¬ reply.IsOverflow → ∀ fuel', fuel ≤ fuel' →
      (s.withMaxDepth M).answer fuel' request = some (reply, s₁.withMaxDepth M)) ∧
    (reply.IsOverflow → ∀ fuel' reply' s₂,
      (s.withMaxDepth M).answer fuel' request = some (reply', s₂) →
        ∃ more, s₂.machine.output.written = s₁.machine.output.written ++ more) := by
  constructor
  · intro hcalm fuel' hfuel
    have hshort := Session.answer_short hle fuel request (s := s.withMaxDepth N) rfl
    rw [h] at hshort
    generalize hM : ((s.withMaxDepth N).withMaxDepth M).answer fuel request = r at hshort
    cases hshort with
    | same => exact Session.answer_more hfuel hM
    | overflow => exact absurd ⟨_, rfl⟩ hcalm
  · rintro ⟨line, rfl⟩ fuel' reply' s₂ hM
    have hshort := Session.answer_short hle (max fuel fuel') request (s := s.withMaxDepth N) rfl
    rw [Session.answer_more (Nat.le_max_left ..) h] at hshort
    generalize hr : ((s.withMaxDepth N).withMaxDepth M).answer (max fuel fuel') request = r
      at hshort
    have hM' : ((s.withMaxDepth N).withMaxDepth M).answer (max fuel fuel') request
        = some (reply', s₂) := Session.answer_more (Nat.le_max_right ..) hM
    rw [hr] at hM'
    cases hshort with
    | same =>
      cases hM'
      exact ⟨"", by simp [Session.withMaxDepth]⟩
    | overflow hout => exact hout _ _ hM'

/-- A function that prints its argument and calls itself once: a call inside a call. -/
def nestedCalls : Request :=
  .run "fun f(x) \x7b print x; if (x) f(nil); \x7d\nf(true);"

theorem nestedCalls_cut_short :
    ∃ s₁ s₂, ((Session.initial 8 .unlimited .nominal).withMaxDepth 1).answer 60 nestedCalls
        = some (.error [.runtime (.stackOverflow 1)], s₁) ∧
      ((Session.initial 8 .unlimited .nominal).withMaxDepth 2).answer 60 nestedCalls
        = some (.ok none, s₂) ∧
      (∃ more, s₂.machine.output.written = s₁.machine.output.written ++ more) ∧
      ∀ fuel, 60 ≤ fuel →
        ((Session.initial 8 .unlimited .nominal).withMaxDepth 5).answer fuel nestedCalls
          = some (.ok none, s₂.withMaxDepth 5) := by
  have hfirst : (((Session.initial 8 .unlimited .nominal).withMaxDepth 1).answer 60
      nestedCalls).map (·.1) = some (.error [.runtime (.stackOverflow 1)]) := by cbv
  have hsecond : (((Session.initial 8 .unlimited .nominal).withMaxDepth 2).answer 60
      nestedCalls).map (·.1) = some (.ok none) := by cbv
  obtain ⟨⟨_, s₁⟩, h₁, rfl⟩ := Option.map_eq_some_iff.mp hfirst
  obtain ⟨⟨_, s₂⟩, h₂, rfl⟩ := Option.map_eq_some_iff.mp hsecond
  obtain ⟨-, hshort⟩ := limit_only_cuts_short (M := 2) (by decide) h₁
  obtain ⟨hsame, -⟩ := limit_only_cuts_short (M := 5) (by decide) h₂
  have hcalm : ¬ Reply.IsOverflow (.ok none) := by
    rintro ⟨line, h⟩
    cases h
  exact ⟨s₁, s₂, h₁, h₂, hshort ⟨1, rfl⟩ 60 _ s₂ h₂, hsame hcalm⟩

end LoxLang
