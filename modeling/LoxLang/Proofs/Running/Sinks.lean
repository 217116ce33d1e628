import LoxLang.Proofs.Running.Restoration

/-!
# Where the output goes

Running only adds to the text that was written. What is refused is the same before and after it, and
an output that refuses nothing takes every line that is printed.

* `SameSink`: two machines whose outputs refuse the same;
* `Session.follow_sink`: no step of a session changes what is refused;
* `Output.TakesAll`, `printLine_open`: an output that refuses nothing.
-/

namespace LoxLang

open Running

/-- The outputs refuse the same. -/
structure SameSink (m m' : Machine) : Prop where
  refusal? : m'.output.refusal? = m.output.refusal?
  flushRefusal? : m'.output.flushRefusal? = m.output.flushRefusal?

namespace SameSink

theorem refl (m : Machine) : SameSink m m := ⟨rfl, rfl⟩

theorem trans {m m' m'' : Machine} (h : SameSink m m') (h' : SameSink m' m'') : SameSink m m'' :=
  ⟨h'.refusal?.trans h.refusal?, h'.flushRefusal?.trans h.flushRefusal?⟩

end SameSink

/-- What is refused stays the same, however the run ends. -/
def KeepsSink {α : Type} (x : Run α) : Prop := ∀ m m', (x m).state? = some m' → SameSink m m'

namespace KeepsSink

variable {α β : Type} {x : Run α}

theorem ok (h : KeepsSink x) {m m' : Machine} {a : α} (hx : x m = .ok a m') : SameSink m m' :=
  h m m' (by rw [hx]; rfl)

theorem error (h : KeepsSink x) {m m' : Machine} {e : RuntimeError} (hx : x m = .error e m') :
    SameSink m m' :=
  h m m' (by rw [hx]; rfl)

theorem onStore (f : DistanceTable → FrameId → Store → Except RuntimeError (α × Store)) :
    KeepsSink (Run.onStore f) := by
  intro m m' h
  unfold Run.onStore at h
  split at h <;> cases h <;> exact ⟨rfl, rfl⟩

theorem write (text : String) : KeepsSink (Run.write text) := by
  intro m m' h
  unfold Run.write at h
  split at h
  · cases h
    exact .refl m
  · split at h <;> cases h <;> exact ⟨rfl, rfl⟩

theorem callNative (f : Native) (arguments : List Value) :
    KeepsSink (callNative f arguments) := by
  intro m m' h
  unfold Running.callNative at h
  split at h
  · cases h
    exact ⟨rfl, rfl⟩
  · split at h <;> cases h <;> exact .refl m

theorem bind {f : α → Run β} (hx : KeepsSink x) (hf : ∀ a, KeepsSink (f a)) :
    KeepsSink (x >>= f) := by
  intro m m' h
  cases hxm : x m with
  | ok a m₁ =>
    rw [Action.bind_of_ok hxm] at h
    exact (hx.ok hxm).trans (hf a m₁ m' h)
  | error e m₁ =>
    rw [Action.bind_of_error hxm] at h
    cases h
    exact hx.error hxm
  | outOfFuel =>
    rw [Action.bind_of_outOfFuel hxm] at h
    cases h

theorem inFrame (frame : FrameId) (hx : KeepsSink x) : KeepsSink (Run.inFrame frame x) := by
  intro m m' h
  rw [Run.inFrame_apply, Outcome.state?_mapState] at h
  obtain ⟨m₁, hm₁, rfl⟩ := Option.map_eq_some_iff.mp h
  have hsame := hx { m with frame } m₁ hm₁
  exact ⟨hsame.refusal?, hsame.flushRefusal?⟩

theorem ifRoom (line : Nat) (hx : KeepsSink x) : KeepsSink (Run.ifRoom line x) := by
  intro m m' h
  unfold Run.ifRoom at h
  split at h
  · cases h
    exact .refl m
  · rw [Run.oneDeeper_apply, Outcome.state?_mapState] at h
    obtain ⟨m₁, hm₁, rfl⟩ := Option.map_eq_some_iff.mp h
    have hsame := hx { m with depth := m.depth + 1 } m₁ hm₁
    exact ⟨hsame.refusal?, hsame.flushRefusal?⟩

end KeepsSink

theorem respects_keepsSink : Respects fun _ x _ => KeepsSink x where
  onStore := .onStore
  write := .write
  callNative := .callNative
  bind := .bind
  inFrame := .inFrame
  ifRoom := .ifRoom

theorem runs_keepSink (fuel : Nat) : Respects.Between (fun _ x _ => KeepsSink x) fuel fuel :=
  respects_keepsSink.runs_same (fun _ _ _ h => nomatch h) fuel

theorem evaluate_keepsSink (fuel : Nat) (e : Expr) : KeepsSink (evaluate fuel e) :=
  (runs_keepSink fuel).evaluate e

theorem execute_keepsSink (fuel : Nat) (s : Stmt) : KeepsSink (execute fuel s) :=
  (runs_keepSink fuel).execute s

theorem runStatements_keepsSink (fuel : Nat) (body : List Stmt) :
    KeepsSink (runStatements fuel body) := by
  induction body with
  | nil => exact .onStore fun _ _ s => .ok ((), s)
  | cons s rest ih =>
    intro m m' h
    unfold runStatements at h
    cases hs : execute fuel s m with
    | ok c m₁ =>
      rw [hs] at h
      exact ((execute_keepsSink fuel s).ok hs).trans (ih m₁ m' h)
    | error e m₁ =>
      rw [hs] at h
      cases h
      have hsame := (execute_keepsSink fuel s).error hs
      exact ⟨hsame.refusal?, hsame.flushRefusal?⟩
    | outOfFuel =>
      rw [hs] at h
      cases h

namespace Session

theorem Moved.sink {fuel : Nat} {s s' : Session} (h : Moved fuel s s') :
    SameSink s.machine s'.machine := by
  cases h with
  | refused hle => exact .refl _
  | @ran _ checked _ machine hcheck hstate =>
    rw [runProgram_apply, state?_runToEnd] at hstate
    have hsame := runStatements_keepsSink _ _ _ _ hstate
    exact ⟨hsame.refusal?, hsame.flushRefusal?⟩
  | evaluated hparse hstate => exact evaluate_keepsSink _ _ _ _ hstate
  | defined name value => exact ⟨rfl, rfl⟩
  | limited maxDepth => exact ⟨rfl, rfl⟩

theorem follow_sink {fuel : Nat} {steps : List Step} {s s' : Session}
    {replies : List (Option Reply)} (h : s.follow fuel steps = some (replies, s')) :
    SameSink s.machine s'.machine := by
  refine follow_induction (P := fun t => SameSink s.machine t.machine) (.refl _) ?_ h
  intro t t' ht hmoved
  exact ht.trans hmoved.sink

end Session

/-! ## Outputs that take everything -/

/-- Nothing is refused. -/
structure Output.TakesAll (o : Output) : Prop where
  write (text : String) : o.refusal? text = none
  flush : o.flushRefusal? = none

theorem Output.unlimited_takesAll : Output.unlimited.TakesAll := ⟨fun _ => rfl, rfl⟩

theorem SameSink.takesAll {m m' : Machine} (h : SameSink m m') (hm : m.output.TakesAll) :
    m'.output.TakesAll := by
  refine ⟨fun text => ?_, h.flushRefusal?.trans hm.flush⟩
  rw [h.refusal?]
  exact hm.write text

/-- The machine with more text written. -/
def Machine.adding (m : Machine) (text : String) : Machine :=
  { m with output := { m.output with written := m.output.written ++ text } }

theorem write_open {m : Machine} (h : m.output.TakesAll) (text : String) :
    Run.write text m = .ok () (m.adding text) := by
  unfold Run.write Machine.adding
  split
  · rename_i hempty
    rw [String.isEmpty_iff.mp hempty, String.append_empty]
  · rw [h.write]

/-- The display form of a value and a newline are written. -/
theorem printLine_open {m : Machine} (h : m.output.TakesAll) (value : Value) :
    Run.printLine value m = .ok () (m.adding (m.store.display value ++ "\n")) := by
  have hadded : (m.adding (m.store.display value)).output.TakesAll := ⟨h.write, h.flush⟩
  have hline : (m.adding (m.store.display value)).adding "\n"
      = m.adding (m.store.display value ++ "\n") := by
    simp only [Machine.adding, String.append_assoc]
  rw [← hline]
  exact (Action.bind_of_ok (write_open h _)).trans (write_open hadded _)

theorem flush_open {m : Machine} (h : m.output.TakesAll) : Run.flush m = .ok () m := by
  simp only [Run.flush, h.flush]

end LoxLang
