import LoxLang.Proofs.Approximation
import LoxLang.Proofs.Running.History
import LoxLang.Proofs.Running.Relations

/-!
# More fuel

A run that ends is the same on any more fuel. So an answer does not depend on the fuel on which it
was found.

* `Approximates`: a run that is the same as another one unless its fuel runs out;
* `evaluate_more`, `execute_more`, `runProgram_more`: running on less fuel approximates running on
  more;
* `Session.answer_more`, `Session.follow_more`: the same for requests and whole sessions.
-/

namespace LoxLang

open Running

variable {α β : Type} {fuel fuel' : Nat}

/-- The two runs are the same unless the first one's fuel runs out. -/
def Approximates (x y : Run α) : Prop := ∀ m, x m = .outOfFuel ∨ y m = x m

namespace Approximates

variable {x y : Run α}

theorem refl (x : Run α) : Approximates x x := fun _ => .inr rfl

theorem outOfFuel (x : Run α) : Approximates Action.outOfFuel x := fun _ => .inl rfl

theorem bind {f g : α → Run β} (hx : Approximates x y) (hf : ∀ a, Approximates (f a) (g a)) :
    Approximates (x >>= f) (y >>= g) := Action.Precedes.bind hx hf

theorem mapState {m : Machine} (f : Machine → Machine) (h : x m = .outOfFuel ∨ y m = x m) :
    (x m).mapState f = .outOfFuel ∨ (y m).mapState f = (x m).mapState f :=
  h.imp (congrArg (Outcome.mapState f)) (congrArg (Outcome.mapState f))

theorem inFrame (frame : FrameId) (h : Approximates x y) :
    Approximates (Run.inFrame frame x) (Run.inFrame frame y) := fun m => by
  rw [Run.inFrame_apply, Run.inFrame_apply]
  exact mapState _ (h { m with frame })

theorem oneDeeper (h : Approximates x y) : Approximates (Run.oneDeeper x) (Run.oneDeeper y) :=
  fun m => by
    rw [Run.oneDeeper_apply, Run.oneDeeper_apply]
    exact mapState _ (h { m with depth := m.depth + 1 })

theorem ifRoom (line : Nat) (h : Approximates x y) :
    Approximates (Run.ifRoom line x) (Run.ifRoom line y) := by
  intro m
  unfold Run.ifRoom
  split
  · exact .inr rfl
  · exact h.oneDeeper m

end Approximates

theorem respects_approximates : Respects fun _ x y => Approximates x y where
  onStore _ := .refl _
  write _ := .refl _
  callNative _ _ := .refl _
  bind := .bind
  inFrame := .inFrame
  ifRoom := .ifRoom

theorem runs_more (hle : fuel ≤ fuel') :
    Respects.Between (fun _ x y => Approximates x y) fuel fuel' :=
  respects_approximates.runs_more (fun _ => .outOfFuel) hle

theorem evaluate_more (hle : fuel ≤ fuel') (e : Expr) :
    Approximates (evaluate fuel e) (evaluate fuel' e) := (runs_more hle).evaluate e

theorem execute_more (hle : fuel ≤ fuel') (s : Stmt) :
    Approximates (execute fuel s) (execute fuel' s) := (runs_more hle).execute s

theorem runStatements_more (hle : fuel ≤ fuel') (body : List Stmt) :
    Approximates (runStatements fuel body) (runStatements fuel' body) := by
  induction body with
  | nil => exact .refl _
  | cons s rest ih =>
    intro m
    unfold runStatements
    obtain hnone | heq := execute_more hle s m
    · exact .inl (by rw [hnone])
    · rw [heq]
      cases execute fuel s m with
      | ok c m₁ => exact ih m₁
      | _ => exact .inr rfl

theorem runProgram_more (hle : fuel ≤ fuel') (p : Program) (d : Distances) :
    Approximates (runProgram fuel p d) (runProgram fuel' p d) :=
  (Approximates.refl _).bind fun _ => (runStatements_more hle p).bind fun _ => .refl _

namespace Session

theorem perform_more {x y : Run α} {s : Session} {r : Except (List Problem) α × Session}
    (hxy : Approximates x y) (h : s.perform x = some r) : s.perform y = some r := by
  obtain hnone | heq := hxy s.machine
  · simp only [perform, hnone] at h
    cases h
  · simpa only [perform, heq] using h

theorem run_more {source : String} {s : Session} {r : Except (List Problem) Unit × Session}
    (hle : fuel ≤ fuel') (h : s.run fuel source = some r) : s.run fuel' source = some r := by
  unfold run at h ⊢
  split at h
  · exact h
  · exact perform_more (runProgram_more hle _ _) h

theorem evaluate_more {source : String} {s : Session} {r : Except (List Problem) Value × Session}
    (hle : fuel ≤ fuel') (h : s.evaluate fuel source = some r) :
    s.evaluate fuel' source = some r := by
  unfold evaluate at h ⊢
  split at h
  · exact h
  · exact perform_more (LoxLang.evaluate_more hle _) h

theorem answer_more {request : Request} {s : Session} {r : Reply × Session} (hle : fuel ≤ fuel')
    (h : s.answer fuel request = some r) : s.answer fuel' request = some r := by
  cases request with
  | run source =>
    obtain ⟨r', hrun, rfl⟩ := Option.map_eq_some_iff.mp h
    exact Option.map_eq_some_iff.mpr ⟨r', run_more hle hrun, rfl⟩
  | evaluate source =>
    obtain ⟨r', hrun, rfl⟩ := Option.map_eq_some_iff.mp h
    exact Option.map_eq_some_iff.mpr ⟨r', evaluate_more hle hrun, rfl⟩

theorem step_more {step : Step} {s : Session} {r : Option Reply × Session} (hle : fuel ≤ fuel')
    (h : s.step fuel step = some r) : s.step fuel' step = some r := by
  cases step with
  | request request =>
    obtain ⟨r', hanswer, rfl⟩ := Option.map_eq_some_iff.mp h
    exact Option.map_eq_some_iff.mpr ⟨r', answer_more hle hanswer, rfl⟩
  | _ => exact h

/-- **More fuel changes no session** that has enough. -/
theorem follow_more {steps : List Step} {s s' : Session} {replies : List (Option Reply)}
    (hle : fuel ≤ fuel') (h : s.follow fuel steps = some (replies, s')) :
    s.follow fuel' steps = some (replies, s') := by
  induction steps generalizing s replies with
  | nil => exact h
  | cons first rest ih =>
    obtain ⟨reply, s₁, others, hfirst, hrest, heq⟩ := follow_cons_eq_some.mp h
    exact follow_cons_eq_some.mpr ⟨reply, s₁, others, step_more hle hfirst, ih hrest, heq⟩

end Session

end LoxLang
