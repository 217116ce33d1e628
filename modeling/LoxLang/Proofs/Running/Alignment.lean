import Mathlib
import LoxLang.Proofs.Running.Sessions

/-!
# Frames and scopes

What holds at every expression that is entered, in every run of every session.

* `ResolvedAt`: the expression is one of an accepted program, and was resolved in this context;
* `frames_follow_scopes`: the frames are those of the scopes in which the expression was resolved;
* `unresolved_iff_assigned_early`: references with a distance find their variables, but for
  assignments in the initializer of the variable itself.
-/

namespace LoxLang

namespace TracedSession

/-- The expression is one of a program that was accepted in the session. The resolver has resolved
it in the context of the site, and what it found is among the distances of the program. -/
def ResolvedAt (s : TracedSession) (site : Site) (e : Expr) : Prop :=
  ∃ source nextId checked next,
    ⟨.run source, nextId⟩ ∈ s.history ∧ checkSource source nextId = (.ok checked, next) ∧
      (site, e) ∈ checked.program.placed ∧ ResolvedIn site.context checked.distances e

/-- The expression is part of one that was evaluated in the session by itself. -/
def EvaluatedAt (s : TracedSession) (site : Site) (e : Expr) : Prop :=
  ∃ source nextId whole next,
    ⟨.evaluate source, nextId⟩ ∈ s.history ∧
      parseExpressionSource source nextId = (.ok whole, next) ∧ site = .top ∧ e ∈ whole.parts

theorem Placed.cases {s : TracedSession} {site : Site} {e : Expr} (h : s.Placed site e) :
    s.ResolvedAt site e ∨ s.EvaluatedAt site e := by
  obtain ⟨⟨request, nextId⟩, hmem, hplaced⟩ := h
  cases request with
  | run source =>
    left
    unfold Issued.placed at hplaced
    cases hcheck : checkSource source nextId with
    | mk answer next =>
      cases answer with
      | error problems =>
        simp only [hcheck] at hplaced
        cases hplaced
      | ok checked =>
        simp only [hcheck] at hplaced
        obtain ⟨-, hresolve⟩ := checkSource_eq_ok hcheck
        exact ⟨source, nextId, checked, next, hmem, hcheck, hplaced,
          resolve_placed hresolve _ hplaced⟩
  | evaluate source =>
    right
    unfold Issued.placed at hplaced
    cases hparse : parseExpressionSource source nextId with
    | mk answer next =>
      cases answer with
      | error problems =>
        simp only [hparse] at hplaced
        cases hplaced
      | ok whole =>
        simp only [hparse] at hplaced
        obtain ⟨part, hpart, heq⟩ := List.mem_map.mp hplaced
        cases heq
        exact ⟨source, nextId, whole, next, hmem, hparse, rfl, hpart⟩

end TracedSession

section
variable {maxDepth : Nat} {output : Output} {host : Host} {s : Session}

/-- **Frames follow scopes.** Whatever a session has run before, and whether a request ends or not:
at each expression that is entered the frames from the current one outwards are those of the scopes
around the expression where it was resolved. Each binds the names that are ready in its scope, and
only names that are declared there. -/
theorem frames_follow_scopes (h : Session.Reachable maxDepth output host s) :
    ∃ t, TracedSession.Reachable maxDepth output host t ∧ t.session = s ∧
      ∀ fuel request,
        (t.turn fuel request).answer?.map (·, (t.turn fuel request).after.session)
            = s.answer fuel request ∧
          ∀ v ∈ (t.turn fuel request).visits, v.Aligned ∧
            ((t.turn fuel request).after.ResolvedAt v.site v.expr ∨
              (t.turn fuel request).after.EvaluatedAt v.site v.expr) := by
  obtain ⟨t, ht, rfl⟩ := h.traced
  refine ⟨t, ht, rfl, fun fuel request => ⟨t.turn_erases fuel request, fun v hv => ?_⟩⟩
  have hends := TracedSession.turn_ends (ht.sound (ρ := ⟨"", ""⟩)) fuel request
  have hsound := hends.visits v hv
  exact ⟨hsound.aligned, hsound.placed.cases⟩

/-- A method on a new object, in a new session. -/
theorem method_frames_follow_scopes :
    Session.Reachable 8 .unlimited .nominal (.initial 8 .unlimited .nominal) ∧
      ∃ t : TracedSession, t.session = .initial 8 .unlimited .nominal ∧
        ∀ v ∈ (t.turn 60 (.run "class A \x7b m(x) \x7b return this; \x7d \x7d A().m(nil);")).visits,
          v.Aligned := by
  refine ⟨.initial, ?_⟩
  have hinitial : Session.Reachable 8 .unlimited .nominal (.initial 8 .unlimited .nominal) :=
    .initial
  obtain ⟨t, -, hsession, hturn⟩ := frames_follow_scopes hinitial
  exact ⟨t, hsession, fun v hv => ((hturn 60 _).2 v hv).1⟩

/-- **References find their variables.** At each expression that is entered a reference with a
distance finds a frame there, which binds the name unless the reference is an assignment in the
initializer of that local variable. A request fails for a distance just when such an assignment
takes place. -/
theorem unresolved_iff_assigned_early (h : Session.Reachable maxDepth output host s) :
    ∃ t, TracedSession.Reachable maxDepth output host t ∧ t.session = s ∧
      ∀ fuel request,
        (t.turn fuel request).answer?.map (·, (t.turn fuel request).after.session)
            = s.answer fuel request ∧
          (∀ v ∈ (t.turn fuel request).visits, v.Refers) ∧
          ((∃ a d, (s.answer fuel request).map (·.1)
              = some (.error [.runtime (.unresolved a d)])) ↔
            (t.turn fuel request).after.traced.early = true) ∧
          ((t.turn fuel request).after.traced.early = true →
            ∃ v ∈ (t.turn fuel request).visits, v.AssignsEarly ∧
              (t.turn fuel request).after.ResolvedAt v.site v.expr) := by
  obtain ⟨t, ht, rfl⟩ := h.traced
  refine ⟨t, ht, rfl, fun fuel request => ?_⟩
  have hends := TracedSession.turn_ends (ht.sound (ρ := ⟨"", ""⟩)) fuel request
  have herases := t.turn_erases fuel request
  refine ⟨herases, fun v hv => (hends.visits v hv).refers, ?_, fun hearly => ?_⟩
  · rw [← herases, ← hends.early, Option.map_map]
    have hfirst : (fun r : Except (List Problem) (Option Value) × Session => r.1) ∘
        (·, (t.turn fuel request).after.session) = id := rfl
    rw [hfirst, Option.map_id, id]
  · obtain ⟨v, hv, hassigns⟩ := hends.assigned hearly
    refine ⟨v, hv, hassigns, ?_⟩
    obtain hresolved | ⟨_, _, _, _, -, -, hsite, -⟩ := (hends.visits v hv).placed.cases
    · exact hresolved
    · obtain ⟨_, _, _, _, hinit⟩ := hassigns
      rw [hsite] at hinit
      cases hinit

/-- A program that is accepted and assigns a variable in its initializer. -/
theorem early_assignment_unresolved :
    ∃ t : TracedSession, t.session = .initial 8 .unlimited .nominal ∧
      (Session.answer 60 (.run "\x7b var a = (a = nil); \x7d") t.session).map (·.1)
          = some (.error [.runtime (.unresolved "a" 0)]) ∧
        ∃ v ∈ (t.turn 60 (.run "\x7b var a = (a = nil); \x7d")).visits, v.AssignsEarly := by
  have hinitial : Session.Reachable 8 .unlimited .nominal (.initial 8 .unlimited .nominal) :=
    .initial
  have hfails : (Session.answer 60 (.run "\x7b var a = (a = nil); \x7d")
      (.initial 8 .unlimited .nominal)).map (·.1)
        = some (.error [.runtime (.unresolved "a" 0)]) := by cbv
  obtain ⟨t, -, hsession, hturn⟩ := unresolved_iff_assigned_early hinitial
  obtain ⟨-, -, hiff, hassigned⟩ := hturn 60 (.run "\x7b var a = (a = nil); \x7d")
  obtain ⟨v, hv, hearly, -⟩ := hassigned (hiff.mp ⟨"a", 0, hfails⟩)
  refine ⟨t, hsession, ?_, v, hv, hearly⟩
  rw [hsession]
  exact hfails

end

end LoxLang
