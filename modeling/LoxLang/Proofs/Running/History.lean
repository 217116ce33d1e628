import LoxLang.Proofs.Parsing.Identities
import LoxLang.Proofs.Running.Relations
import LoxLang.Proofs.Running.TracedSession

/-!
# What happens to a session

* `HostValue`: a value that a host can make by itself;
* `Step`: a request, or a change that the host makes between requests;
* `Session.follow`: a session step by step, with the replies to its requests;
* `Session.Moved`, `step_moved`: all that a step can do to a session;
* `follow_induction`: what every step keeps holds after any steps.
-/

namespace LoxLang

abbrev Reply : Type := Except (List Problem) (Option Value)

/-- A value with no code of a program in it, and none of its objects. -/
def Value.IsCodeless : Value → Prop
  | .function _ | .ofClass _ | .object _ => False
  | _ => True

/-- A value that a host can make by itself, such as one of its functions. -/
structure HostValue where
  value : Value
  codeless : value.IsCodeless

inductive Step
  | request (request : Request)
  /-- The host defines a global variable. -/
  | define (name : String) (value : HostValue)
  /-- The host changes the limit on the calls in progress. -/
  | limit (maxDepth : Nat)

namespace Session

/-- A step, with the reply if it is a request; `none` if the fuel ran out. -/
def step (fuel : Nat) (s : Session) : Step → Option (Option Reply × Session)
  | .request request => (s.answer fuel request).map fun r => (some r.1, r.2)
  | .define name value => some (none, s.define name value.value)
  | .limit maxDepth => some (none, s.withMaxDepth maxDepth)

/-- Steps one after the other, with their replies. -/
def follow (fuel : Nat) : List Step → Session → Option (List (Option Reply) × Session)
  | [], s => some ([], s)
  | first :: rest, s => do
    let (reply, s) ← s.step fuel first
    let (replies, s) ← follow fuel rest s
    return (reply :: replies, s)

theorem follow_cons_eq_some {fuel : Nat} {first : Step} {rest : List Step} {s s' : Session}
    {replies : List (Option Reply)} :
    follow fuel (first :: rest) s = some (replies, s') ↔
      ∃ reply s₁ others, s.step fuel first = some (reply, s₁) ∧
        follow fuel rest s₁ = some (others, s') ∧ replies = reply :: others := by
  simp only [follow, Option.bind_eq_bind, Option.bind_eq_some_iff, Option.pure_def,
    Option.some.injEq, Prod.mk.injEq, Prod.exists]
  constructor
  · rintro ⟨reply, s₁, hfirst, others, s₂, hrest, rfl, rfl⟩
    exact ⟨reply, s₁, others, hfirst, hrest, rfl⟩
  · rintro ⟨reply, s₁, others, hfirst, hrest, rfl⟩
    exact ⟨reply, s₁, hfirst, others, s', hrest, rfl, rfl⟩

/-- What a step can do to a session. -/
inductive Moved (fuel : Nat) (s : Session) : Session → Prop
  /-- A source has a fault, so that nothing runs. Identities may have been given out. -/
  | refused {nextId : NodeId} : s.nextId ≤ nextId → Moved fuel s { s with nextId }
  | ran {source : String} {checked : Checked} {nextId : NodeId} {machine : Machine} :
      checkSource source s.nextId = (.ok checked, nextId) →
      (Running.runProgram fuel checked.program checked.distances s.machine).state?
        = some machine →
      Moved fuel s ⟨machine, nextId⟩
  | evaluated {source : String} {e : Expr} {nextId : NodeId} {machine : Machine} :
      parseExpressionSource source s.nextId = (.ok e, nextId) →
      (Running.evaluate fuel e s.machine).state? = some machine →
      Moved fuel s ⟨machine, nextId⟩
  | defined (name : String) (value : HostValue) : Moved fuel s (s.define name value.value)
  | limited (maxDepth : Nat) : Moved fuel s (s.withMaxDepth maxDepth)

variable {fuel : Nat} {s s' : Session}

/-- The machine after an action is the one that the action leaves. -/
theorem perform_eq_some {α : Type} {x : Run α} {result : Except (List Problem) α}
    (h : s.perform x = some (result, s')) :
    (x s.machine).state? = some s'.machine ∧ s'.nextId = s.nextId := by
  unfold perform at h
  split at h <;> cases h <;> rename_i hx <;> rw [hx] <;> exact ⟨rfl, rfl⟩

theorem run_moved {source : String} {result : Except (List Problem) Unit}
    (h : s.run fuel source = some (result, s')) : Moved fuel s s' := by
  have hnext := checkSource_advances source s.nextId
  unfold run at h
  cases hcheck : checkSource source s.nextId with
  | mk answer nextId =>
    rw [hcheck] at h hnext
    cases answer with
    | error problems =>
      cases h
      exact .refused hnext
    | ok checked =>
      obtain ⟨hstate, rfl⟩ := perform_eq_some h
      exact .ran hcheck hstate

theorem evaluate_moved {source : String} {result : Except (List Problem) Value}
    (h : s.evaluate fuel source = some (result, s')) : Moved fuel s s' := by
  have hnext := parseExpressionSource_advances source s.nextId
  unfold evaluate at h
  cases hparse : parseExpressionSource source s.nextId with
  | mk answer nextId =>
    rw [hparse] at h hnext
    cases answer with
    | error problems =>
      cases h
      exact .refused hnext
    | ok e =>
      obtain ⟨hstate, rfl⟩ := perform_eq_some h
      exact .evaluated hparse hstate

theorem step_moved {step : Step} {reply : Option Reply}
    (h : s.step fuel step = some (reply, s')) : Moved fuel s s' := by
  cases step with
  | request request =>
    obtain ⟨_, hanswer, heq⟩ := Option.map_eq_some_iff.mp h
    cases heq
    cases request with
    | run source =>
      obtain ⟨⟨result, s₁⟩, hrun, heq⟩ := Option.map_eq_some_iff.mp hanswer
      rw [← heq]
      exact run_moved hrun
    | evaluate source =>
      obtain ⟨⟨result, s₁⟩, hrun, heq⟩ := Option.map_eq_some_iff.mp hanswer
      rw [← heq]
      exact evaluate_moved hrun
  | define name value =>
    cases h
    exact .defined name value
  | limit maxDepth =>
    cases h
    exact .limited maxDepth

/-- What every step keeps holds after any steps. -/
theorem follow_induction {P : Session → Prop} {steps : List Step} {replies : List (Option Reply)}
    (hs : P s) (hmoved : ∀ s s', P s → Moved fuel s s' → P s')
    (h : s.follow fuel steps = some (replies, s')) : P s' := by
  induction steps generalizing s replies with
  | nil =>
    cases h
    exact hs
  | cons first rest ih =>
    obtain ⟨reply, s₁, others, hfirst, hrest, -⟩ := follow_cons_eq_some.mp h
    exact ih (hmoved s s₁ hs (step_moved hfirst)) hrest

end Session

end LoxLang
