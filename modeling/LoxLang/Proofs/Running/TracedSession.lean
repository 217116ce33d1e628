import LoxLang.Proofs.Running.Tracing

/-!
# Sessions that keep their visits

* `Request`: a line of a session, which is a program to run or an expression to evaluate;
* `Session.Reachable`: the sessions after any requests, failed or not;
* `TracedSession.turn`: a request with its record, also of a run that does not end;
* `turn_erases`: without its record a turn is the answer of the session;
* `Session.Reachable.traced`: every reachable session has a record.
-/

namespace LoxLang

inductive Request
  | run (source : String)
  | evaluate (source : String)

namespace Session

/-- What a request gives, and the session after it; `none` if the fuel ran out. -/
def answer (fuel : Nat) (request : Request) (s : Session) :
    Option (Except (List Problem) (Option Value) × Session) :=
  match request with
  | .run source => (s.run fuel source).map fun r => (r.1.map fun _ => none, r.2)
  | .evaluate source => (s.evaluate fuel source).map fun r => (r.1.map some, r.2)

/-- The sessions after any number of requests that ended. -/
inductive Reachable (maxDepth : Nat) (output : Output) (host : Host) : Session → Prop
  | initial : Reachable maxDepth output host (.initial maxDepth output host)
  | answer {s s' : Session} {fuel : Nat} {request : Request}
      {reply : Except (List Problem) (Option Value)} :
      Reachable maxDepth output host s → s.answer fuel request = some (reply, s') →
      Reachable maxDepth output host s'

end Session

namespace Tracing

def runStatements (fuel : Nat) : Site → List Stmt → Tracing Unit
  | _, [] => pure ()
  | site, s :: rest => fun t =>
    match execute fuel site s t with
    | .ok _ t' => runStatements fuel (site.after s) rest t'
    | .error (.failure e) t' => .error (.failure e) { t' with machine := t'.machine.reset }
    | .error .outOfFuel t' => .error .outOfFuel t'
    | .outOfFuel => .outOfFuel

def runProgram (fuel : Nat) (program : Program) (distances : Distances) : Tracing Unit := do
  quietly <| Action.modify fun m => { m with distances := m.distances.extend distances }
  runStatements fuel .top program
  quietly Run.flush

theorem runStatements_erases (fuel : Nat) (site : Site) (body : List Stmt) :
    Erases (runStatements fuel site body) (Running.runStatements fuel body) := by
  induction body generalizing site with
  | nil => exact .pure _
  | cons s rest ih =>
    intro t
    have hs := execute_erases fuel site s t
    simp only [runStatements, Running.runStatements]
    rw [← hs]
    cases execute fuel site s t with
    | ok c t' => exact ih _ t'
    | error e t' => cases e <;> rfl
    | outOfFuel => rfl

theorem runProgram_erases (fuel : Nat) (program : Program) (distances : Distances) :
    Erases (runProgram fuel program distances) (Running.runProgram fuel program distances) :=
  (Erases.quietly _).bind fun _ => (runStatements_erases fuel .top program).bind fun _ =>
    .quietly _

end Tracing

/-- A request, with the next node identity when it was made. -/
structure Issued where
  request : Request
  nextId : NodeId

/-- The expressions of the request, if its source is accepted, at their sites. -/
def Issued.placed (r : Issued) : List (Site × Expr) :=
  match r.request with
  | .run source =>
    match (checkSource source r.nextId).1 with
    | .ok checked => checked.program.placed
    | .error _ => []
  | .evaluate source =>
    match (parseExpressionSource source r.nextId).1 with
    | .ok e => e.placed .top
    | .error _ => []

/-- A session with the record of its last turn, and all its requests. -/
structure TracedSession where
  traced : Traced
  nextId : NodeId
  history : List Issued

/-- What a request leads to: the answer if there is one, and the session with its record. -/
structure Turn where
  answer? : Option (Except (List Problem) (Option Value))
  after : TracedSession

/-- The expressions that were entered. -/
def Turn.visits (t : Turn) : List Visit := t.after.traced.visits

namespace TracedSession

def initial (maxDepth : Nat) (output : Output) (host : Host) : TracedSession :=
  ⟨⟨.initial maxDepth output host, fun _ => .top, [], false⟩, 0, []⟩

/-- The session without its record. -/
def session (s : TracedSession) : Session := ⟨s.traced.machine, s.nextId⟩

/-- The session with an empty record, at the next request. -/
def facing (s : TracedSession) (request : Request) : TracedSession :=
  { s with
    traced := { s.traced with visits := [], early := false }
    history := ⟨request, s.nextId⟩ :: s.history }

def perform (s : TracedSession) (x : Tracing (Option Value)) : Turn :=
  match x s.traced with
  | .ok a traced => ⟨some (.ok a), { s with traced }⟩
  | .error (.failure e) traced => ⟨some (.error [.runtime e]), { s with traced }⟩
  | .error .outOfFuel traced => ⟨none, { s with traced }⟩
  | .outOfFuel => ⟨none, s⟩

/-- A request, on a new record. -/
def turn (fuel : Nat) (request : Request) (s : TracedSession) : Turn :=
  let s := s.facing request
  match request with
  | .run source =>
    match checkSource source s.nextId with
    | (.error problems, nextId) => ⟨some (.error problems), { s with nextId }⟩
    | (.ok checked, nextId) =>
      { s with nextId }.perform do
        Tracing.runProgram fuel checked.program checked.distances
        return none
  | .evaluate source =>
    match parseExpressionSource source s.nextId with
    | (.error problems, nextId) => ⟨some (.error problems), { s with nextId }⟩
    | (.ok e, nextId) => { s with nextId }.perform (some <$> Tracing.evaluate fuel .top e)

/-- The sessions after any number of turns that ended. -/
inductive Reachable (maxDepth : Nat) (output : Output) (host : Host) : TracedSession → Prop
  | initial : Reachable maxDepth output host (.initial maxDepth output host)
  | turn {s : TracedSession} {fuel : Nat} {request : Request}
      {reply : Except (List Problem) (Option Value)} :
      Reachable maxDepth output host s → (s.turn fuel request).answer? = some reply →
      Reachable maxDepth output host (s.turn fuel request).after

theorem perform_erases {α : Type} (s : TracedSession) {x : Tracing (Option Value)} {y : Run α}
    {f : α → Option Value} (h : Erases x (do return f (← y))) :
    (s.perform x).answer?.map (·, (s.perform x).after.session)
      = (s.session.perform y).map fun r => (r.1.map f, r.2) := by
  have hx := h s.traced
  unfold perform Session.perform
  cases hy : y s.session.machine with
  | ok a m =>
    have hf : (do return f (← y) : Run (Option Value)) s.traced.machine = .ok (f a) m :=
      Action.bind_of_ok hy
    rw [hf] at hx
    cases hxt : x s.traced with
    | ok a' t =>
      rw [hxt] at hx
      cases hx
      rfl
    | error e t =>
      rw [hxt] at hx
      cases e <;> cases hx
    | outOfFuel =>
      rw [hxt] at hx
      cases hx
  | error e m =>
    have hf : (do return f (← y) : Run (Option Value)) s.traced.machine = .error e m :=
      Action.bind_of_error hy
    rw [hf] at hx
    cases hxt : x s.traced with
    | ok a' t =>
      rw [hxt] at hx
      cases hx
    | error e t =>
      rw [hxt] at hx
      cases e <;> cases hx
      rfl
    | outOfFuel =>
      rw [hxt] at hx
      cases hx
  | outOfFuel =>
    have hf : (do return f (← y) : Run (Option Value)) s.traced.machine = .outOfFuel :=
      Action.bind_of_outOfFuel hy
    rw [hf] at hx
    cases hxt : x s.traced with
    | ok a' t =>
      rw [hxt] at hx
      cases hx
    | error e t =>
      rw [hxt] at hx
      cases e <;> cases hx
      rfl
    | outOfFuel => rfl

/-- Without its record a turn is the answer of the session. -/
theorem turn_erases (fuel : Nat) (request : Request) (s : TracedSession) :
    (s.turn fuel request).answer?.map (·, (s.turn fuel request).after.session)
      = s.session.answer fuel request := by
  cases request with
  | run source =>
    simp only [turn, Session.answer, Session.run]
    have hid : (s.facing (.run source)).nextId = s.session.nextId := rfl
    rw [hid]
    obtain ⟨checked, nextId⟩ := checkSource source s.session.nextId
    cases checked with
    | error problems => rfl
    | ok checked =>
      exact perform_erases { s.facing (.run source) with nextId }
        ((Tracing.runProgram_erases fuel checked.program checked.distances).bind fun _ => .pure _)
  | evaluate source =>
    simp only [turn, Session.answer, Session.evaluate]
    have hid : (s.facing (.evaluate source)).nextId = s.session.nextId := rfl
    rw [hid]
    obtain ⟨e, nextId⟩ := parseExpressionSource source s.session.nextId
    cases e with
    | error problems => rfl
    | ok e =>
      exact perform_erases { s.facing (.evaluate source) with nextId }
        ((Tracing.evaluate_erases fuel .top e).bind fun _ => .pure _)

end TracedSession

/-- Every reachable session has a record. -/
theorem Session.Reachable.traced {maxDepth : Nat} {output : Output} {host : Host} {s : Session}
    (h : Session.Reachable maxDepth output host s) :
    ∃ t, TracedSession.Reachable maxDepth output host t ∧ t.session = s := by
  induction h with
  | initial => exact ⟨_, .initial, rfl⟩
  | @answer s s' fuel request reply _ hanswer ih =>
    obtain ⟨t, ht, rfl⟩ := ih
    rw [← TracedSession.turn_erases, Option.map_eq_some_iff] at hanswer
    obtain ⟨reply', hreply, heq⟩ := hanswer
    cases heq
    exact ⟨_, .turn ht hreply, rfl⟩

/-- Without its record a reachable session is reachable. -/
theorem TracedSession.Reachable.erased {maxDepth : Nat} {output : Output} {host : Host}
    {t : TracedSession} (h : TracedSession.Reachable maxDepth output host t) :
    Session.Reachable maxDepth output host t.session := by
  induction h with
  | initial => exact .initial
  | @turn s fuel request reply _ hreply ih =>
    have hanswer : s.session.answer fuel request
        = some (reply, (s.turn fuel request).after.session) := by
      rw [← TracedSession.turn_erases, hreply]
      rfl
    exact .answer ih hanswer

end LoxLang
