import LoxLang.Proofs.Running.Ledger
import LoxLang.Proofs.Running.Staging

/-!
# Sessions that know for whom they run

* `StagedSession.turn`: a request with its record, also of a run that does not end;
* `turn_unstaged`: without its record a turn is the answer of the session;
* `Session.Reachable.staged`: every reachable session has a record.
-/

namespace LoxLang

/-- A session with the record of its last turn, and all its requests. -/
structure StagedSession where
  staged : Staged
  nextId : NodeId
  history : List Issued

/-- What a request leads to: the answer if there is one, and the session with its record. -/
structure StagedTurn where
  answer? : Option (Except (List Problem) (Option Value))
  after : StagedSession

namespace StagedTurn

/-- The expressions that were entered. -/
def entrances (t : StagedTurn) : List Entrance := t.after.staged.entrances

/-- How statements, bodies and loops completed. -/
def endings (t : StagedTurn) : List Ending := t.after.staged.endings

end StagedTurn

/-- What is done afterwards can as well be done with the value. -/
theorem Session.perform_map {α β : Type} (s : Session) (x : Run α) (f : α → β) :
    (s.perform x).map (fun r => (r.1.map f, r.2)) = s.perform (do return f (← x)) := by
  unfold Session.perform
  cases hx : x s.machine with
  | ok a m => rw [Action.bind_of_ok hx]; rfl
  | error e m => rw [Action.bind_of_error hx]; rfl
  | outOfFuel => rw [Action.bind_of_outOfFuel hx]; rfl

namespace StagedSession

def initial (maxDepth : Nat) (output : Output) (host : Host) : StagedSession :=
  ⟨⟨.initial maxDepth output host, fun _ => .top, [], []⟩, 0, []⟩

/-- The session without its record. -/
def session (s : StagedSession) : Session := ⟨s.staged.machine, s.nextId⟩

/-- The session with an empty record, when it has read the next request. -/
def facing (s : StagedSession) (request : Request) : StagedSession :=
  let issued : Issued := ⟨request, s.nextId⟩
  { staged := { s.staged with entrances := [], endings := [] }
    nextId := issued.next
    history := issued :: s.history }

def perform (s : StagedSession) (x : Staging (Option Value)) : StagedTurn :=
  match x s.staged with
  | .ok a staged => ⟨some (.ok a), { s with staged }⟩
  | .error (.failure e) staged => ⟨some (.error [.runtime e]), { s with staged }⟩
  | .error .outOfFuel staged => ⟨none, { s with staged }⟩
  | .outOfFuel => ⟨none, s⟩

/-- A request, on a new record. -/
def turn (fuel : Nat) (request : Request) (s : StagedSession) : StagedTurn :=
  match request with
  | .run source =>
    match (checkSource source s.nextId).1 with
    | .error problems => ⟨some (.error problems), s.facing request⟩
    | .ok checked =>
      (s.facing request).perform do
        Staging.runProgram fuel checked.program checked.distances
        return none
  | .evaluate source =>
    match (parseExpressionSource source s.nextId).1 with
    | .error problems => ⟨some (.error problems), s.facing request⟩
    | .ok e => (s.facing request).perform do return some (← Staging.evaluate fuel .top e)

/-- The sessions after any number of turns that ended. -/
inductive Reachable (maxDepth : Nat) (output : Output) (host : Host) : StagedSession → Prop
  | initial : Reachable maxDepth output host (.initial maxDepth output host)
  | turn {s : StagedSession} {fuel : Nat} {request : Request}
      {reply : Except (List Problem) (Option Value)} :
      Reachable maxDepth output host s → (s.turn fuel request).answer? = some reply →
      Reachable maxDepth output host (s.turn fuel request).after

theorem perform_unstaged (s : StagedSession) {x : Staging (Option Value)} {y : Run (Option Value)}
    (h : Stages x y) :
    (s.perform x).answer?.map (·, (s.perform x).after.session) = s.session.perform y := by
  have hx := h s.staged
  have hmachine : s.session.machine = s.staged.machine := rfl
  unfold perform Session.perform
  rw [hmachine, ← hx]
  cases x s.staged with
  | ok a t => rfl
  | error e t => cases e <;> rfl
  | outOfFuel => rfl

/-- Without its record a turn is the answer of the session. -/
theorem turn_unstaged (fuel : Nat) (request : Request) (s : StagedSession) :
    (s.turn fuel request).answer?.map (·, (s.turn fuel request).after.session)
      = s.session.answer fuel request := by
  cases request with
  | run source =>
    simp only [turn, Session.answer, Session.run]
    have hnext : (s.facing (.run source)).nextId = (checkSource source s.nextId).2 := rfl
    have hid : s.session.nextId = s.nextId := rfl
    rw [hid]
    cases hcheck : checkSource source s.nextId with
    | mk answer nextId =>
      rw [hcheck] at hnext
      cases answer with
      | error problems =>
        simp only [Option.map_some, session, hnext]
        rfl
      | ok checked =>
        have hruns := (Staging.runProgram_unstaged fuel checked.program checked.distances).bind
          fun _ => Stages.pure (none : Option Value)
        rw [perform_unstaged _ hruns, Session.perform_map]
        simp only [session, hnext]
        rfl
  | evaluate source =>
    simp only [turn, Session.answer, Session.evaluate]
    have hnext : (s.facing (.evaluate source)).nextId = (parseExpressionSource source s.nextId).2 :=
      rfl
    have hid : s.session.nextId = s.nextId := rfl
    rw [hid]
    cases hparse : parseExpressionSource source s.nextId with
    | mk answer nextId =>
      rw [hparse] at hnext
      cases answer with
      | error problems =>
        simp only [Option.map_some, session, hnext]
        rfl
      | ok e =>
        have hruns := (Staging.evaluate_unstaged fuel .top e).bind fun v => Stages.pure (some v)
        rw [perform_unstaged _ hruns, Session.perform_map]
        simp only [session, hnext]
        rfl

end StagedSession

/-- Every reachable session has a record. -/
theorem Session.Reachable.staged {maxDepth : Nat} {output : Output} {host : Host} {s : Session}
    (h : Session.Reachable maxDepth output host s) :
    ∃ t, StagedSession.Reachable maxDepth output host t ∧ t.session = s := by
  induction h with
  | initial => exact ⟨_, .initial, rfl⟩
  | @answer s s' fuel request reply _ hanswer ih =>
    obtain ⟨t, ht, rfl⟩ := ih
    rw [← StagedSession.turn_unstaged, Option.map_eq_some_iff] at hanswer
    obtain ⟨reply', hreply, heq⟩ := hanswer
    cases heq
    exact ⟨_, .turn ht hreply, rfl⟩

end LoxLang
