import Mathlib
import LoxLang.Proofs.Running.Turns

/-!
# What the record of a session shows

Every session has a record, and without it the record changes nothing. So what holds of all records
holds of all runs.

* `identities_distinct`: no two nodes have the same identity, and the table says of each what was
  recorded for its own program;
* `completions_calm`: no `break` and no `return` is lost where its completion is not looked at;
* `this_receives`: every `this` gives the object that the method around it is bound to.
-/

namespace LoxLang

section
variable {maxDepth : Nat} {output : Output} {host : Host} {s : Session}

/-- **Identities are never used twice**, whatever a session has read: not within a source, and not
in two of them, accepted or not. So what is recorded for a program replaces nothing, and from then
on the table says of each of its nodes what was recorded for it, at every node that is entered. It
says nothing of the nodes of an expression that is evaluated by itself. -/
theorem identities_distinct (h : Session.Reachable maxDepth output host s) :
    (∃ t, StagedSession.Reachable maxDepth output host t ∧ t.session = s) ∧
      ∀ t, StagedSession.Reachable maxDepth output host t → t.session = s → ∀ fuel request,
        let turn := t.turn fuel request
        let issued : Issued := ⟨request, s.nextId⟩
        turn.answer?.map (·, turn.after.session) = s.answer fuel request ∧
          turn.after.history = issued :: t.history ∧
          (turn.after.history.flatMap Issued.ids).Nodup ∧
          (issued.recorded.map (·.1)).Nodup ∧
          (∀ id ∈ issued.recorded.map (·.1), s.machine.distances.of? id = none) ∧
          ∀ r ∈ turn.after.history, ∀ id ∈ r.ids,
            turn.after.session.machine.distances.of? id = r.recorded.of? id ∧
              ∀ v ∈ turn.entrances, v.machine.distances.of? id = r.recorded.of? id := by
  refine ⟨h.staged, ?_⟩
  rintro t ht rfl fuel request
  have hsound := ht.sound
  have hafter := StagedSession.turn_sound hsound fuel request
  refine ⟨t.turn_unstaged fuel request, t.turn_history fuel request, hafter.ledger.ids,
    Issued.recorded_nodup _, hsound.ledger.unrecorded rfl, fun r hr id hid => ?_⟩
  have hrecorded := hafter.ledger.recorded r hr id hid
  refine ⟨hrecorded, fun v hv => ?_⟩
  rw [(hafter.upright.entrances v hv).1]
  exact hrecorded

/-- A loop with a step, where reading the assignment takes an identity that no node keeps. -/
def steppedLoop : Request := .run "for (var i = true; i; i = nil) print i;"

set_option maxRecDepth 1000 in
theorem steppedLoop_identities :
    let turn := (StagedSession.initial 8 .unlimited .nominal).turn 60 steppedLoop
    turn.after.history.flatMap Issued.ids = [0, 3, 2] ∧
      (turn.after.history.flatMap Issued.ids).Nodup ∧
      turn.entrances.length = 6 ∧
      ∀ v ∈ turn.entrances, v.machine.distances.of? 2 = some 1 := by
  have hinitial : Session.Reachable 8 .unlimited .nominal (.initial 8 .unlimited .nominal) :=
    .initial
  obtain ⟨-, hrecord⟩ := identities_distinct hinitial
  obtain ⟨-, hhistory, hnodup, -, -, htable⟩ :=
    hrecord (.initial 8 .unlimited .nominal) .initial rfl 60 steppedLoop
  have hid : 2 ∈ (Issued.mk steppedLoop 0).ids := by
    have hids : (Issued.mk steppedLoop 0).ids = [0, 3, 2] := by cbv
    rw [hids]
    decide
  have hrecorded : (Issued.mk steppedLoop 0).recorded.of? 2 = some 1 := by cbv
  refine ⟨by cbv, hnodup, by cbv, fun v hv => ?_⟩
  rw [← hrecorded]
  exact (htable _ (hhistory ▸ List.mem_cons_self) 2 hid).2 v hv

/-- **Completions are never lost.** In every run, of code of this program or of earlier ones: each
statement of a program that does not fail completes normally; the body of a function, a method or an
initializer does not complete with a `break`, and that of an initializer returns nothing; a loop
does not complete with a `break`. -/
theorem completions_calm (h : Session.Reachable maxDepth output host s) :
    (∃ t, StagedSession.Reachable maxDepth output host t ∧ t.session = s) ∧
      ∀ t, StagedSession.Reachable maxDepth output host t → t.session = s → ∀ fuel request,
        let turn := t.turn fuel request
        turn.answer?.map (·, turn.after.session) = s.answer fuel request ∧
          ∀ ending ∈ turn.endings, ending.IsCalm := by
  refine ⟨h.staged, ?_⟩
  rintro t ht rfl fuel request
  have hafter := StagedSession.turn_sound ht.sound fuel request
  exact ⟨t.turn_unstaged fuel request, hafter.upright.endings⟩

/-- An initializer that breaks a loop and returns. -/
def breakingInitializer : Request :=
  .run "class A \x7b init() \x7b while (true) \x7b break; \x7d return; \x7d \x7d A();"

set_option maxRecDepth 1000 in
theorem breakingInitializer_calm :
    let turn := (StagedSession.initial 8 .unlimited .nominal).turn 60 breakingInitializer
    turn.endings.length = 4 ∧ ∀ ending ∈ turn.endings, ending.IsCalm := by
  have hinitial : Session.Reachable 8 .unlimited .nominal (.initial 8 .unlimited .nominal) :=
    .initial
  obtain ⟨-, hrecord⟩ := completions_calm hinitial
  exact ⟨by cbv, (hrecord (.initial 8 .unlimited .nominal) .initial rfl 60 breakingInitializer).2⟩

/-- **`this` is the receiver.** Every evaluation of a `this` of a program succeeds, however deep in
functions it stands and however late they are called. It gives the object that the method around it
was bound to, and the innermost class statement around it has made the class of this object. -/
theorem this_receives (h : Session.Reachable maxDepth output host s) :
    (∃ t, StagedSession.Reachable maxDepth output host t ∧ t.session = s) ∧
      ∀ t, StagedSession.Reachable maxDepth output host t → t.session = s → ∀ fuel request,
        let turn := t.turn fuel request
        turn.answer?.map (·, turn.after.session) = s.answer fuel request ∧
          ∀ v ∈ turn.entrances, ∀ id line, v.expr = .this id line →
            v.expr ∈ (Issued.mk request s.nextId).evaluated ∨
              v.Receives turn.after.accepted id line := by
  refine ⟨h.staged, ?_⟩
  rintro t ht rfl fuel request
  have hafter := StagedSession.turn_sound ht.sound fuel request
  refine ⟨t.turn_unstaged fuel request, fun v hv id line hthis => ?_⟩
  have hevaluated : (t.turn fuel request).after.evaluated
      = (Issued.mk request t.session.nextId).evaluated := by
    simp only [StagedSession.evaluated, StagedSession.turn_history]
    rfl
  rw [← hevaluated]
  exact (hafter.upright.entrances v hv).2 id line hthis

/-- A function in a method, called when the method has returned. -/
def functionOfMethod : Request :=
  .run "class A \x7b m() \x7b fun f() \x7b return this; \x7d return f; \x7d \x7d A().m()();"

set_option maxRecDepth 1000 in
theorem functionOfMethod_receives :
    let turn := (StagedSession.initial 8 .unlimited .nominal).turn 60 functionOfMethod
    ∃ v ∈ turn.entrances, ∃ line, v.expr = .this 0 line ∧ v.Receives turn.after.accepted 0 line := by
  have hinitial : Session.Reachable 8 .unlimited .nominal (.initial 8 .unlimited .nominal) :=
    .initial
  have hentered : (((StagedSession.initial 8 .unlimited .nominal).turn 60
      functionOfMethod).entrances.any fun v => v.expr matches .this 0 _) = true := by cbv
  obtain ⟨v, hv, hthis⟩ := List.any_eq_true.mp hentered
  obtain ⟨line, hthis⟩ : ∃ line, v.expr = .this 0 line := by
    split at hthis
    · rename_i line heq
      exact ⟨line, heq⟩
    · cases hthis
  obtain ⟨-, hrecord⟩ := this_receives hinitial
  obtain ⟨-, hreceives⟩ :=
    hrecord (.initial 8 .unlimited .nominal) .initial rfl 60 functionOfMethod
  obtain hevaluated | hreceives := hreceives v hv 0 line hthis
  · cases hevaluated
  · exact ⟨v, hv, line, hthis, hreceives⟩

end

end LoxLang
