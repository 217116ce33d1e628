import Mathlib
import LoxLang.Proofs.Running.Sessions
import LoxLang.Proofs.Running.TwinLockstep

/-!
# `for` loops keep their meaning

A `for` loop is read into a `while` loop, in blocks of its own. A session that runs what is read
does the same as a session in which such loops are loops with a step, whichever these are.

* `forStatement_reads`: what the parser makes of a `for` loop, whose body declares nothing;
* `Twins.Between`: two machines between two requests;
* `Stepping.Beside`: two sessions after the same requests;
* `Stepping.AnswersAlike`: two answers that cannot be told apart, with machines that are twins;
* `for_loops_keep_their_meaning`: the answers of the two sessions, and a single loop at its place.
-/

namespace LoxLang

/-! ## What is read -/

open Parsing in
/-- What is read for a `for` loop, the body of which declares nothing. -/
theorem forStatement_reads {fuel depth : Nat} {c c' : Cursor} {s : Stmt}
    (h : forStatement fuel ⟨declaration depth, Parsing.statement depth⟩ c = .ok s c') :
    ∃ initializer condition increment body,
      s = desugarFor initializer (Stepping.test condition) increment body ∧
        body.declaredName? = none := by
  obtain ⟨_, _, initializer, _, condition, _, _, _, increment, _, _, c₆, body, -, -, -, -, -, -,
    hbody, rfl⟩ := forStatement_parts h
  refine ⟨initializer, condition, increment, body, rfl, ?_⟩
  obtain ⟨_, _, _, hstatement, _⟩ := (statement_reads depth) _ _ _ hbody
  rw [← Stmt.declaredName?_withoutIds]
  exact hstatement.declaredName?_eq_none

namespace Twins

variable {chosen : Choice} {α β : Type} {w w' : Twins} {next n : NodeId}
  {R : Twins → α → β → Prop}

/-! ## Programs -/

theorem runStatements_runs (fuel : Nat) {ss : List Stmt} (h : Sound chosen w)
    (hframe : w.left.frame = globals) (hframe' : w.right.frame = globals)
    (hss : ∀ s ∈ ss, Fits chosen w [] s) :
    Runs chosen w (fun _ _ _ => True) (Running.runStatements fuel ss)
      (Stepping.runStatements chosen fuel ss) := by
  induction ss generalizing w with
  | nil => exact .pure h trivial
  | cons s rest ih =>
    obtain ⟨hs, hrest⟩ := List.forall_mem_cons.mp hss
    have hhere : w.Here [] := by
      unfold Here
      rw [hframe, hframe']
      exact .globals
    have hrun := (runs_alike chosen fuel).execute w [] s h hhere hs
    unfold Runs at hrun ⊢
    unfold Running.runStatements Stepping.runStatements
    generalize Running.execute fuel s w.left = out at hrun
    generalize Stepping.execute chosen fuel s w.right = out' at hrun
    cases hrun with
    | ok hreached _ =>
      have hnext := ih hreached.sound (hreached.frame.trans hframe) (hreached.frame'.trans hframe')
        fun s hs => (hrest s hs).later hreached.later
      exact EndsAlike.earlier hnext hreached
    | @error w₁ _ _ hreached he =>
      have hsound := hreached.sound
      have hreset : Reached chosen w₁ (w₁.on w₁.left.reset w₁.right.reset) :=
        .on { hsound with stores := hsound.stores.on rfl rfl, depth := rfl } rfl rfl
          (hreached.frame.trans hframe).symm (hreached.frame'.trans hframe').symm rfl rfl
      exact .error (hreached.trans hreset) he
    | outOfFuel => exact .outOfFuel

/-- Two machines between two requests: nothing runs, and no node that is not given out yet has a
distance. -/
structure Between (chosen : Choice) (w : Twins) (next : NodeId) : Prop where
  sound : Sound chosen w
  frame : w.left.frame = globals
  frame' : w.right.frame = globals
  below : ∀ id layers, w.nodes id layers → id < next
  fresh : ∀ id, next ≤ id → w.left.distances.of? id = none
  fresh' : ∀ id, next ≤ id → w.right.distances.of? id = none

theorem Between.here (h : Between chosen w next) : w.Here [] := by
  unfold Here
  rw [h.frame, h.frame']
  exact .globals

theorem Between.mono (h : Between chosen w n) (hnext : n ≤ next) : Between chosen w next :=
  { h with
    below := fun id layers hid => Nat.lt_of_lt_of_le (h.below id layers hid) hnext
    fresh := fun id hid => h.fresh id (Nat.le_trans hnext hid)
    fresh' := fun id hid => h.fresh' id (Nat.le_trans hnext hid) }

theorem Between.reached (h : Between chosen w next) (hw : Reached chosen w w') :
    Between chosen w' next where
  sound := hw.sound
  frame := hw.frame.trans h.frame
  frame' := hw.frame'.trans h.frame'
  below := by rw [hw.nodes]; exact h.below
  fresh := by rw [hw.distances]; exact h.fresh
  fresh' := by rw [hw.distances']; exact h.fresh'

/-- The machines when they know the distances of one more program. -/
def extend (w : Twins) (d d' : Distances) (nodes : List (NodeId × Layers)) : Twins where
  left := w.left.extend d
  right := w.right.extend d'
  pairs := w.pairs
  nodes id layers := w.nodes id layers ∨ (id, layers) ∈ nodes

theorem Between.extend {d d' : Distances} {nodes : List (NodeId × Layers)}
    (h : Between chosen w n) (hnext : n ≤ next)
    (hnodes : ∀ node ∈ nodes, n ≤ node.1 ∧ node.1 < next)
    (hd : ∀ id, id < n ∨ next ≤ id → d.of? id = none)
    (hd' : ∀ id, id < n ∨ next ≤ id → d'.of? id = none)
    (hlift : ∀ node ∈ nodes, d.of? node.1 = (d'.of? node.1).map node.2.lift) :
    Between chosen (w.extend d d' nodes) next := by
  have hlater : Later w (w.extend d d' nodes) :=
    ⟨fun _ _ h => h, fun _ _ h => h, fun _ _ h => h, fun _ _ h => .inl h⟩
  have hsound := h.sound
  refine ⟨?_, h.frame, h.frame', ?_, ?_, ?_⟩
  · refine { hsound with stores := hsound.stores.unchanged hlater rfl rfl rfl, distances := ?_ }
    intro id layers hid
    change (w.left.distances.extend d).of? id = ((w.right.distances.extend d').of? id).map _
    rw [DistanceTable.of?_extend, DistanceTable.of?_extend]
    obtain hold | hnew := hid
    · have hbelow := h.below id layers hold
      rw [hd id (.inl hbelow), hd' id (.inl hbelow), Option.none_or, Option.none_or]
      exact hsound.distances id layers hold
    · have habove := (hnodes _ hnew).1
      rw [h.fresh id habove, h.fresh' id habove, Option.or_none, Option.or_none]
      exact hlift _ hnew
  · rintro id layers (hold | hnew)
    · exact Nat.lt_of_lt_of_le (h.below id layers hold) hnext
    · exact (hnodes _ hnew).2
  · intro id hid
    change (w.left.distances.extend d).of? id = none
    rw [DistanceTable.of?_extend, hd id (.inr hid), Option.none_or]
    exact h.fresh id (Nat.le_trans hnext hid)
  · intro id hid
    change (w.right.distances.extend d').of? id = none
    rw [DistanceTable.of?_extend, hd' id (.inr hid), Option.none_or]
    exact h.fresh' id (Nat.le_trans hnext hid)

/-- A source is accepted on both sides, and the machines know the distances of the program, or it
has the same faults on both. -/
theorem Between.checkSource (h : Between chosen w n) (source : String) :
    (∃ problems next, n ≤ next ∧ checkSource source n = (.error problems, next) ∧
      Stepping.checkSource chosen source n = (.error problems, next)) ∨
    ∃ p d d' next, checkSource source n = (.ok ⟨p, d⟩, next) ∧
      Stepping.checkSource chosen source n = (.ok ⟨p, d'⟩, next) ∧
      Between chosen (w.extend d d' (Stmt.allLayered chosen [] p)) next ∧
      ∀ s ∈ p, Fits chosen (w.extend d d' (Stmt.allLayered chosen [] p)) [] s := by
  have hadvances := parseSource_advances source n
  unfold LoxLang.checkSource Stepping.checkSource
  cases hparse : parseSource source n with
  | mk result next =>
    rw [hparse] at hadvances
    cases result with
    | error problems => exact .inl ⟨problems, next, hadvances, rfl, rfl⟩
    | ok p =>
      obtain ⟨hregular, hfresh⟩ := parseSource_regular hparse
      have hids : (Stmt.allLayered chosen [] p).map (·.1) = Stmt.allIds p :=
        Stmt.allLayered_ids [] p
      obtain ⟨around, haround⟩ := exists_around (hids ▸ hfresh.nodup)
      have hlifted := resolve_lifted hregular haround
      cases hresolve : Stepping.resolve chosen p with
      | error e =>
        rw [hresolve] at hlifted
        dsimp only
        rw [hlifted, hresolve]
        exact .inl ⟨[.scope e], next, hadvances, rfl, rfl⟩
      | ok d' =>
        rw [hresolve] at hlifted
        dsimp only
        rw [hlifted, hresolve]
        refine .inr ⟨p, d'.lift around, d', next, rfl, rfl, ?_, Fits.all (fun h => nomatch h)
          (fun node hnode => .inr hnode) hregular⟩
        have hwithin : ∀ node ∈ Stmt.allLayered chosen [] p, n ≤ node.1 ∧ node.1 < next :=
          fun node hnode => hfresh.within _ (hids ▸ List.mem_map_of_mem hnode)
        have hfar : ∀ id, id < n ∨ next ≤ id → (d'.lift around).of? id = none := by
          intro id hid
          refine resolve_within hlifted id fun hmem => ?_
          obtain ⟨hfirst, hlast⟩ := hfresh.within id hmem
          obtain hbefore | hbehind := hid
          · exact Nat.not_lt_of_le hfirst hbefore
          · exact Nat.not_lt_of_le hbehind hlast
        refine h.extend hadvances hwithin hfar (fun id hid => ?_) fun node hnode => ?_
        · have hnone := hfar id hid
          rwa [Distances.of?_lift, Option.map_eq_none_iff] at hnone
        · rw [Distances.of?_lift, haround node hnode]

theorem Between.runProgram {p : Program} {d d' : Distances} {nodes : List (NodeId × Layers)}
    (h : Between chosen (w.extend d d' nodes) next)
    (hp : ∀ s ∈ p, Fits chosen (w.extend d d' nodes) [] s) (fuel : Nat) :
    EndsAlike chosen (w.extend d d' nodes) (fun _ _ _ => True)
      (Running.runProgram fuel p d w.left) (Stepping.runProgram chosen fuel p d' w.right) :=
  (runStatements_runs fuel h.sound h.frame h.frame' hp).bind fun _ _ _ hreached _ =>
    flush_runs hreached.sound

/-! ## Sessions -/

/-- Failures at distance zero are the same on both sides. -/
theorem ErrorTwin.eq {e e' : RuntimeError} (h : ErrorTwin e e')
    (he : ∀ a d, e = .unresolved a d → d = 0) : e' = e := by
  cases h with
  | same => rfl
  | afar hd => exact absurd (he _ _ rfl) hd

end Twins

namespace Stepping

variable (chosen : Choice)

/-- Two answers that cannot be told apart: the same problems, or values that are twins, and behind
them machines that are twins. -/
inductive AnswersAlike : Option (Except (List Problem) (Option Value) × Session) →
    Option (Except (List Problem) (Option Value) × Session) → Prop
  | ok {w : Twins} {next : NodeId} {v v' : Option Value} :
      Twins.Between chosen w next → Option.Rel (Twins.ValueTwin chosen w) v v' →
      AnswersAlike (some (.ok v, ⟨w.left, next⟩)) (some (.ok v', ⟨w.right, next⟩))
  | error {w : Twins} {next : NodeId} {problems : List Problem} : Twins.Between chosen w next →
      AnswersAlike (some (.error problems, ⟨w.left, next⟩))
        (some (.error problems, ⟨w.right, next⟩))
  | outOfFuel : AnswersAlike none none

/-- Two sessions after the same requests: in the first one loops run as they are read, in the
second one the chosen loops run as loops with a step. -/
inductive Beside (maxDepth : Nat) (output : Output) (host : Host) : Session → Session → Prop
  | initial : Beside maxDepth output host (.initial maxDepth output host)
      (.initial maxDepth output host)
  | answer {s s' t t' : Session} {fuel : Nat} {request : Request}
      {reply reply' : Except (List Problem) (Option Value)} :
      Beside maxDepth output host s s' → s.answer fuel request = some (reply, t) →
      Stepping.answer chosen fuel request s' = some (reply', t') → Beside maxDepth output host t t'

variable {chosen} {w : Twins} {next : NodeId} {α β : Type}

/-- What two runs give that end alike, if a failure for a distance is at distance zero. -/
theorem perform_alike {R : Twins → α → β → Prop} {x : Run α} {y : Run β} {f : α → Option Value}
    {g : β → Option Value} {m m' : Machine} (h : Twins.Between chosen w next)
    (hxy : Twins.EndsAlike chosen w R (x m) (y m'))
    (hfg : ∀ w a b, R w a b → Option.Rel (Twins.ValueTwin chosen w) (f a) (g b))
    (hinnermost : ∀ a d k, x m = .error (.unresolved a d) k → d = 0) :
    AnswersAlike chosen ((Session.perform ⟨m, next⟩ x).map fun r => (r.1.map f, r.2))
      ((Session.perform ⟨m', next⟩ y).map fun r => (r.1.map g, r.2)) := by
  unfold Session.perform
  dsimp only
  generalize x m = out at hxy hinnermost
  generalize y m' = out' at hxy
  cases hxy with
  | ok hreached hR => exact .ok (h.reached hreached) (hfg _ _ _ hR)
  | error hreached he =>
    rw [he.eq fun a d heq => hinnermost a d _ (by rw [heq])]
    exact .error (h.reached hreached)
  | outOfFuel => exact .outOfFuel

theorem run_alike (h : Twins.Between chosen w next) (fuel : Nat) (source : String)
    (hinnermost : ∀ a d s, Session.answer fuel (.run source) ⟨w.left, next⟩
      = some (.error [.runtime (.unresolved a d)], s) → d = 0) :
    AnswersAlike chosen (Session.answer fuel (.run source) ⟨w.left, next⟩)
      (answer chosen fuel (.run source) ⟨w.right, next⟩) := by
  obtain ⟨problems, next', hnext, hcheck, hcheck'⟩ |
    ⟨p, d, d', next', hcheck, hcheck', hbetween, hp⟩ := h.checkSource source
  · simp only [Session.answer, answer, Session.run, run, hcheck, hcheck']
    exact .error (h.mono hnext)
  · simp only [Session.answer, answer, Session.run, run, hcheck, hcheck'] at hinnermost ⊢
    refine perform_alike hbetween (hbetween.runProgram hp fuel) (fun _ _ _ _ => .none) ?_
    intro a d k hk
    exact hinnermost a d _ (by simp only [Session.perform, hk]; rfl)

theorem evaluate_alike (h : Twins.Between chosen w next) (fuel : Nat) (source : String)
    (hinnermost : ∀ a d s, Session.answer fuel (.evaluate source) ⟨w.left, next⟩
      = some (.error [.runtime (.unresolved a d)], s) → d = 0) :
    AnswersAlike chosen (Session.answer fuel (.evaluate source) ⟨w.left, next⟩)
      (answer chosen fuel (.evaluate source) ⟨w.right, next⟩) := by
  have hnext := parseExpressionSource_advances source next
  simp only [Session.answer, answer, Session.evaluate, evaluateSource] at hinnermost ⊢
  cases hparse : parseExpressionSource source next with
  | mk result next' =>
    rw [hparse] at hnext
    cases result with
    | error problems => exact .error (h.mono hnext)
    | ok e =>
      have hfresh := parseExpressionSource_fresh hparse
      have hbetween : Twins.Between chosen (w.extend [] [] (e.layered [])) next' := by
        refine h.extend hnext (fun node hnode => ?_) (fun _ _ => rfl) (fun _ _ => rfl)
          fun _ _ => rfl
        obtain ⟨id, hid, rfl⟩ := List.mem_map.mp hnode
        exact hfresh.within id hid
      have hruns := (Twins.runs_alike chosen fuel).evaluate _ [] e hbetween.sound hbetween.here
        (Twins.refers_iff.mp fun node hnode => .inr hnode)
      rw [hparse] at hinnermost
      refine perform_alike hbetween hruns (fun _ _ _ => .some) ?_
      intro a d k hk
      exact hinnermost a d _ (by simp only [Session.perform, hk]; rfl)

theorem answer_alike (h : Twins.Between chosen w next) (fuel : Nat) (request : Request)
    (hinnermost : ∀ a d s, Session.answer fuel request ⟨w.left, next⟩
      = some (.error [.runtime (.unresolved a d)], s) → d = 0) :
    AnswersAlike chosen (Session.answer fuel request ⟨w.left, next⟩)
      (answer chosen fuel request ⟨w.right, next⟩) := by
  cases request with
  | run source => exact run_alike h fuel source hinnermost
  | evaluate source => exact evaluate_alike h fuel source hinnermost

/-- A machine with itself. Only the global variables have a frame. -/
def atFirst (maxDepth : Nat) (output : Output) (host : Host) : Twins where
  left := .initial maxDepth output host
  right := .initial maxDepth output host
  pairs f g := f = globals ∧ g = globals
  nodes _ _ := False

theorem atFirst_between (maxDepth : Nat) (output : Output) (host : Host) :
    Twins.Between chosen (atFirst maxDepth output host) 0 where
  sound := {
    stores := {
      bounds := by
        rintro f g ⟨rfl, rfl⟩
        exact ⟨Nat.zero_lt_one, Nat.zero_lt_one⟩
      functional := by
        rintro f g g' ⟨-, rfl⟩ ⟨-, rfl⟩
        rfl
      injective := by
        rintro f f' g ⟨rfl, -⟩ ⟨rfl, -⟩
        rfl
      onto := fun g hg => ⟨globals, rfl, Nat.lt_one_iff.mp hg⟩
      spare := by
        intro f hf
        have hne : f ≠ 0 := fun heq => hf globals ⟨heq, rfl⟩
        obtain ⟨k, rfl⟩ := Nat.exists_eq_succ_of_ne_zero hne
        rfl
      bindings := by
        rintro f g ⟨rfl, rfl⟩
        exact .cons .clock .nil
      global := ⟨rfl, rfl⟩
      outermost := rfl
      outermost' := rfl
      objectsSize := rfl
      objects := fun o ob ob' ho => by cases ho
      stamps := rfl }
    distances := fun _ _ h => h.elim
    depth := rfl
    maxDepth := rfl
    output := rfl
    host := rfl
    readings := rfl }
  frame := rfl
  frame' := rfl
  below _ _ h := h.elim
  fresh id _ := DistanceTable.of?_empty id
  fresh' id _ := DistanceTable.of?_empty id

variable {maxDepth : Nat} {output : Output} {host : Host} {s s' : Session}

theorem Beside.reachable (h : Beside chosen maxDepth output host s s') :
    Session.Reachable maxDepth output host s := by
  induction h with
  | initial => exact .initial
  | answer _ hanswer _ ih => exact .answer ih hanswer

/-- After the same requests the machines are twins, between two requests. -/
theorem Beside.between (h : Beside chosen maxDepth output host s s') :
    ∃ w next, Twins.Between chosen w next ∧ s = ⟨w.left, next⟩ ∧ s' = ⟨w.right, next⟩ := by
  induction h with
  | initial => exact ⟨_, _, atFirst_between maxDepth output host, rfl, rfl⟩
  | @answer s s' t t' fuel request reply reply' hbeside hanswer hanswer' ih =>
    obtain ⟨w, next, hbetween, rfl, rfl⟩ := ih
    have halike := answer_alike hbetween fuel request
      fun a d u hu => hbeside.reachable.innermost hu
    rw [hanswer, hanswer'] at halike
    cases halike with
    | ok hafter _ => exact ⟨_, _, hafter, rfl, rfl⟩
    | error hafter => exact ⟨_, _, hafter, rfl, rfl⟩

end Stepping

open Parsing in
/-- **`for` loops keep their meaning.** Let two sessions get the same requests, and let the second
one run any loops, chosen at will, as loops with a step that has no frame of its own. Every request
is answered alike: with the same problems or a value that is a twin, with the same output, and with
machines that are twins.

Every `for` loop that is read is desugared, and its body declares no name that the increment could
stand for. The desugared loop is, if chosen, a loop with a step: its initializer runs once in a
frame of its own; then, until the condition fails, the body runs and after it the increment, which
a `break` or a `return` in the body skips. At its place in a program, in machines that are twins,
the desugared loop and this one complete alike, and leave machines that are twins. -/
theorem for_loops_keep_their_meaning {chosen : Choice} {maxDepth : Nat} {output : Output}
    {host : Host} {s s' : Session} (h : Stepping.Beside chosen maxDepth output host s s')
    (fuel : Nat) :
    (∀ request, Stepping.AnswersAlike chosen (s.answer fuel request)
      (Stepping.answer chosen fuel request s')) ∧
    (∀ (length depth : Nat) (c c' : Cursor) (loop : Stmt),
      forStatement length ⟨declaration depth, Parsing.statement depth⟩ c = .ok loop c' →
      ∃ initializer condition increment body,
        loop = desugarFor initializer (Stepping.test condition) increment body ∧
          body.declaredName? = none) ∧
    ∀ (initializer : Option Stmt) (condition increment : Option Expr) (body : Stmt),
      body.declaredName? = none →
      Stepping.TakesFor chosen (Stepping.test condition) increment body →
      let loop := desugarFor initializer (Stepping.test condition) increment body
      Stepping.execute chosen fuel loop
          = Stepping.executeFor chosen fuel initializer condition increment body ∧
        ∀ w layers, Twins.Sound chosen w → w.Here layers → Twins.Fits chosen w layers loop →
          Twins.Runs chosen w (Twins.CompletionTwin chosen) (Running.execute fuel loop)
            (Stepping.executeFor chosen fuel initializer condition increment body) := by
  refine ⟨?_, fun _ _ _ _ _ hloop => forStatement_reads hloop, ?_⟩
  · intro request
    obtain ⟨w, next, hbetween, rfl, rfl⟩ := h.between
    exact Stepping.answer_alike hbetween fuel request fun a d u hu => h.reachable.innermost hu
  · intro initializer condition increment body hnone htakes loop
    have hexecute : Stepping.execute chosen fuel loop
        = Stepping.executeFor chosen fuel initializer condition increment body :=
      Stepping.execute_desugarFor htakes hnone fuel initializer
    refine ⟨hexecute, fun w layers hsound hhere hfits => ?_⟩
    rw [← hexecute]
    exact (Twins.runs_alike chosen fuel).execute w layers loop hsound hhere hfits

/-- The function that is made in the first turn keeps the variable of the loop, which the second
turn leaves by `break` before the increment. At first a loop that makes no turn runs alike too. -/
theorem captured_counter :
    let chosen : Choice := fun _ _ => true
    let source := "var f; for (var i = nil; true; i = !i) \x7b if (i) break; fun g() \x7b " ++
      "print i; \x7d f = g; \x7d f();"
    let s := Session.initial 8 .unlimited .nominal
    let answer := Stepping.answer chosen 60 (.run source) s
    let stop := Expr.literal (.bool false)
    let nil := Expr.literal .nil
    Stepping.AnswersAlike chosen (s.answer 60 (.run source)) answer ∧
      answer.map (fun r => (r.2.machine.output.written, r.2.machine.store.frames.size))
        = some ("true\n", 5) ∧
      Twins.Runs chosen (Stepping.atFirst 8 .unlimited .nominal) (Twins.CompletionTwin chosen)
        (Running.execute 60 (Parsing.desugarFor none stop (some nil) (.print nil)))
        (Stepping.executeFor chosen 60 none (some stop) (some nil) (.print nil)) := by
  have hbeside : Stepping.Beside (fun _ _ => true) 8 .unlimited .nominal _ _ := .initial
  obtain ⟨hanswers, -, hloops⟩ := for_loops_keep_their_meaning hbeside 60
  obtain ⟨-, hruns⟩ := hloops none (some (.literal (.bool false))) (some (.literal .nil))
    (.print (.literal .nil)) rfl rfl
  have hbetween : Twins.Between (fun _ _ => true) (Stepping.atFirst 8 .unlimited .nominal) 0 :=
    Stepping.atFirst_between 8 .unlimited .nominal
  refine ⟨hanswers _, by cbv, hruns _ [] hbetween.sound hbetween.here ⟨?_, ?_, ?_⟩⟩
  · intro node hnode
    cases hnode
  · exact ⟨rfl, trivial, trivial, trivial⟩
  · intro h
    cases h

end LoxLang
