import LoxLang.Proofs.Parsing.Shifting
import LoxLang.Proofs.Running.Joined

/-!
# A fault in a source leaves no trace

A request whose source has a fault runs nothing, but the identities that it took are gone. The
session goes on with later identities, and nothing that a host can see depends on them.

* `Entry`, `Session.transcript`: what a host sees of each step of a session;
* `Request.refusal?`: the faults in the source of a request;
* `Session.Apart`: two sessions of which the second one has skipped some identities;
* `transcript_apart`: whatever happens to both of them, they go on alike;
* `faulty_request_invisible`: a transcript with a request that is refused, and without it.
-/

namespace LoxLang

open Running

/-- What a host sees of a step. -/
structure Entry where
  /-- The reply, if the step is a request. -/
  reply : Option Reply
  /-- The text for the value in the reply. -/
  shown : Option String
  /-- The text that was written during the step. -/
  printed : String

/-- The text written since the first machine. -/
def Machine.writtenSince (m m' : Machine) : String :=
  String.ofList (m'.output.written.toList.drop m.output.written.toList.length)

theorem Machine.writtenSince_self (m : Machine) : m.writtenSince m = "" := by
  unfold writtenSince
  rw [List.drop_length]

namespace Session

/-- The text for the value in a reply. -/
def shows (s : Session) : Option Reply → Option String
  | some (.ok (some v)) => some (s.machine.store.display v)
  | _ => none

/-- What a host sees of a step from `s` to `s'`. -/
def entry (s s' : Session) (reply : Option Reply) : Entry :=
  ⟨reply, s'.shows reply, s.machine.writtenSince s'.machine⟩

/-- What a host sees of steps one after the other; `none` if the fuel ran out. -/
def transcript (fuel : Nat) : List Step → Session → Option (List Entry)
  | [], _ => some []
  | first :: rest, s => do
    let (reply, s') ← s.step fuel first
    let entries ← transcript fuel rest s'
    return s.entry s' reply :: entries

theorem transcript_cons_of_some {fuel : Nat} {first : Step} {s s' : Session}
    {reply : Option Reply} (rest : List Step) (h : s.step fuel first = some (reply, s')) :
    s.transcript fuel (first :: rest)
      = (s'.transcript fuel rest).map (s.entry s' reply :: ·) := by
  rw [transcript, h]
  cases hrest : s'.transcript fuel rest <;> simp [hrest]

theorem transcript_cons_of_none {fuel : Nat} {first : Step} {s : Session} (rest : List Step)
    (h : s.step fuel first = none) : s.transcript fuel (first :: rest) = none := by
  rw [transcript, h]
  rfl

end Session

/-! ## Requests that are refused -/

/-- The faults in the source of a request: those of scanning and parsing, and for a program also
the fault in its scopes. -/
def Request.refusal? : Request → Option (List Problem)
  | .run source =>
    match (checkSource source 0).1 with
    | .error problems => some problems
    | .ok _ => none
  | .evaluate source =>
    match (parseExpressionSource source 0).1 with
    | .error problems => some problems
    | .ok _ => none

/-- The faults in a source are reported in whatever session, and nothing else happens but that
identities are taken. -/
theorem Session.answer_refused {bad : Request} {problems : List Problem}
    (hbad : bad.refusal? = some problems) (fuel : Nat) (s : Session) :
    ∃ next, s.nextId ≤ next ∧
      s.answer fuel bad = some (.error problems, { s with nextId := next }) := by
  cases bad with
  | run source =>
    have hlater := checkSource_later s.nextId 0 source
    have hle := checkSource_advances source s.nextId
    rw [Nat.zero_add] at hlater
    unfold Request.refusal? at hbad
    dsimp only at hbad
    rw [hlater] at hle
    cases hcheck : (checkSource source 0).1 with
    | ok checked =>
      rw [hcheck] at hbad
      cases hbad
    | error problems' =>
      rw [hcheck] at hbad hlater
      cases hbad
      refine ⟨_, hle, ?_⟩
      simp only [answer, Session.run, hlater]
      rfl
  | evaluate source =>
    have hlater := parseExpressionSource_later s.nextId 0 source
    have hle := parseExpressionSource_advances source s.nextId
    rw [Nat.zero_add] at hlater
    unfold Request.refusal? at hbad
    dsimp only at hbad
    rw [hlater] at hle
    cases hparse : (parseExpressionSource source 0).1 with
    | ok e =>
      rw [hparse] at hbad
      cases hbad
    | error problems' =>
      rw [hparse] at hbad hlater
      cases hbad
      refine ⟨_, hle, ?_⟩
      simp only [answer, Session.evaluate, hlater]
      rfl

/-! ## Sessions with other identities -/

/-- From `n` on, making way is the same as coming later. -/
theorem makeWay_later {n k id : NodeId} (h : n ≤ id) : makeWay n k id = id + k :=
  if_neg (Nat.not_lt_of_le h)

theorem makeWay_injective (n k : NodeId) : Function.Injective (makeWay n k) := by
  have hbelow : ∀ id, id < n → makeWay n k id = id := (makeWay_spares n k).below
  have hapart : ∀ id id', id < n → n ≤ id' → makeWay n k id ≠ makeWay n k id' := by
    intro id id' hid hid' h
    rw [hbelow id hid, makeWay_later hid'] at h
    exact absurd (Nat.le_trans hid' (Nat.le_add_right id' k)) (h ▸ Nat.not_le_of_lt hid)
  intro id id' h
  by_cases hid : id < n
  · by_cases hid' : id' < n
    · rwa [hbelow id hid, hbelow id' hid'] at h
    · exact absurd h (hapart id id' hid (Nat.le_of_not_lt hid'))
  · have hid := Nat.le_of_not_lt hid
    by_cases hid' : id' < n
    · exact absurd h.symm (hapart id' id hid' hid)
    · rw [makeWay_later hid, makeWay_later (Nat.le_of_not_lt hid')] at h
      exact Nat.add_right_cancel h

theorem Distances.relabel_congr {r r' : Relabeling} {d : Distances} {ids : List NodeId}
    (hd : d.Within ids) (h : ∀ id ∈ ids, r.node id = r'.node id) :
    Distances.relabel r d = Distances.relabel r' d := by
  refine List.map_congr_left fun e he => ?_
  have hmem : e.1 ∈ ids := by
    by_contra hnot
    have hnone : d.lookup e.1 = none := hd e.1 hnot
    have hne := List.lookup_eq_none_iff.mp hnone e he
    simp at hne
  rw [h e.1 hmem]

/-- An error has lines in it, and no identities. -/
theorem Relabeling.error_ofIds (f : NodeId → NodeId) (e : RuntimeError) :
    (Relabeling.ofIds f).recoding.error e = e := by
  cases e <;> rfl

/-- A reply with other labels in the code of its value. -/
def Relabeling.reply (r : Relabeling) (reply : Reply) : Reply :=
  reply.map (Option.map r.recoding.value)

/-- An entry with other labels in the code of the value in the reply. -/
def Entry.relabel (r : Relabeling) (e : Entry) : Entry :=
  { e with reply := e.reply.map r.reply }

namespace Session

/-- The second session is the first one with identities from `n` on `k` further on. -/
structure Apart (n k : NodeId) (s s' : Session) : Prop where
  nextId : s'.nextId = s.nextId + k
  machine : s'.machine
    = (Relabeling.ofIds (makeWay n k)).machine s'.machine.distances s.machine
  distances : (Relabeling.ofIds (makeWay n k)).recoding.Matches s.machine.distances
    s'.machine.distances

/-- Both steps end with the same reply, in sessions that are apart, or neither of them ends. -/
inductive StepsApart (n k : NodeId) :
    Option (Option Reply × Session) → Option (Option Reply × Session) → Prop
  | ended {reply reply' : Option Reply} {s s' : Session} :
      reply' = reply.map (Relabeling.ofIds (makeWay n k)).reply → Apart n k s s' →
      StepsApart n k (some (reply, s)) (some (reply', s'))
  | outOfFuel : StepsApart n k none none

variable {n k : NodeId} {s s' : Session}

theorem Moved.nextId_le {fuel : Nat} (h : Moved fuel s s') : s.nextId ≤ s'.nextId := by
  cases h with
  | refused hle => exact hle
  | @ran source _ _ _ hcheck _ =>
    have hle := checkSource_advances source s.nextId
    rw [hcheck] at hle
    exact hle
  | @evaluated source _ _ _ hparse _ =>
    have hle := parseExpressionSource_advances source s.nextId
    rw [hparse] at hle
    exact hle
  | defined | limited => exact Nat.le_refl _

/-- A session whose identities are all used up below its next one is apart from itself with a later
next identity. -/
theorem Owns.skip (h : s.Owns) {next : NodeId} (hle : s.nextId ≤ next) :
    Apart s.nextId (next - s.nextId) s { s with nextId := next } where
  nextId := (Nat.add_sub_cancel' hle).symm
  machine := (h.ids.machine_eq (makeWay_spares _ _)).symm
  distances := h.ids.matches_self (makeWay_spares _ _)

/-- Two actions of which the second one does the same with other identities. -/
theorem perform_apart {α : Type} {x y : Run α} {φ : α → α} {g : α → Option Value}
    {T : DistanceTable} (hnext : s'.nextId = s.nextId + k)
    (hrun : y s'.machine
      = (Relabeling.ofIds (makeWay n k)).outcome T φ (x s.machine))
    (hg : ∀ a, g (φ a) = (g a).map (Relabeling.ofIds (makeWay n k)).recoding.value)
    (hT : ∀ m, (x s.machine).state? = some m →
      (Relabeling.ofIds (makeWay n k)).recoding.Matches m.distances T) :
    StepsApart n k ((s.perform x).map fun r => (some (r.1.map g), r.2))
      ((s'.perform y).map fun r => (some (r.1.map g), r.2)) := by
  unfold perform
  rw [hrun]
  cases hx : x s.machine with
  | ok a m =>
    refine .ended ?_ ⟨hnext, rfl, hT m (by rw [hx]; rfl)⟩
    exact congrArg (fun v => some (Except.ok v)) (hg a)
  | error e m =>
    refine .ended ?_ ⟨hnext, rfl, hT m (by rw [hx]; rfl)⟩
    exact congrArg (fun e => some (Except.error [Problem.runtime e])) (Relabeling.error_ofIds _ e)
  | outOfFuel => exact .outOfFuel

section
variable (hs : s.Owns) (hn : n ≤ s.nextId) (h : Apart n k s s') (fuel : Nat)
include hs hn h

/-- A program that is run in both sessions. -/
theorem run_apart (source : String) :
    StepsApart n k (s.step fuel (.request (.run source)))
      (s'.step fuel (.request (.run source))) := by
  let r := Relabeling.ofIds (makeWay n k)
  have hlater := checkSource_later k s.nextId source
  rw [← h.nextId] at hlater
  simp only [step, answer, Session.run, hlater, Option.map_map]
  cases hcheck : checkSource source s.nextId with
  | mk result next =>
    cases result with
    | error problems => exact .ended rfl ⟨rfl, h.machine, h.distances⟩
    | ok c =>
      obtain ⟨hparse, hresolve⟩ := checkSource_eq_ok hcheck
      have hfresh := (parseSource_regular hparse).2
      have hwithin := resolve_within hresolve
      have hids : ∀ id ∈ Stmt.allIds c.program, id + k = makeWay n k id := by
        intro id hid
        exact (makeWay_later (Nat.le_trans hn (hfresh.within id hid).1)).symm
      have hprogram : c.program.relabel (.later k) = c.program.relabel r :=
        Stmt.allRelabel_congr rfl hids
      have hd : Distances.relabel (.later k) c.distances = Distances.relabel r c.distances :=
        Distances.relabel_congr hwithin hids
      -- The table of the second session finds the new distances, as it finds the earlier ones.
      have hmatches : r.recoding.Matches (s.machine.distances.extend c.distances)
          (s'.machine.distances.extend (Distances.relabel r c.distances)) := by
        intro id
        have hentry : (Distances.relabel r c.distances).of? (r.node id) = c.distances.of? id :=
          Distances.of?_relabel (makeWay_injective n k) _ id
        have hearlier : s'.machine.distances.of? (r.node id) = s.machine.distances.of? id :=
          h.distances id
        change (s'.machine.distances.extend _).of? (r.node id) = _
        rw [DistanceTable.of?_extend, DistanceTable.of?_extend, hentry, hearlier]
      have hmachine : s'.machine.extend (Distances.relabel r c.distances)
          = r.machine (s'.machine.distances.extend (Distances.relabel r c.distances))
            (s.machine.extend c.distances) := by
        rw [h.machine]
        rfl
      refine perform_apart (φ := fun u => u)
        (T := s'.machine.distances.extend (Distances.relabel r c.distances)) rfl ?_ (fun _ => rfl)
        fun m hm => ?_
      · change runProgram fuel (c.program.relabel (.later k))
          (Distances.relabel (.later k) c.distances) s'.machine = _
        rw [hprogram, hd, runProgram_apply, hmachine]
        exact runToEnd_relabel r fuel c.program _ _ hs.host hmatches
      · rw [(runProgram_kept hs.atRest hm).distances]
        exact hmatches

/-- An expression that is evaluated in both sessions. -/
theorem evaluate_apart (source : String) :
    StepsApart n k (s.step fuel (.request (.evaluate source)))
      (s'.step fuel (.request (.evaluate source))) := by
  let r := Relabeling.ofIds (makeWay n k)
  have hlater := parseExpressionSource_later k s.nextId source
  rw [← h.nextId] at hlater
  simp only [step, answer, Session.evaluate, hlater, Option.map_map]
  cases hparse : parseExpressionSource source s.nextId with
  | mk result next =>
    cases result with
    | error problems => exact .ended rfl ⟨rfl, h.machine, h.distances⟩
    | ok e =>
      have hfresh := parseExpressionSource_fresh hparse
      have hexpr : e.relabel (.later k) = e.relabel r := by
        refine Expr.relabel_congr fun id hid => ?_
        exact (makeWay_later (Nat.le_trans hn (hfresh.within id hid).1)).symm
      refine perform_apart (φ := r.recoding.value) (T := s'.machine.distances) rfl ?_
        (fun _ => rfl) fun m hm => ?_
      · change Running.evaluate fuel (e.relabel (.later k)) s'.machine = _
        rw [hexpr, h.machine]
        exact (evaluate_equivariant r fuel e).run s.machine _ hs.host h.distances
      · rw [(evaluate_keeps fuel e _ _ hm).distances]
        exact h.distances

theorem step_apart (step : Step) : StepsApart n k (s.step fuel step) (s'.step fuel step) := by
  cases step with
  | request request =>
    cases request with
    | run source => exact run_apart hs hn h fuel source
    | evaluate source => exact evaluate_apart hs hn h fuel source
  | define name value =>
    have hdefine := (Relabeling.ofIds (makeWay n k)).recoding.define_store s.machine.store globals
      name value.value
    rw [Recoding.value_of_codeless _ value.codeless] at hdefine
    have hstore : s'.machine.store
        = (Relabeling.ofIds (makeWay n k)).recoding.store s.machine.store :=
      congrArg Machine.store h.machine
    refine .ended rfl ⟨h.nextId, ?_, h.distances⟩
    change { s'.machine with store := s'.machine.store.define globals name value.value } = _
    rw [hstore, hdefine]
    exact congrArg (fun m : Machine => { m with
      store := (Relabeling.ofIds (makeWay n k)).recoding.store
        (s.machine.store.define globals name value.value) }) h.machine
  | limit maxDepth =>
    refine .ended rfl ⟨h.nextId, ?_, h.distances⟩
    exact congrArg (fun m : Machine => { m with maxDepth }) h.machine

end

/-- Steps between sessions that are apart look the same. -/
theorem entry_apart {s₁ s₁' : Session} (reply : Option Reply) (h : Apart n k s s')
    (h₁ : Apart n k s₁ s₁') :
    s'.entry s₁' (reply.map (Relabeling.ofIds (makeWay n k)).reply)
      = (s.entry s₁ reply).relabel (.ofIds (makeWay n k)) := by
  have hprinted : s'.machine.writtenSince s₁'.machine = s.machine.writtenSince s₁.machine := by
    rw [h.machine, h₁.machine]
    rfl
  have hshown : s₁'.shows (reply.map (Relabeling.ofIds (makeWay n k)).reply)
      = s₁.shows reply := by
    unfold shows
    rw [h₁.machine]
    cases reply with
    | none => rfl
    | some reply =>
      cases reply with
      | error problems => rfl
      | ok value =>
        cases value with
        | none => rfl
        | some v => exact congrArg some (Recoding.display_store _ s₁.machine.store v)
  unfold entry
  rw [hprinted, hshown]
  rfl

theorem transcript_apart (hs : s.Owns) (hn : n ≤ s.nextId) (h : Apart n k s s') (fuel : Nat)
    (steps : List Step) :
    s'.transcript fuel steps
      = (s.transcript fuel steps).map (List.map (Entry.relabel (.ofIds (makeWay n k)))) := by
  induction steps generalizing s s' with
  | nil => rfl
  | cons first rest ih =>
    have hsteps := step_apart hs hn h fuel first
    cases hstep : s.step fuel first with
    | none =>
      cases hstep' : s'.step fuel first with
      | none => rw [transcript_cons_of_none rest hstep, transcript_cons_of_none rest hstep']; rfl
      | some _ =>
        rw [hstep, hstep'] at hsteps
        cases hsteps
    | some behind =>
      obtain ⟨reply, s₁⟩ := behind
      have hmoved := step_moved hstep
      cases hstep' : s'.step fuel first with
      | none =>
        rw [hstep, hstep'] at hsteps
        cases hsteps
      | some behind' =>
        obtain ⟨reply', s₁'⟩ := behind'
        rw [hstep, hstep'] at hsteps
        cases hsteps with
        | ended hreply h₁ =>
          have hrest := ih (hmoved.owns hs) (Nat.le_trans hn hmoved.nextId_le) h₁
          rw [transcript_cons_of_some rest hstep, transcript_cons_of_some rest hstep', hrest,
            hreply, entry_apart reply h h₁]
          cases s₁.transcript fuel rest <;> rfl

/-- A request that is refused, anywhere between the steps of a session. -/
theorem transcript_refused {bad : Request} {problems : List Problem}
    (hbad : bad.refusal? = some problems) (hs : s.Owns) (fuel : Nat) (before after : List Step) :
    ∃ f : NodeId → NodeId, Function.Injective f ∧
      s.transcript fuel (before ++ .request bad :: after)
        = (s.transcript fuel (before ++ after)).map fun entries =>
          entries.take before.length ++ ⟨some (.error problems), none, ""⟩ ::
            (entries.drop before.length).map (Entry.relabel (.ofIds f)) := by
  induction before generalizing s with
  | nil =>
    obtain ⟨next, hle, hanswer⟩ := answer_refused hbad fuel s
    have hstep : s.step fuel (.request bad)
        = some (some (.error problems), { s with nextId := next }) := by
      rw [step, hanswer]
      rfl
    have hentry : s.entry { s with nextId := next } (some (.error problems))
        = ⟨some (.error problems), none, ""⟩ :=
      congrArg (Entry.mk _ _) s.machine.writtenSince_self
    refine ⟨_, makeWay_injective s.nextId (next - s.nextId), ?_⟩
    rw [List.nil_append, transcript_cons_of_some after hstep, hentry,
      transcript_apart hs (Nat.le_refl _) (hs.skip hle) fuel after, Option.map_map]
    rfl
  | cons first rest ih =>
    cases hstep : s.step fuel first with
    | none =>
      refine ⟨fun id => id, fun _ _ h => h, ?_⟩
      rw [List.cons_append, List.cons_append, transcript_cons_of_none _ hstep,
        transcript_cons_of_none _ hstep]
      rfl
    | some behind =>
      obtain ⟨reply, s₁⟩ := behind
      obtain ⟨f, hf, hrest⟩ := ih ((step_moved hstep).owns hs)
      refine ⟨f, hf, ?_⟩
      rw [List.cons_append, List.cons_append, transcript_cons_of_some _ hstep,
        transcript_cons_of_some _ hstep, hrest, Option.map_map, Option.map_map]
      rfl

end Session

/-- **Static failures are invisible.** A request whose source has a fault, put between any two steps
of a session, is answered with the faults and prints nothing. Every other step has the reply, the
text for its value and the printed text that it has without the request. Only the identities in the
code of a replied value are others, and they are changed one to one. -/
theorem faulty_request_invisible (maxDepth : Nat) (output : Output) {host : Host} (fuel : Nat)
    (before after : List Step) {bad : Request} {problems : List Problem}
    (hhost : host.IgnoresLabels) (hbad : bad.refusal? = some problems) :
    ∃ f : NodeId → NodeId, Function.Injective f ∧
      (Session.initial maxDepth output host).transcript fuel (before ++ .request bad :: after)
        = ((Session.initial maxDepth output host).transcript fuel (before ++ after)).map
          fun entries =>
            entries.take before.length ++ ⟨some (.error problems), none, ""⟩ ::
              (entries.drop before.length).map (Entry.relabel (.ofIds f)) :=
  Session.transcript_refused hbad (Session.initial_owns maxDepth output hhost) fuel before after

/-- Steps that make a function with a local variable, and call it. -/
def makingSteps : List Step := [.request (.run "fun f(x) \x7b print x; \x7d")]

def callingSteps : List Step :=
  [.request (.run "\x7b var y = nil; f(y); \x7d"), .request (.evaluate "f")]

set_option maxRecDepth 1000 in
theorem faulty_line_between :
    ((Session.initial 8 .unlimited .nominal).transcript 60 (makingSteps ++ callingSteps)).map
        (List.map fun e => (e.shown, e.printed))
      = some [(none, ""), (none, "nil\n"), (some "<fn f>", "")] ∧
    ∃ f : NodeId → NodeId, Function.Injective f ∧
      (Session.initial 8 .unlimited .nominal).transcript 60
          (makingSteps ++ .request (.run "\x7b var z = a; var z = b; \x7d") :: callingSteps)
        = ((Session.initial 8 .unlimited .nominal).transcript 60
            (makingSteps ++ callingSteps)).map fun entries =>
          entries.take 1 ++ ⟨some (.error [.scope ⟨.duplicateBinding "z", 1⟩]), none, ""⟩ ::
            (entries.drop 1).map (Entry.relabel (.ofIds f)) := by
  have hhost : Host.nominal.IgnoresLabels := fun _ _ _ _ => rfl
  refine ⟨by cbv, ?_⟩
  exact faulty_request_invisible 8 .unlimited 60 makingSteps callingSteps hhost (by cbv)

end LoxLang
