import LoxLang.Proofs.Parsing.Identities
import LoxLang.Proofs.Running.Programs
import LoxLang.Proofs.Scoping.Resolution

/-!
# Reachable sessions

* `Sound`: a session whose machine is linked with itself, between two requests;
* `checkSource_linked`: a program that is accepted is linked with its spellings;
* `TracedSession.turn_ends`: every request settles, and leaves a session that is sound again;
* `Reachable.sound`: every reachable session is sound.
-/

namespace LoxLang

open Scoping

variable {ρ : Renaming} {w : World} {m : Machine}

/-! ## Accepted sources -/

theorem isStatic_map {α : Type} {problem : α → Problem} (h : ∀ a, (problem a).isStatic = true)
    (faults : List α) : ∀ p ∈ faults.map problem, p.isStatic = true := by
  intro p hp
  obtain ⟨a, -, rfl⟩ := List.mem_map.mp hp
  exact h a

/-- What is wrong with a source is found before anything of it runs. -/
theorem checkSource_static {source : String} {nextId next : NodeId} {problems : List Problem}
    (h : checkSource source nextId = (.error problems, next)) :
    ∀ p ∈ problems, p.isStatic = true := by
  obtain hparse | ⟨_, _, -, -, rfl⟩ := checkSource_eq_error h
  · obtain ⟨faults, -, rfl⟩ | ⟨_, errors, -, -, rfl⟩ := parseSource_eq_error hparse
    · exact isStatic_map (fun _ => rfl) faults
    · exact isStatic_map (fun _ => rfl) errors
  · simp [Problem.isStatic]

theorem parseExpressionSource_static {source : String} {nextId next : NodeId}
    {problems : List Problem} (h : parseExpressionSource source nextId = (.error problems, next)) :
    ∀ p ∈ problems, p.isStatic = true := by
  unfold parseExpressionSource at h
  split at h
  · cases h
    exact isStatic_map (fun _ => rfl) _
  · split at h <;> cases h
    simp [Problem.isStatic]

/-- A program that is accepted is linked with its spellings, and has no distances of nodes that
other programs have. -/
theorem checkSource_linked {source : String} {next : NodeId} {p p' : Program} {d : Distances}
    {placed : Site → Expr → Prop} (hw : Between ρ w m)
    (h : checkSource source w.next = (.ok ⟨p, d⟩, next))
    (hplaced : ∀ place ∈ p.placed, placed place.1 place.2) (hp : StmtsRespelled ρ d.of? [] p p') :
    (∀ id, id < w.next ∨ next ≤ id → d.of? id = none) ∧
      StmtsLinked ρ (w.withProgram d next placed).known .top [] p p' := by
  obtain ⟨hparse, hresolve⟩ := checkSource_eq_ok h
  obtain ⟨hregular, hfresh⟩ := parseSource_regular hparse
  constructor
  · intro id hid
    refine resolve_within hresolve id fun hmem => ?_
    obtain ⟨hfirst, hlast⟩ := hfresh.within id hmem
    obtain hbefore | hbehind := hid
    · exact Nat.not_lt_of_le hfirst hbefore
    · exact Nat.not_lt_of_le hbehind hlast
  · have hknown : Known (w.machine.distances.extend d).of? d.of? next d (Stmt.allIds p) := by
      constructor
      · exact hfresh.nodup
      · exact fun id hid => (hfresh.within id hid).2
      · intro id hid
        rw [DistanceTable.of?_extend, hw.fresh id (hfresh.within id hid).1, Option.or_none]
      · exact fun _ _ => rfl
    exact resolve_linked hregular hresolve hknown hplaced hp

mutual

/-- An expression without distances, in the global scope. -/
theorem ExprLinked.global {K : Findings} (e : Expr)
    (h : ∀ id ∈ e.ids, id < K.next ∧ K.distance? id = none)
    (hplaced : ∀ part ∈ e.parts, K.placed .top part) : ExprLinked ρ K .top [] e e := by
  have hself : K.placed (siteOf .top []) e := hplaced e e.mem_parts_self
  match e with
  | .literal _ => exact .literal hself
  | .grouping inner =>
    exact .grouping hself (ExprLinked.global inner h (List.forall_mem_cons.mp hplaced).2)
  | .variable id name =>
    obtain ⟨hbelow, hnone⟩ := h id (List.mem_singleton_self id)
    exact .var hself ⟨hbelow, hnone⟩ (fun h => nomatch h)
  | .this id line =>
    obtain ⟨hbelow, hnone⟩ := h id (List.mem_singleton_self id)
    exact .this hself ⟨hbelow, hnone⟩ (fun h => nomatch h) rfl
  | .assign id name value =>
    rw [Expr.ids_assign] at h
    obtain ⟨hvalue, hid⟩ := List.forall_mem_append.mp h
    obtain ⟨hbelow, hnone⟩ := hid id (List.mem_singleton_self id)
    exact .assign hself ⟨hbelow, hnone⟩ (fun h => nomatch h)
      (ExprLinked.global value hvalue (List.forall_mem_cons.mp hplaced).2)
  | .unary _ _ operand =>
    exact .unary hself (ExprLinked.global operand h (List.forall_mem_cons.mp hplaced).2)
  | .binary _ _ left right =>
    rw [Expr.ids_binary] at h
    obtain ⟨hleft, hright⟩ := List.forall_mem_append.mp h
    obtain ⟨hparts, hparts'⟩ := List.forall_mem_append.mp (List.forall_mem_cons.mp hplaced).2
    exact .binary hself (ExprLinked.global left hleft hparts)
      (ExprLinked.global right hright hparts')
  | .logical _ left right =>
    rw [Expr.ids_logical] at h
    obtain ⟨hleft, hright⟩ := List.forall_mem_append.mp h
    obtain ⟨hparts, hparts'⟩ := List.forall_mem_append.mp (List.forall_mem_cons.mp hplaced).2
    exact .logical hself (ExprLinked.global left hleft hparts)
      (ExprLinked.global right hright hparts')
  | .call callee line arguments =>
    rw [Expr.ids_call] at h
    obtain ⟨hcallee, harguments⟩ := List.forall_mem_append.mp h
    obtain ⟨hparts, hparts'⟩ := List.forall_mem_append.mp (List.forall_mem_cons.mp hplaced).2
    let pairs := arguments.map fun a => (a, a)
    have hpairs : ∀ a ∈ pairs, ExprLinked ρ K .top [] a.1 a.2 := by
      intro a ha
      obtain ⟨e, he, rfl⟩ := List.mem_map.mp ha
      exact ExprLinked.globalAll arguments harguments hparts' e he
    have hfirst : pairs.map (·.1) = arguments := by simp [pairs, Function.comp_def]
    have hsecond : pairs.map (·.2) = arguments := by simp [pairs, Function.comp_def]
    have hcall : ExprLinked ρ K .top [] (.call callee line (pairs.map (·.1)))
        (.call callee line (pairs.map (·.2))) :=
      .call (by rwa [hfirst]) (ExprLinked.global callee hcallee hparts) hpairs
    rwa [hfirst, hsecond] at hcall
  | .get object _ =>
    exact .get hself (ExprLinked.global object h (List.forall_mem_cons.mp hplaced).2)
  | .set object _ value =>
    rw [Expr.ids_set] at h
    obtain ⟨hvalue, hobject⟩ := List.forall_mem_append.mp h
    obtain ⟨hparts, hparts'⟩ := List.forall_mem_append.mp (List.forall_mem_cons.mp hplaced).2
    exact .set hself (ExprLinked.global object hobject hparts')
      (ExprLinked.global value hvalue hparts)

theorem ExprLinked.globalAll {K : Findings} (es : List Expr)
    (h : ∀ id ∈ Expr.allIds es, id < K.next ∧ K.distance? id = none)
    (hplaced : ∀ part ∈ Expr.allParts es, K.placed .top part) :
    ∀ e ∈ es, ExprLinked ρ K .top [] e e := by
  match es with
  | [] =>
    intro e he
    cases he
  | e :: rest =>
    rw [Expr.allIds_cons] at h
    obtain ⟨he, hrest⟩ := List.forall_mem_append.mp h
    obtain ⟨hparts, hparts'⟩ := List.forall_mem_append.mp hplaced
    exact List.forall_mem_cons.mpr
      ⟨ExprLinked.global e he hparts, ExprLinked.globalAll rest hrest hparts'⟩

end

/-- An expression that is accepted is linked with itself. -/
theorem parseExpressionSource_linked {source : String} {next : NodeId} {e : Expr}
    {placed : Site → Expr → Prop} (hw : Between ρ w m)
    (h : parseExpressionSource source w.next = (.ok e, next))
    (hplaced : ∀ part ∈ e.parts, placed .top part) :
    ExprLinked ρ (w.withProgram [] next placed).known .top [] e e := by
  have hfresh := parseExpressionSource_fresh h
  refine ExprLinked.global e (fun id hid => ?_) hplaced
  obtain ⟨hfirst, hlast⟩ := hfresh.within id hid
  exact ⟨hlast, hw.fresh id hfirst⟩

/-! ## Sessions -/

namespace TracedSession

/-- The expression was accepted in the session, and stands at the site. -/
def Placed (s : TracedSession) (site : Site) (e : Expr) : Prop :=
  ∃ r ∈ s.history, (site, e) ∈ r.placed

/-- The machine of the session is linked with itself. -/
def Sound (ρ : Renaming) (s : TracedSession) : Prop :=
  ∃ labels, Between ρ ⟨labels, s.traced, s.nextId, s.Placed⟩ s.traced.machine

/-- How a request ends. If it is answered, the session behind it is sound, and the answer tells
whether a variable was assigned early. Such a variable is one of the innermost scope. -/
structure Ends (ρ : Renaming) (t : Turn) : Prop where
  visits : ∀ v ∈ t.visits, v.Sound t.after.Placed
  sound : ∀ reply, t.answer? = some reply → t.after.Sound ρ
  early : (∃ a d, t.answer? = some (.error [.runtime (.unresolved a d)])) ↔
    t.after.traced.early = true
  assigned : t.after.traced.early = true → ∃ v ∈ t.visits, v.AssignsEarly
  innermost : ∀ a d, t.answer? = some (.error [.runtime (.unresolved a d)]) → d = 0

theorem initial_sound (ρ : Renaming) (maxDepth : Nat) (output : Output) (host : Host) :
    (initial maxDepth output host).Sound ρ := by
  have hclock : ∀ w, Bindings.Linked (ρ.inScope none) (ValueLinked ρ w)
      [("clock", .native .clock)] [("clock", .native .clock)] := fun _ => .cons .clock .nil
  have hframes : ∀ (f : FrameId) (l : Option Label), [(none : Option Label)][f]? = some l →
      l = none ∧ f = globals := by
    intro f l hl
    obtain _ | f := f
    · cases hl
      exact ⟨rfl, rfl⟩
    · cases hl
  refine ⟨[none], ⟨?_, rfl, rfl, rfl, rfl, rfl, rfl, rfl, ?_⟩, rfl, ?_⟩
  · constructor
    · rfl
    · rfl
    · rfl
    · intro f l hl
      obtain ⟨rfl, rfl⟩ := hframes f l hl
      exact ⟨rfl, hclock _, fun _ h => (nomatch h), fun _ h => (nomatch h)⟩
    · rfl
    · intro o ob ob' ho
      cases ho
    · rfl
    · rfl
  · intro v hv
    cases hv
  · exact fun id _ => DistanceTable.of?_empty id

theorem Sound.facing {s : TracedSession} (h : s.Sound ρ) (request : Request) :
    ∃ labels, Between ρ ⟨labels, (s.facing request).traced, s.nextId, s.Placed⟩
      s.traced.machine := by
  obtain ⟨labels, hlinked, hframe, hfresh⟩ := h
  have hlater : Later none ⟨labels, s.traced, s.nextId, s.Placed⟩
      ⟨labels, (s.facing request).traced, s.nextId, s.Placed⟩ :=
    .of_frames rfl rfl (Nat.le_refl _) (fun _ _ => rfl) (Nat.le_refl _) (fun _ _ h => h)
      fun _ _ => rfl
  refine ⟨labels, ?_, hframe, hfresh⟩
  exact { hlinked with
    store := hlinked.store.later hlater rfl rfl
    visits := fun v hv => nomatch hv }

theorem Placed.facing {s : TracedSession} {site : Site} {e : Expr} (h : s.Placed site e)
    (request : Request) : (s.facing request).Placed site e := by
  obtain ⟨r, hr, hplaced⟩ := h
  exact ⟨r, List.mem_cons_of_mem _ hr, hplaced⟩

/-- A refused request has no visits. -/
theorem refused_ends {s : TracedSession} (h : s.Sound ρ) (request : Request)
    {problems : List Problem} {nextId : NodeId} (hnext : s.nextId ≤ nextId)
    (hproblems : ∀ p ∈ problems, p.isStatic = true) :
    Ends ρ ⟨some (.error problems), { s.facing request with nextId }⟩ := by
  obtain ⟨labels, hw⟩ := h.facing request
  constructor
  · intro v hv
    cases hv
  · intro reply _
    exact ⟨labels, hw.withProgram (d := []) hnext (fun _ _ => rfl) fun _ _ h => h.facing request⟩
  · constructor
    · rintro ⟨a, d, hunresolved⟩
      cases hunresolved
      have hstatic := hproblems _ (List.mem_singleton_self _)
      cases hstatic
    · intro hearly
      cases hearly
  · intro hearly
    cases hearly
  · intro a d hunresolved
    cases hunresolved
    cases hproblems _ (List.mem_singleton_self _)

theorem perform_ends {α : Type} {s : TracedSession} {x : Tracing α} {y : Run α}
    {R : World → α → α → Prop} {f : α → Option Value} (hxy : Erases x y)
    (h : Settles ρ s.nextId s.Placed R (x s.traced) (y s.traced.machine)) :
    Ends ρ (s.perform (do return f (← x))) := by
  have herase := hxy s.traced
  unfold perform
  generalize hx : x s.traced = out at h herase
  generalize hy : y s.traced.machine = out' at h herase
  cases h with
  | @ok w m a b hbetween hnext hplaced hcalm _ =>
    cases herase
    rw [Action.bind_of_ok hx]
    have hnot : ¬w.left.early = true := by simp [hcalm]
    constructor
    · intro v hv
      have hsound := hbetween.linked.visits v hv
      rwa [hplaced] at hsound
    · intro reply _
      have hsame : (⟨w.labels, w.left, s.nextId, s.Placed⟩ : World) = w := by
        rw [← hnext, ← hplaced]
      exact ⟨w.labels, hsame ▸ hbetween⟩
    · refine iff_of_false ?_ hnot
      rintro ⟨_, _, h⟩
      cases h
    · exact fun hearly => absurd hearly hnot
    · intro _ _ h
      cases h
  | @error w m e e' hbetween hnext hplaced _ hblames =>
    cases herase
    rw [Action.bind_of_error hx]
    constructor
    · intro v hv
      have hsound := hbetween.linked.visits v hv
      rwa [hplaced] at hsound
    · intro reply _
      have hsame : (⟨w.labels, w.left, s.nextId, s.Placed⟩ : World) = w := by
        rw [← hnext, ← hplaced]
      exact ⟨w.labels, hsame ▸ hbetween⟩
    · refine Iff.trans ?_ hblames.unresolved.symm
      constructor
      · rintro ⟨a, d, h⟩
        cases h
        exact ⟨a, d, rfl⟩
      · rintro ⟨a, d, rfl⟩
        exact ⟨a, d, rfl⟩
    · exact hblames.visited
    · intro a d h
      cases h
      exact hblames.innermost a d rfl
  | @outOfFuel t hvisits hcalm =>
    rw [Action.bind_of_error hx]
    have hnot : ¬t.early = true := by simp [hcalm]
    constructor
    · exact hvisits
    · intro reply h
      cases h
    · refine iff_of_false ?_ hnot
      rintro ⟨_, _, h⟩
      cases h
    · exact fun hearly => absurd hearly hnot
    · intro _ _ h
      cases h

/-- **Every request ends well** in a sound session. -/
theorem turn_ends {s : TracedSession} (h : s.Sound ρ) (fuel : Nat) (request : Request) :
    Ends ρ (s.turn fuel request) := by
  obtain ⟨labels, hw⟩ := h.facing request
  have hfacing : ∀ site e, s.Placed site e → (s.facing request).Placed site e :=
    fun _ _ h => h.facing request
  cases request with
  | run source =>
    have hid : (s.facing (.run source)).nextId = s.nextId := rfl
    have hnext := checkSource_advances source s.nextId
    simp only [turn, hid]
    generalize hcheck : checkSource source s.nextId = out at hnext
    obtain ⟨answer, nextId⟩ := out
    cases answer with
    | error problems => exact refused_ends h _ hnext (checkSource_static hcheck)
    | ok checked =>
      have hplaced : ∀ place ∈ checked.program.placed,
          (s.facing (.run source)).Placed place.1 place.2 := by
        intro place hplace
        refine ⟨_, List.mem_cons_self, ?_⟩
        simpa only [Issued.placed, hcheck] using hplace
      obtain ⟨hfar, hlinked⟩ := checkSource_linked hw hcheck hplaced (.refl Plain.nil _)
      have hruns := runProgram_runs fuel hw rfl hnext hfar hfacing hlinked
      exact perform_ends (s := { s.facing (.run source) with nextId })
        (Tracing.runProgram_erases fuel _ _) hruns
  | evaluate source =>
    have hid : (s.facing (.evaluate source)).nextId = s.nextId := rfl
    have hnext := parseExpressionSource_advances source s.nextId
    simp only [turn, hid]
    generalize hparse : parseExpressionSource source s.nextId = out at hnext
    obtain ⟨answer, nextId⟩ := out
    cases answer with
    | error problems => exact refused_ends h _ hnext (parseExpressionSource_static hparse)
    | ok e =>
      have hplaced : ∀ part ∈ e.parts, (s.facing (.evaluate source)).Placed .top part := by
        intro part hpart
        refine ⟨_, List.mem_cons_self, ?_⟩
        have hmem : (Site.top, part) ∈ e.placed .top := List.mem_map_of_mem hpart
        simpa only [Issued.placed, hparse] using hmem
      have hlinked := parseExpressionSource_linked hw hparse hplaced
      have hruns := evaluateTop_runs fuel hw rfl hnext hfacing hlinked
      exact perform_ends (s := { s.facing (.evaluate source) with nextId })
        (Tracing.evaluate_erases fuel .top e) hruns

theorem Reachable.sound {maxDepth : Nat} {output : Output} {host : Host} {s : TracedSession}
    (h : Reachable maxDepth output host s) : s.Sound ρ := by
  induction h with
  | initial => exact initial_sound ρ maxDepth output host
  | turn _ hreply ih => exact (turn_ends ih _ _).sound _ hreply

end TracedSession

/-- A request that fails for a distance does so in the innermost scope. -/
theorem Session.Reachable.innermost {maxDepth : Nat} {output : Output} {host : Host}
    {s s' : Session} (h : Session.Reachable maxDepth output host s) {fuel : Nat} {request : Request}
    {a : String} {d : Nat}
    (hanswer : s.answer fuel request = some (.error [.runtime (.unresolved a d)], s')) : d = 0 := by
  obtain ⟨t, ht, rfl⟩ := h.traced
  rw [← TracedSession.turn_erases, Option.map_eq_some_iff] at hanswer
  obtain ⟨reply, hreply, heq⟩ := hanswer
  cases heq
  exact (TracedSession.turn_ends (ht.sound (ρ := ⟨"", ""⟩)) fuel request).innermost a d hreply

end LoxLang
