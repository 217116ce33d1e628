import Mathlib
import LoxLang.Proofs.Running.Ownership
import LoxLang.Proofs.Sources

/-!
# Sources run one after the other

A session that runs one source and then another does the same as one that runs both in a row as a
single source. The code that it is left with has other lines and identities, and the distances that
two tables held are in one.

* `Machine.AlikeUpTo`: two machines that differ in lines, and in identities as a renaming says;
* `RunsAlike`: two answers that differ in the line of an error, with machines alike behind them;
* `joined_source_runs_alike`: the run of a joined source, compared with two runs.
-/

namespace LoxLang

open Running

/-- Every line is set to zero. -/
def Relabeling.oneLine : Relabeling := .ofLines fun _ => 0

/-- The two machines are the same but for the lines in the code of their stores, when the identities
of the first one are renamed. -/
structure Machine.AlikeUpTo (f : NodeId → NodeId) (m m' : Machine) : Prop where
  store : Relabeling.oneLine.recoding.store m'.store
    = (Relabeling.oneLine.comp (.ofIds f)).recoding.store m.store
  distances (id : NodeId) : m'.distances.of? (f id) = m.distances.of? id
  frame : m'.frame = m.frame
  depth : m'.depth = m.depth
  maxDepth : m'.maxDepth = m.maxDepth
  output : m'.output = m.output
  host : m'.host = m.host
  readings : m'.readings = m.readings

/-- Both answers are a success or an error of the same kind, with machines alike behind them, or
there is no answer. -/
inductive RunsAlike (f : NodeId → NodeId) : Option (Except (List Problem) Unit × Session) →
    Option (Except (List Problem) Unit × Session) → Prop
  | ok {s s' : Session} :
      s.machine.AlikeUpTo f s'.machine → RunsAlike f (some (.ok (), s)) (some (.ok (), s'))
  | error {e e' : RuntimeError} {s s' : Session} :
      Relabeling.oneLine.recoding.error e' = Relabeling.oneLine.recoding.error e →
      s.machine.AlikeUpTo f s'.machine →
      RunsAlike f (some (.error [.runtime e], s)) (some (.error [.runtime e'], s'))
  | outOfFuel : RunsAlike f none none

theorem runStatements_append {fuel : Nat} {p p' : Program} {m m₁ : Machine}
    (h : runStatements fuel p m = .ok () m₁) :
    runStatements fuel (p ++ p') m = runStatements fuel p' m₁ := by
  induction p generalizing m with
  | nil =>
    cases h
    rfl
  | cons s rest ih =>
    unfold runStatements at h
    cases hs : execute fuel s m with
    | ok c m₂ =>
      rw [hs] at h
      simp only [List.cons_append, runStatements, hs]
      exact ih h
    | error e m₂ =>
      rw [hs] at h
      cases h
    | outOfFuel =>
      rw [hs] at h
      cases h

/-- Machines are alike that are the same without lines and with the identities renamed. -/
theorem Machine.AlikeUpTo.of_machine {f : NodeId → NodeId} {T : DistanceTable} {m m' : Machine}
    (h : Relabeling.oneLine.machine T m' = (Relabeling.oneLine.comp (.ofIds f)).machine T m)
    (hdistances : ∀ id, m'.distances.of? (f id) = m.distances.of? id) : m.AlikeUpTo f m' := by
  obtain ⟨hstore, hframe, hdepth, -, hmaxDepth, houtput, hhost, hreadings⟩ := Machine.mk.inj h
  exact ⟨hstore, hdistances, hframe, hdepth, hmaxDepth, houtput, hhost, hreadings⟩

namespace Session

/-- A program was run without an error: its machine is left by its statements. -/
theorem run_eq_ok {fuel : Nat} {source : String} {s s₁ : Session} {c : Checked} {n : NodeId}
    (hcheck : checkSource source s.nextId = (.ok c, n))
    (h : s.run fuel source = some (.ok (), s₁)) :
    s₁.nextId = n ∧
      runStatements fuel c.program (s.machine.extend c.distances) = .ok () s₁.machine := by
  simp only [run, hcheck, perform, runProgram_apply, runToEnd] at h
  cases hrun : runStatements fuel c.program (s.machine.extend c.distances) with
  | ok u m₁ =>
    rw [Action.bind_of_ok hrun] at h
    unfold Run.flush at h
    cases hflush : m₁.output.flushRefusal? with
    | none =>
      simp only [hflush] at h
      cases h
      exact ⟨rfl, rfl⟩
    | some reason =>
      simp only [hflush] at h
      cases h
  | error e m₁ =>
    rw [Action.bind_of_error hrun] at h
    cases h
  | outOfFuel =>
    rw [Action.bind_of_outOfFuel hrun] at h
    cases h

end Session

/-- Identities from `n` on make way for others. -/
def makeWay (n more : NodeId) (id : NodeId) : NodeId := if id < n then id else id + more

theorem makeWay_spares (n more : NodeId) : Spares n (makeWay n more) where
  below id hid := if_pos hid
  above id hid := by
    unfold makeWay
    rw [if_neg (Nat.not_lt_of_le hid)]
    exact Nat.le_trans hid (Nat.le_add_right _ _)

/-- The programs got their identities one after the other, from `n` to `n₁` and on to `n₂`. -/
structure Consecutive (n n₁ n₂ : NodeId) (c₁ c₂ : Checked) : Prop where
  first : Fresh n n₁ (Stmt.allIds c₁.program)
  second : Fresh n₁ n₂ (Stmt.allIds c₂.program)
  firstOwn : c₁.distances.Within (Stmt.allIds c₁.program)
  secondOwn : c₂.distances.Within (Stmt.allIds c₂.program)

theorem consecutive {first second : String} {n n₁ n₂ : NodeId} {c₁ c₂ : Checked}
    (h₁ : checkSource first n = (.ok c₁, n₁)) (h₂ : checkSource second n₁ = (.ok c₂, n₂)) :
    Consecutive n n₁ n₂ c₁ c₂ := by
  obtain ⟨hparse₁, hresolve₁⟩ := checkSource_eq_ok h₁
  obtain ⟨hparse₂, hresolve₂⟩ := checkSource_eq_ok h₂
  exact ⟨(parseSource_regular hparse₁).2, (parseSource_regular hparse₂).2,
    resolve_within hresolve₁, resolve_within hresolve₂⟩

section
variable {m m₁ : Machine} {n n₁ n₂ : NodeId} {c₁ c₂ : Checked} {f : NodeId → NodeId} {fuel : Nat}
  (hm : m.IdsBelow n) (hc : Consecutive n n₁ n₂ c₁ c₂)
  (hf : Function.Injective f) (hbelow : ∀ id, id < n → f id = id)

section
include hm hf hbelow

/-- One table with the distances of two programs in a row holds what two tables do. -/
theorem of?_joined (id : NodeId) :
    (m.distances.extend (Distances.relabel (.ofIds f) (c₂.distances ++ c₁.distances))).of? (f id)
      = ((m.distances.extend c₁.distances).extend c₂.distances).of? id := by
  have hentries : (Distances.relabel (.ofIds f) (c₂.distances ++ c₁.distances)).of? (f id)
      = (c₂.distances ++ c₁.distances).of? id :=
    Distances.of?_relabel (r := .ofIds f) hf _ id
  have hearlier : m.distances.of? (f id) = m.distances.of? id :=
    hm.matches_self (.of_injective hf hbelow) id
  rw [DistanceTable.of?_extend, hentries, hearlier, Distances.of?_append,
    DistanceTable.of?_extend, DistanceTable.of?_extend, Option.or_assoc]

end

include hm hc hf hbelow

/-- The first program finds its distances in the joined table, and no others. -/
theorem first_matches :
    (Relabeling.ofIds fun id => f (makeWay n₁ n₂ id)).recoding.Matches
      (m.distances.extend c₁.distances)
      (m.distances.extend (Distances.relabel (.ofIds f) (c₂.distances ++ c₁.distances))) := by
  intro id
  have hfirst := hm.extend hc.firstOwn hc.first
  change (m.distances.extend _).of? (f (makeWay n₁ n₂ id)) = _
  rw [of?_joined hm hf hbelow, DistanceTable.of?_extend]
  by_cases hid : id < n₁
  · have hother : id ∉ Stmt.allIds c₂.program := fun h =>
      absurd hid (Nat.not_lt_of_le (hc.second.within id h).1)
    rw [(makeWay_spares n₁ n₂).below id hid, hc.secondOwn id hother, Option.none_or]
  · have hid := Nat.le_of_not_lt hid
    have hway : makeWay n₁ n₂ id = id + n₂ := if_neg (Nat.not_lt_of_le hid)
    have hother : id + n₂ ∉ Stmt.allIds c₂.program := fun h =>
      absurd (hc.second.within _ h).2 (Nat.not_lt_of_le (Nat.le_add_left _ _))
    have hnone : (m.distances.extend c₁.distances).of? id = none := hfirst.distances id hid
    have hnone' : (m.distances.extend c₁.distances).of? (id + n₂) = none :=
      hfirst.distances _ (Nat.le_trans hid (Nat.le_add_right _ _))
    rw [hway, hc.secondOwn _ hother, hnone, hnone']
    rfl

/-- **The first part of a joined program** does what the first program does by itself. -/
theorem first_joined (hhost : m.host.IgnoresLabels) (hrest : m.AtRest)
    (hrun : runStatements fuel c₁.program (m.extend c₁.distances) = .ok () m₁)
    {d : Distances} (hd : d = Distances.relabel (.ofIds f) (c₂.distances ++ c₁.distances)) :
    runStatements fuel (c₁.program.relabel (.ofIds f)) (m.extend d)
      = .ok () ((Relabeling.ofIds f).machine (m.distances.extend d) m₁) := by
  let g := fun id => f (makeWay n₁ n₂ id)
  -- The second program's identities make way, as they are in the joined table already.
  have hspares : Spares n₁ (makeWay n₁ n₂) := makeWay_spares n₁ n₂
  have hg : Spares n g := (Spares.of_injective hf hbelow).comp (hspares.mono hc.first.le)
  have hmatches : (Relabeling.ofIds g).recoding.Matches (m.distances.extend c₁.distances)
      (m.distances.extend d) := hd ▸ first_matches hm hc hf hbelow
  have hsame := runStatements_equivariant (.ofIds g) fuel c₁.program (m.extend c₁.distances)
    (m.distances.extend d) hhost hmatches
  have hprogram : Stmt.allRelabel (.ofIds g) c₁.program = c₁.program.relabel (.ofIds f) := by
    refine Stmt.allRelabel_congr rfl fun id hid => ?_
    exact congrArg f (hspares.below id (hc.first.within id hid).2)
  have hstart : (Relabeling.ofIds g).machine (m.distances.extend d) (m.extend c₁.distances)
      = m.extend d := by
    change { m with
      store := (Relabeling.ofIds g).recoding.store m.store, distances := m.distances.extend d } = _
    rw [hm.store g hg]
    rfl
  have hend : (Relabeling.ofIds g).machine (m.distances.extend d) m₁
      = (Relabeling.ofIds f).machine (m.distances.extend d) m₁ := by
    have hm₁ : m₁.IdsBelow n₁ := (hm.extend hc.firstOwn hc.first).runStatements hhost
      ⟨hrest.frame, hrest.depth⟩ (fun id hid => (hc.first.within id hid).2) (by rw [hrun]; rfl)
    have hstore : (Relabeling.ofIds g).recoding.store m₁.store
        = (Relabeling.ofIds f).recoding.store m₁.store := by
      change ((Relabeling.ofIds f).comp (.ofIds (makeWay n₁ n₂))).recoding.store m₁.store = _
      rw [Relabeling.store_comp, hm₁.store _ hspares]
    unfold Relabeling.machine
    rw [hstore]
  rw [hprogram, hstart, hrun] at hsame
  rw [hsame]
  exact congrArg (Outcome.ok ()) hend

end

section
variable {m₁ : Machine} {p : Program} {d : Distances} {T : DistanceTable} {f : NodeId → NodeId}

/-- **The second part of a joined program** does behind the first one what the second program does
by itself, but for lines. -/
theorem second_joined (fuel : Nat) (line : Nat → Nat) (hhost : m₁.host.IgnoresLabels)
    (hT : ∀ id, T.of? (f id) = (m₁.distances.extend d).of? id) :
    Relabeling.oneLine.outcome T (fun u => u)
        (runToEnd fuel ((p.relabel (.ofLines line)).relabel (.ofIds f))
          ((Relabeling.ofIds f).machine T m₁))
      = (Relabeling.oneLine.comp (.ofIds f)).outcome T (fun u => u)
        (runToEnd fuel p (m₁.extend d)) := by
  have hsecond := runToEnd_relabel (Relabeling.oneLine.comp (.ofIds f)) fuel p
    (m₁.extend d) T hhost hT
  have hjoined := runToEnd_relabel .oneLine fuel ((p.relabel (.ofLines line)).relabel (.ofIds f))
    ((Relabeling.ofIds f).machine T m₁) T hhost fun _ => rfl
  have hprogram : ((p.relabel (.ofLines line)).relabel (.ofIds f)).relabel .oneLine
      = p.relabel (Relabeling.oneLine.comp (.ofIds f)) := by
    rw [Program.relabel, Program.relabel, Program.relabel, Stmt.allRelabel_allRelabel,
      Stmt.allRelabel_allRelabel]
    rfl
  have hmachine : Relabeling.oneLine.machine T ((Relabeling.ofIds f).machine T m₁)
      = (Relabeling.oneLine.comp (.ofIds f)).machine T (m₁.extend d) := by
    unfold Relabeling.machine Machine.extend
    rw [Relabeling.store_comp]
  rw [hprogram, hmachine] at hjoined
  exact hjoined.symm.trans hsecond

/-- Actions with the same outcome, but for lines, give answers that are alike. -/
theorem Session.perform_alike {x y : Run Unit} {s s' : Session}
    (h : Relabeling.oneLine.outcome T (fun u => u) (y s'.machine)
      = (Relabeling.oneLine.comp (.ofIds f)).outcome T (fun u => u) (x s.machine))
    (hdistances : ∀ m m', (x s.machine).state? = some m → (y s'.machine).state? = some m' →
      ∀ id, m'.distances.of? (f id) = m.distances.of? id) :
    RunsAlike f (s.perform x) (s'.perform y) := by
  unfold perform
  cases hx : x s.machine <;> cases hy : y s'.machine <;> rw [hx, hy] at h
  case ok.ok =>
    have hmachine := (Outcome.ok.inj h).2
    exact .ok (.of_machine hmachine (hdistances _ _ (by rw [hx]; rfl) (by rw [hy]; rfl)))
  case error.error =>
    obtain ⟨herror, hmachine⟩ := Outcome.error.inj h
    exact .error herror (.of_machine hmachine (hdistances _ _ (by rw [hx]; rfl) (by rw [hy]; rfl)))
  case outOfFuel.outOfFuel => exact .outOfFuel
  -- Outcomes of two kinds differ in whatever lines and identities.
  all_goals cases h

end

/-- A session that owns its identities runs a joined source as it does the two sources. -/
theorem Session.run_joined {s s₁ : Session} {first second : String} {n₁ n₂ n : NodeId}
    {c₁ c₂ c : Checked} {f : NodeId → NodeId} {fuel : Nat} {line : Nat → Nat} (hs : s.Owns)
    (h₁ : checkSource first s.nextId = (.ok c₁, n₁)) (h₂ : checkSource second n₁ = (.ok c₂, n₂))
    (h : checkSource (first ++ "\n" ++ second) s.nextId = (.ok c, n))
    (hf : Function.Injective f) (hbelow : ∀ id, id < s.nextId → f id = id)
    (hprogram : c.program
      = Program.relabel (.ofIds f) (c₁.program ++ c₂.program.relabel (.ofLines line)))
    (hdistances : c.distances = Distances.relabel (.ofIds f) (c₂.distances ++ c₁.distances))
    (hrun : s.run fuel first = some (.ok (), s₁)) :
    RunsAlike f (s₁.run fuel second) (s.run fuel (first ++ "\n" ++ second)) := by
  have hc := consecutive h₁ h₂
  obtain ⟨hnext, hfirst⟩ := run_eq_ok h₁ hrun
  have hkept : Kept (s.machine.extend c₁.distances) s₁.machine :=
    runStatements_kept fuel c₁.program ⟨hs.atRest.frame, hs.atRest.depth⟩ (by rw [hfirst]; rfl)
  have hrest : s₁.machine.AtRest := hkept.atRest ⟨hs.atRest.frame, hs.atRest.depth⟩
  have htables : ∀ id, (s.machine.distances.extend c.distances).of? (f id)
      = (s₁.machine.distances.extend c₂.distances).of? id := by
    intro id
    rw [hdistances, hkept.distances]
    exact of?_joined hs.ids hf hbelow id
  have hjoined : runStatements fuel c.program (s.machine.extend c.distances)
      = runStatements fuel ((c₂.program.relabel (.ofLines line)).relabel (.ofIds f))
        ((Relabeling.ofIds f).machine (s.machine.distances.extend c.distances) s₁.machine) := by
    rw [hprogram, Program.relabel, Stmt.allRelabel_append]
    exact runStatements_append
      (first_joined hs.ids hc hf hbelow hs.host hs.atRest hfirst hdistances)
  have hwhole : runProgram fuel c.program c.distances s.machine
      = runToEnd fuel ((c₂.program.relabel (.ofLines line)).relabel (.ofIds f))
        ((Relabeling.ofIds f).machine (s.machine.distances.extend c.distances) s₁.machine) := by
    rw [runProgram_apply]
    exact Action.bind_congr hjoined fun _ => Run.flush
  have hsecond : s₁.run fuel second
      = { s₁ with nextId := n₂ }.perform (runProgram fuel c₂.program c₂.distances) := by
    rw [← hnext] at h₂
    simp only [run, h₂]
  have hthird : s.run fuel (first ++ "\n" ++ second)
      = { s with nextId := n }.perform (runProgram fuel c.program c.distances) := by
    simp only [run, h]
  rw [hsecond, hthird]
  refine perform_alike (T := s.machine.distances.extend c.distances) ?_ ?_
  · dsimp only
    rw [hwhole, runProgram_apply]
    exact second_joined fuel line (hkept.host ▸ hs.host) htables
  · intro m m' hm hm'
    have hkept₁ := runProgram_kept hrest hm
    have hkept₂ := runProgram_kept hs.atRest hm'
    rw [hkept₁.distances, hkept₂.distances]
    exact htables

/-- **One source or several.** In whatever session, two sources that are accepted by themselves are
accepted with a newline between them. The statements are those of the first one and then those of
the second one, as many lines further down as the first one has, and the distances are those of
both, with the identities renamed one to one. If the first source runs without an error, the joined
one has the same answer, the same output and the same session behind it as the second one has
then, but for lines and the renamed identities. -/
theorem joined_source_runs_alike (maxDepth : Nat) (output : Output) {host : Host} {fuel₀ : Nat}
    {steps : List Step} {replies : List (Option Reply)} {s : Session} {first second : String}
    (hhost : host.IgnoresLabels)
    (hs : (Session.initial maxDepth output host).follow fuel₀ steps = some (replies, s))
    (hfirst : Accepted first) (hsecond : Accepted second) :
    ∃ c₁ n₁ c₂ n₂ c n f, checkSource first s.nextId = (.ok c₁, n₁) ∧
      checkSource second n₁ = (.ok c₂, n₂) ∧
      checkSource (first ++ "\n" ++ second) s.nextId = (.ok c, n) ∧
      Function.Injective f ∧ (∀ id, id < s.nextId → f id = id) ∧
      c.program = Program.relabel (.ofIds f)
        (c₁.program ++ c₂.program.relabel (.ofLines (· + (scan first).endLine))) ∧
      c.distances = Distances.relabel (.ofIds f) (c₂.distances ++ c₁.distances) ∧
      ∀ fuel s₁, s.run fuel first = some (.ok (), s₁) →
        RunsAlike f (s₁.run fuel second) (s.run fuel (first ++ "\n" ++ second)) := by
  have howns := Session.follow_owns (Session.initial_owns maxDepth output hhost) hs
  obtain ⟨c₁, n₁, h₁⟩ := hfirst.check s.nextId
  obtain ⟨c₂, n₂, h₂⟩ := hsecond.check n₁
  obtain ⟨c, n, f, h, hf, hbelow, hprogram, hdistances⟩ := checkSource_joined h₁ h₂
  refine ⟨c₁, n₁, c₂, n₂, c, n, f, h₁, h₂, h, hf, hbelow, hprogram, hdistances, ?_⟩
  intro fuel s₁ hrun
  exact Session.run_joined howns h₁ h₂ h hf hbelow hprogram hdistances hrun

/-- A source that makes a closure. -/
def makingSource : String :=
  "fun f(x) \x7b fun g() \x7b print x; \x7d return g; \x7d var h = f(nil);"

/-- A source that calls the closure, and then fails on its first line. -/
def callingSource : String := "h(); y;"

set_option maxRecDepth 1000 in
theorem closure_called_later : ∃ s₁ f,
    (Session.initial 8 .unlimited .nominal).run 60 makingSource = some (.ok (), s₁) ∧
    RunsAlike f (s₁.run 60 callingSource)
      ((Session.initial 8 .unlimited .nominal).run 60 (makingSource ++ "\n" ++ callingSource)) := by
  have hhost : Host.nominal.IgnoresLabels := fun _ _ _ _ => rfl
  have hmaking : Accepted makingSource := .of_isOk (by cbv)
  have hcalling : Accepted callingSource := .of_isOk (by cbv)
  have hanswer : ((Session.initial 8 .unlimited .nominal).run 60 makingSource).map (·.1)
      = some (.ok ()) := by cbv
  obtain ⟨⟨_, s₁⟩, hrun, heq⟩ := Option.map_eq_some_iff.mp hanswer
  cases heq
  have hfollow : (Session.initial 8 .unlimited .nominal).follow 60 [] = some ([], _) := rfl
  obtain ⟨_, _, _, _, _, _, f, -, -, -, -, -, -, -, halike⟩ :=
    joined_source_runs_alike 8 .unlimited hhost hfollow hmaking hcalling
  exact ⟨s₁, f, hrun, halike 60 s₁ hrun⟩

end LoxLang
