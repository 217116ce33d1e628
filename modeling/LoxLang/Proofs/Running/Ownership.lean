import LoxLang.Proofs.Running.Equivariance
import LoxLang.Proofs.Running.Sessions

/-!
# The identities of a session

A session gives each node an identity that it has not given before. So the identities in its store
and in its table are all below the next one.

* `Spares`: a change of the identities from some identity on;
* `Machine.IdsBelow`: such a change leaves the machine as it is;
* `Session.Owns`, `Session.follow_owns`: it does so with every session, from its next identity on.
-/

namespace LoxLang

open Running

/-- Changes identities from `n` on only, to others from `n` on. -/
structure Spares (n : NodeId) (f : NodeId → NodeId) : Prop where
  below (id : NodeId) : id < n → f id = id
  above (id : NodeId) : n ≤ id → n ≤ f id

theorem Spares.mono {n n' : NodeId} {f : NodeId → NodeId} (hle : n ≤ n') (h : Spares n' f) :
    Spares n f where
  below id hid := h.below id (Nat.lt_of_lt_of_le hid hle)
  above id hid := by
    by_cases hbelow : id < n'
    · rw [h.below id hbelow]
      exact hid
    · exact Nat.le_trans hle (h.above id (Nat.le_of_not_lt hbelow))

theorem Spares.comp {n : NodeId} {f g : NodeId → NodeId} (hf : Spares n f) (hg : Spares n g) :
    Spares n fun id => f (g id) where
  below id hid := by rw [hg.below id hid, hf.below id hid]
  above id hid := hf.above (g id) (hg.above id hid)

/-- A one to one change that leaves what is below `n` alone can only change the rest. -/
theorem Spares.of_injective {n : NodeId} {f : NodeId → NodeId} (hf : Function.Injective f)
    (hbelow : ∀ id, id < n → f id = id) : Spares n f where
  below := hbelow
  above id hid := by
    by_contra hlt
    have hsame : f (f id) = f id := hbelow (f id) (Nat.lt_of_not_le hlt)
    rw [hf hsame] at hlt
    exact hlt hid

/-- No identity from `n` on is in the store or in the table. -/
structure Machine.IdsBelow (n : NodeId) (m : Machine) : Prop where
  store (f : NodeId → NodeId) : Spares n f → (Relabeling.ofIds f).recoding.store m.store = m.store
  distances (id : NodeId) : n ≤ id → m.distances.of? id = none

namespace Machine.IdsBelow

variable {n n' : NodeId} {m m' : Machine} {f : NodeId → NodeId}

theorem mono (hle : n ≤ n') (h : m.IdsBelow n) : m.IdsBelow n' where
  store f hf := h.store f (hf.mono hle)
  distances id hid := h.distances id (Nat.le_trans hle hid)

theorem machine_eq (h : m.IdsBelow n) (hf : Spares n f) :
    (Relabeling.ofIds f).machine m.distances m = m := by
  change { m with store := (Relabeling.ofIds f).recoding.store m.store } = m
  rw [h.store f hf]

theorem matches_self (h : m.IdsBelow n) (hf : Spares n f) :
    (Relabeling.ofIds f).recoding.Matches m.distances m.distances := by
  intro id
  change m.distances.of? (f id) = m.distances.of? id
  by_cases hid : id < n
  · rw [hf.below id hid]
  · have hid := Nat.le_of_not_lt hid
    rw [h.distances id hid, h.distances (f id) (hf.above id hid)]

/-- The distances of a program that has the identities up to `n'`. -/
theorem extend (h : m.IdsBelow n) {d : Distances} {ids : List NodeId} (hd : d.Within ids)
    (hids : Fresh n n' ids) : (m.extend d).IdsBelow n' where
  store := (h.mono hids.le).store
  distances id hid := by
    have hnot : id ∉ ids := fun hmem => absurd (hids.within id hmem).2 (Nat.not_lt_of_le hid)
    change (m.distances.extend d).of? id = none
    rw [DistanceTable.of?_extend, hd id hnot, h.distances id (Nat.le_trans hids.le hid)]
    rfl

/-- A run that a change of identities does not change leaves no others in the machine. -/
theorem of_outcome {α : Type} {x : Run α} (h : m.IdsBelow n) (hm' : (x m).state? = some m')
    (hkept : Kept m m') (hx : ∀ f, Spares n f →
      ∃ φ : α → α, x m = (Relabeling.ofIds f).outcome m.distances φ (x m)) : m'.IdsBelow n where
  store f hf := by
    obtain ⟨φ, hsame⟩ := hx f hf
    have hstate : (Relabeling.ofIds f).machine m.distances m' = m' := by
      cases hxm : x m with
      | ok a m₁ =>
        rw [hxm] at hsame hm'
        cases hm'
        exact (Outcome.ok.inj hsame).2.symm
      | error e m₁ =>
        rw [hxm] at hsame hm'
        cases hm'
        exact (Outcome.error.inj hsame).2.symm
      | outOfFuel =>
        rw [hxm] at hm'
        cases hm'
    exact congrArg Machine.store hstate
  distances id hid := by
    rw [hkept.distances]
    exact h.distances id hid

variable {fuel : Nat}

theorem evaluate (h : m.IdsBelow n) (hhost : m.host.IgnoresLabels) {e : Expr}
    (he : ∀ id ∈ e.ids, id < n) (hm' : (Running.evaluate fuel e m).state? = some m') :
    m'.IdsBelow n := by
  refine h.of_outcome hm' (evaluate_keeps fuel e m m' hm') fun f hf => ?_
  have hself : e.relabel (.ofIds f) = e := by
    apply Expr.relabel_eq rfl
    exact (List.map_congr_left fun id hid => hf.below id (he id hid)).trans (List.map_id _)
  have hrun := (evaluate_equivariant (.ofIds f) fuel e).run m m.distances hhost (h.matches_self hf)
  rw [hself, h.machine_eq hf] at hrun
  exact ⟨_, hrun⟩

theorem runStatements (h : m.IdsBelow n) (hhost : m.host.IgnoresLabels) (hrest : m.AtRest)
    {p : Program} (hp : ∀ id ∈ Stmt.allIds p, id < n)
    (hm' : (Running.runStatements fuel p m).state? = some m') : m'.IdsBelow n := by
  refine h.of_outcome hm' (runStatements_kept fuel p hrest hm') fun f hf => ?_
  have hself : Stmt.allRelabel (.ofIds f) p = p :=
    Stmt.allRelabel_self fun id hid => hf.below id (hp id hid)
  have hrun := runStatements_equivariant (.ofIds f) fuel p m m.distances hhost (h.matches_self hf)
  rw [hself, h.machine_eq hf] at hrun
  exact ⟨_, hrun⟩

/-- A program leaves its own identities in the machine, and no others. -/
theorem runProgram (h : m.IdsBelow n) (hhost : m.host.IgnoresLabels) (hrest : m.AtRest)
    {p : Program} {d : Distances} (hd : d.Within (Stmt.allIds p))
    (hp : Fresh n n' (Stmt.allIds p))
    (hm' : (Running.runProgram fuel p d m).state? = some m') : m'.IdsBelow n' := by
  have hids : ∀ id ∈ Stmt.allIds p, id < n' := fun id hid => (hp.within id hid).2
  have hextended : (m.extend d).AtRest := ⟨hrest.frame, hrest.depth⟩
  rw [runProgram_apply, state?_runToEnd] at hm'
  exact (h.extend hd hp).runStatements hhost hextended hids hm'

end Machine.IdsBelow

namespace Session

/-- Between two steps, no identity from the next one on is in use. -/
structure Owns (s : Session) : Prop where
  ids : s.machine.IdsBelow s.nextId
  host : s.machine.host.IgnoresLabels
  atRest : s.machine.AtRest

variable {s s' : Session} {fuel : Nat}

theorem Moved.owns (h : Moved fuel s s') (hs : s.Owns) : s'.Owns := by
  have hrest := h.atRest hs.atRest
  cases h with
  | refused hle => exact ⟨hs.ids.mono hle, hs.host, hrest⟩
  | ran hcheck hstate =>
    obtain ⟨hparse, hresolve⟩ := checkSource_eq_ok hcheck
    obtain ⟨-, hfresh⟩ := parseSource_regular hparse
    have hkept := runProgram_kept hs.atRest hstate
    have hids := hs.ids.runProgram hs.host hs.atRest (resolve_within hresolve) hfresh hstate
    exact ⟨hids, hkept.host ▸ hs.host, hrest⟩
  | evaluated hparse hstate =>
    have hfresh := parseExpressionSource_fresh hparse
    have hkept := evaluate_keeps fuel _ _ _ hstate
    have hbelow : ∀ id ∈ _, id < _ := fun id hid => (hfresh.within id hid).2
    exact ⟨(hs.ids.mono hfresh.le).evaluate hs.host hbelow hstate, hkept.host ▸ hs.host, hrest⟩
  | defined name v =>
    refine ⟨⟨fun f hf => ?_, hs.ids.distances⟩, hs.host, hrest⟩
    have hdefine := (Relabeling.ofIds f).recoding.define_store s.machine.store globals name v.value
    rw [Recoding.value_of_codeless _ v.codeless, hs.ids.store f hf] at hdefine
    exact hdefine.symm
  | limited maxDepth => exact ⟨⟨hs.ids.store, hs.ids.distances⟩, hs.host, hrest⟩

theorem initial_owns (maxDepth : Nat) (output : Output) {host : Host} (h : host.IgnoresLabels) :
    (initial maxDepth output host).Owns where
  ids := by
    constructor
    · intro f _
      simp [initial, Machine.initial, Store.initial, Recoding.store, Recoding.frame]
    · intro id _
      exact DistanceTable.of?_empty id
  host := h
  atRest := ⟨rfl, rfl⟩

/-- **No identity is in use before it is given out**, whatever has happened to a session. -/
theorem follow_owns {steps : List Step} {replies : List (Option Reply)} (h : s.Owns)
    (hfollow : s.follow fuel steps = some (replies, s')) : s'.Owns :=
  follow_induction h (fun _ _ hs hmoved => hmoved.owns hs) hfollow

end Session

end LoxLang
