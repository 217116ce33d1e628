import LoxLang.Proofs.Running.Cuts
import LoxLang.Proofs.Running.Growth

/-!
# The machines a run comes by

* `Plan.moments`: the machines in which the pieces of a plan begin, one after the other;
* `Machine.Anchored`: a machine in which all frames in use lead out to the global variables;
* `Growing`: machines of which each has a store that the stores before it grow to;
* `Unfolds`: machines of which each is a step further than the one before;
* `Plan.Enlarges`: the moments of a plan are such machines; with a rule for each kind of plan.
-/

namespace LoxLang

namespace Plan

/-- The machines in which the pieces of the plan begin when it is performed, in order. There are
such machines also if it fails or if its fuel runs out. -/
def moments (print : Printer) {α : Type} : Plan α → Machine → List Machine
  | step _, m | .print _, m | native _ _, m | outOfFuel, m | note _, m => [m]
  | bind x f, m => x.moments print m ++
      match x.perform print m with
      | .ok a m' => (f a).moments print m'
      | _ => []
  | inFrame frame x, m => m :: x.moments print { m with frame }
  | ifRoom _ x, m =>
    if m.maxDepth ≤ m.depth then [m] else m :: x.moments print { m with depth := m.depth + 1 }
  | called _ x, m => x.moments print m

end Plan

/-- The current frame, the frames of all functions and every frame there is lead out to the frame of
the global variables, around which there is none. -/
structure Machine.Anchored (m : Machine) : Prop where
  globals : globals < m.store.frames.size
  outermost : m.store.enclosing? LoxLang.globals = none
  frame : m.frame < m.store.frames.size
  closures (f : Closure) : m.store.Offers (.function f) → f.frame < m.store.frames.size
  climbs (f : FrameId) : f < m.store.frames.size →
    ∃ k, m.store.climb k f = .ok LoxLang.globals
  chains (f : FrameId) : f < m.store.frames.size →
    (m.store.chain f).getLast? = some LoxLang.globals

/-- From each machine to all later ones the store grows, and each has its frames in order. -/
structure Growing (ms : List Machine) : Prop where
  stores : ms.Pairwise fun m m' => m.store.GrowsTo m'.store
  anchored (m : Machine) : m ∈ ms → m.Anchored

theorem Growing.sublist {ms ms' : List Machine} (h : Growing ms) (hsub : ms'.Sublist ms) :
    Growing ms' :=
  ⟨h.stores.sublist hsub, fun m hm => h.anchored m (hsub.subset hm)⟩

/-! ## One step further -/

variable {made made' made'' : Value → Prop} {m m' m'' : Machine} {ms ms' : List Machine}

structure Machine.Tracked (m : Machine) (made : Value → Prop) : Prop where
  store : m.store.Tracked made
  frame : m.frame < m.store.frames.size

theorem Machine.Tracked.anchored (h : m.Tracked made) : m.Anchored where
  globals := h.store.rooted.globals
  outermost := h.store.rooted.outermost
  frame := h.frame
  closures f hf := (h.store.closures f (h.store.offers hf)).2
  climbs := h.store.rooted.climb
  chains := h.store.rooted.chain

/-- A step from a machine to a later one, in some frame that is there. -/
structure Ahead (made : Value → Prop) (m : Machine) (made' : Value → Prop) (m' : Machine) :
    Prop where
  store : Store.Advances made m.store made' m'.store
  frame : m'.frame < m'.store.frames.size

namespace Ahead

theorem tracked (h : Ahead made m made' m') : m'.Tracked made' := ⟨h.store.tracked, h.frame⟩

/-- A machine with the same store. -/
theorem of_store (h : m.store.Tracked made) (hstore : m'.store = m.store)
    (hframe : m'.frame < m.store.frames.size) : Ahead made m made m' := by
  refine ⟨?_, ?_⟩ <;> rw [hstore]
  · exact .refl h
  · exact hframe

theorem refl (h : m.Tracked made) : Ahead made m made m := .of_store h.store rfl h.frame

theorem trans (h : Ahead made m made' m') (h' : Ahead made' m' made'' m'') :
    Ahead made m made'' m'' :=
  ⟨h.store.trans h'.store, h'.frame⟩

end Ahead

/-- The machines come one after the other, each a step further than the one before, and the last
step is to the machine at the end. -/
inductive Unfolds : (Value → Prop) → Machine → List Machine → (Value → Prop) → Machine → Prop
  | last {made made' : Value → Prop} {m m' : Machine} :
      Ahead made m made' m' → Unfolds made m [] made' m'
  | moment {made made₁ made' : Value → Prop} {m m₁ m' : Machine} {ms : List Machine} :
      Ahead made m made₁ m₁ → Unfolds made₁ m₁ ms made' m' → Unfolds made m (m₁ :: ms) made' m'

namespace Unfolds

theorem ahead (h : Unfolds made m ms made' m') : Ahead made m made' m' := by
  induction h with
  | last h => exact h
  | moment h _ ih => exact h.trans ih

/-- A step in front. -/
theorem behind (h : Ahead made m made' m') (h' : Unfolds made' m' ms made'' m'') :
    Unfolds made m ms made'' m'' := by
  cases h' with
  | last h' => exact .last (h.trans h')
  | moment h' hrest => exact .moment (h.trans h') hrest

theorem append (h : Unfolds made m ms made' m') (h' : Unfolds made' m' ms' made'' m'') :
    Unfolds made m (ms ++ ms') made'' m'' := by
  induction h with
  | last h => exact h'.behind h
  | moment h _ ih => exact .moment h (ih h')

/-- A step at the end. -/
theorem further (h : Unfolds made m ms made' m') (h' : Ahead made' m' made'' m'') :
    Unfolds made m ms made'' m'' := by
  have happend := h.append (.last h')
  rwa [List.append_nil] at happend

theorem ahead_of_mem (h : Unfolds made m ms made' m') {n : Machine} (hn : n ∈ ms ++ [m']) :
    ∃ made₁, Ahead made m made₁ n := by
  induction h with
  | last h =>
    obtain rfl := List.mem_singleton.mp hn
    exact ⟨_, h⟩
  | moment h _ ih =>
    obtain rfl | hn := List.mem_cons.mp hn
    · exact ⟨_, h⟩
    · obtain ⟨made₁, hahead⟩ := ih hn
      exact ⟨made₁, h.trans hahead⟩

theorem growing (h : Unfolds made m ms made' m') (hm : m.Tracked made) :
    Growing (m :: (ms ++ [m'])) := by
  have hafter {made made' m m' ms} (h : Unfolds made m ms made' m') (hm : m.Tracked made) :
      ∀ n ∈ ms ++ [m'], m.store.GrowsTo n.store := by
    intro n hn
    obtain ⟨made₁, hahead⟩ := h.ahead_of_mem hn
    exact hahead.store.growsTo hm.store
  refine ⟨?_, fun n hn => ?_⟩
  · induction h with
    | last h => exact List.pairwise_cons.mpr ⟨hafter (.last h) hm, List.pairwise_singleton _ _⟩
    | moment h hrest ih =>
      exact List.pairwise_cons.mpr ⟨hafter (.moment h hrest) hm, ih h.tracked⟩
  · obtain rfl | hn := List.mem_cons.mp hn
    · exact hm.anchored
    · obtain ⟨made₁, hahead⟩ := h.ahead_of_mem hn
      exact hahead.tracked.anchored

end Unfolds

/-! ## Plans -/

namespace Plan

variable {α β : Type} {Q : α → (Value → Prop) → Store → Prop}
  {Q' : β → (Value → Prop) → Store → Prop}

/-- The plan leads through its moments to the machine that it leaves, with a value of which
something holds. -/
def Enlarges (made : Value → Prop) (m : Machine) (x : Plan α)
    (Q : α → (Value → Prop) → Store → Prop) : Prop :=
  ∃ made' m', Unfolds made m (x.moments Run.printLine m) made' m' ∧
    (∀ n, (x.perform Run.printLine m).state? = some n → n = m') ∧
    ∀ a n, x.perform Run.printLine m = .ok a n → Q a made' n.store

namespace Enlarges

/-- A plan in one piece. -/
theorem single {x : Plan α} (h : m.Tracked made) (hmoments : x.moments Run.printLine m = [m])
    (hahead : Ahead made m made' m')
    (hstate : ∀ n, (x.perform Run.printLine m).state? = some n → n = m')
    (hgives : ∀ a n, x.perform Run.printLine m = .ok a n → Q a made' n.store) :
    Enlarges made m x Q := by
  refine ⟨made', m', ?_, hstate, hgives⟩
  rw [hmoments]
  exact .moment (.refl h) (.last hahead)

theorem step {f : DistanceTable → FrameId → Store → Except RuntimeError (α × Store)}
    (h : m.Tracked made) (hf : ∀ a s, f m.distances m.frame m.store = .ok (a, s) →
      ∃ made', Store.Advances made m.store made' s ∧ Q a made' s) :
    Enlarges made m (.step f) Q := by
  cases hfm : f m.distances m.frame m.store with
  | ok r =>
    obtain ⟨a, s⟩ := r
    have hperform : (Plan.step f).perform Run.printLine m = .ok a { m with store := s } := by
      simp only [perform, Run.onStore, hfm]
    obtain ⟨made', hadvances, hQ⟩ := hf a s hfm
    have hahead : Ahead made m made' { m with store := s } :=
      ⟨hadvances, Nat.lt_of_lt_of_le h.frame hadvances.widens.size⟩
    refine .single h rfl hahead (fun n hn => ?_) fun b n hn => ?_ <;>
      rw [hperform] at hn <;> cases hn
    · rfl
    · exact hQ
  | error e =>
    have hperform : (Plan.step f).perform Run.printLine m = .error e m := by
      simp only [perform, Run.onStore, hfm]
    refine .single h rfl (.refl h) (fun n hn => ?_) fun b n hn => ?_ <;>
      rw [hperform] at hn <;> cases hn
    rfl

theorem make {f : FrameId → Store → α × Store} (h : m.Tracked made)
    (hadvances : Store.Advances made m.store made' (f m.frame m.store).2)
    (hQ : Q (f m.frame m.store).1 made' (f m.frame m.store).2) : Enlarges made m (.make f) Q :=
  .step h fun a s heq => by
    rw [Except.ok.inj heq] at hadvances hQ
    exact ⟨made', hadvances, hQ⟩

theorem pure {a : α} (h : m.Tracked made) (ha : Q a made m.store) :
    Enlarges made m (Pure.pure a) Q :=
  .make h (.refl h.store) ha

theorem fail {e : RuntimeError} (h : m.Tracked made) : Enlarges made m (.fail e : Plan α) Q :=
  .step h fun _ _ heq => nomatch heq

theorem outOfFuel (h : m.Tracked made) : Enlarges made m (.outOfFuel : Plan α) Q :=
  .single h rfl (.refl h) nofun nofun

theorem note (mark : Mark) (h : m.Tracked made) : Enlarges made m (.note mark) fun _ _ _ => True :=
  .single h rfl (.refl h) (fun _ hn => (Option.some.inj hn).symm) fun _ _ _ => trivial

theorem print (value : Value) (h : m.Tracked made) :
    Enlarges made m (.print value) fun _ _ _ => True := by
  have hadding (text : String) : Ahead made m made (m.adding text) :=
    .of_store h.store rfl h.frame
  obtain haccepts | ⟨reason, part, hrefuses⟩ := printLine_honest value m
  · refine .single h rfl (hadding (m.line value)) (fun n hn => ?_) fun _ _ _ => trivial
    change (Run.printLine value m).state? = some n at hn
    rw [haccepts] at hn
    exact (Option.some.inj hn).symm
  · refine .single h rfl (hadding part) (fun n hn => ?_) fun _ _ _ => trivial
    change (Run.printLine value m).state? = some n at hn
    rw [hrefuses.error] at hn
    exact (Option.some.inj hn).symm

theorem clock (arguments : List Value) (h : m.Tracked made) :
    Enlarges made m (.native .clock arguments) fun v made _ => made v := by
  have hahead : Ahead made m made { m with readings := m.readings + 1 } :=
    .of_store h.store rfl h.frame
  refine .single h rfl hahead (fun n hn => ?_) fun v n hn => ?_ <;> cases hn
  · rfl
  · exact h.store.plain _ trivial

/-- Two plans in a row. -/
theorem bind {x : Plan α} {f : α → Plan β} (hx : Enlarges made m x Q)
    (hf : ∀ a made' m', Ahead made m made' m' → Q a made' m'.store → Enlarges made' m' (f a) Q') :
    Enlarges made m (x >>= f) Q' := by
  obtain ⟨made₁, m₁, hunfolds, hstate, hgives⟩ := hx
  have hmoments : (x >>= f).moments Run.printLine m = x.moments Run.printLine m ++
      match x.perform Run.printLine m with
      | .ok a m' => (f a).moments Run.printLine m'
      | _ => [] := by
    change moments Run.printLine (Plan.bind x f) m = _
    rw [moments]
  have hperform : (x >>= f).perform Run.printLine m
      = (x.perform Run.printLine >>= fun a => (f a).perform Run.printLine) m := rfl
  cases hxm : x.perform Run.printLine m with
  | ok a n =>
    obtain rfl : n = m₁ := hstate n (by rw [hxm]; rfl)
    obtain ⟨made', m', hrest, hend, hgives'⟩ := hf a made₁ n hunfolds.ahead (hgives a n hxm)
    rw [hxm] at hmoments
    rw [Action.bind_of_ok hxm] at hperform
    refine ⟨made', m', ?_, ?_, ?_⟩
    · rw [hmoments]
      exact hunfolds.append hrest
    · rw [hperform]
      exact hend
    · rw [hperform]
      exact hgives'
  | error e n =>
    rw [hxm, List.append_nil] at hmoments
    rw [Action.bind_of_error hxm] at hperform
    refine ⟨made₁, m₁, ?_, fun n' hn' => ?_, fun b n' hn' => ?_⟩
    · rw [hmoments]
      exact hunfolds
    · rw [hperform] at hn'
      cases hn'
      exact hstate n (by rw [hxm]; rfl)
    · exact nomatch hperform.symm.trans hn'
  | outOfFuel =>
    rw [hxm, List.append_nil] at hmoments
    rw [Action.bind_of_outOfFuel hxm] at hperform
    refine ⟨made₁, m₁, ?_, fun n' hn' => ?_, fun b n' hn' => ?_⟩
    · rw [hmoments]
      exact hunfolds
    · rw [hperform] at hn'
      cases hn'
    · exact nomatch hperform.symm.trans hn'

/-- Something that runs on another machine with the same store, and back to a frame that was there
already. -/
theorem elsewhere {x y : Plan α} {n : Machine} {g : Machine → Machine} (hx : Enlarges made n x Q)
    (h : m.Tracked made) (hthere : Ahead made m made n)
    (hmoments : y.moments Run.printLine m = m :: x.moments Run.printLine n)
    (hperform : y.perform Run.printLine m = (x.perform Run.printLine n).mapState g)
    (hback : ∀ m', (g m').store = m'.store ∧ ((g m').frame = m.frame ∨ (g m').frame = m'.frame)) :
    Enlarges made m y Q := by
  obtain ⟨made', m', hunfolds, hstate, hgives⟩ := hx
  have hahead := hunfolds.ahead
  obtain ⟨hsame, hframe⟩ := hback m'
  have hreturn : Ahead made' m' made' (g m') := by
    refine .of_store hahead.tracked.store hsame ?_
    obtain hframe | hframe := hframe <;> rw [hframe]
    · exact Nat.lt_of_lt_of_le h.frame (hthere.trans hahead).store.widens.size
    · exact hahead.frame
  refine ⟨made', g m', ?_, fun n' hn' => ?_, fun a n' hn' => ?_⟩
  · rw [hmoments]
    exact .moment (.refl h) ((hunfolds.behind hthere).further hreturn)
  · rw [hperform, Outcome.state?_mapState] at hn'
    obtain ⟨n₁, hn₁, rfl⟩ := Option.map_eq_some_iff.mp hn'
    rw [hstate n₁ hn₁]
  · rw [hperform] at hn'
    cases hxn : x.perform Run.printLine n with
    | ok b n₁ =>
      rw [hxn] at hn'
      cases hn'
      rw [(hback n₁).1]
      exact hgives a n₁ hxn
    | error e n₁ =>
      rw [hxn] at hn'
      cases hn'
    | outOfFuel =>
      rw [hxn] at hn'
      cases hn'

theorem inFrame {frame : FrameId} {x : Plan α} (h : m.Tracked made)
    (hframe : frame < m.store.frames.size) (hx : Enlarges made { m with frame } x Q) :
    Enlarges made m (.inFrame frame x) Q :=
  hx.elsewhere h (.of_store h.store rfl hframe) rfl (Run.inFrame_apply _ _ _)
    fun _ => ⟨rfl, .inl rfl⟩

theorem ifRoom {x : Plan α} (line : Nat) (h : m.Tracked made)
    (hx : Enlarges made { m with depth := m.depth + 1 } x Q) :
    Enlarges made m (.ifRoom line x) Q := by
  by_cases hfull : m.maxDepth ≤ m.depth
  · have hperform : (Plan.ifRoom line x).perform Run.printLine m
        = .error (.stackOverflow line) m := if_pos hfull
    refine .single h (if_pos hfull) (.refl h) (fun n hn => ?_) fun a n hn => ?_ <;>
      rw [hperform] at hn <;> cases hn
    rfl
  · exact hx.elsewhere h (.of_store h.store rfl h.frame) (if_neg hfull)
      ((if_neg hfull).trans (Run.oneDeeper_apply _ _)) fun _ => ⟨rfl, .inr rfl⟩

end Enlarges

end Plan

end LoxLang
