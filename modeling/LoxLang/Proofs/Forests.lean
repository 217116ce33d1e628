import Mathlib
import LoxLang.Action
import LoxLang.Proofs.Store

/-!
# Forests of frames

A variable is found by searching the frames around a frame, or accessed in the frame at a known
distance. The two agree on every store whose frames were built by the operations on frames.

* `FrameRequest`, `Forest`: the operations, and the stores that they build;
* `Forest.older`: frames are enclosed by older ones, so a chain ends;
* `climb_eq_ok_iff`: the frame at a distance stands at this place of the chain;
* `binder?_eq_some_iff`: a search finds the name at the least distance where access does;
* `search_agrees_with_access`.
-/

namespace LoxLang.Store

/-- The operations on frames. -/
inductive FrameRequest
  | new
  | child (f : FrameId)
  | define (f : FrameId) (name : String) (value : Value)
  | get (f : FrameId) (name : String) (line : Nat)
  | assign (f : FrameId) (name : String) (value : Value) (line : Nat)
  | ancestor (f : FrameId) (distance : Nat)
  | getAt (f : FrameId) (distance : Nat) (name : String)
  | assignAt (f : FrameId) (distance : Nat) (name : String) (value : Value)

inductive FrameReply
  | done
  | frame (f : FrameId)
  | value (v : Value)

namespace FrameRequest

/-- The frame that the operation is asked of. -/
def frame? : FrameRequest → Option FrameId
  | new => none
  | child f => some f
  | define f _ _ => some f
  | get f _ _ => some f
  | assign f _ _ _ => some f
  | ancestor f _ => some f
  | getAt f _ _ => some f
  | assignAt f _ _ _ => some f

/-- A request that only looks at the frames. -/
def looking (ask : Store → Except RuntimeError FrameReply) :
    Action RuntimeError Store FrameReply := do
  let s ← Action.get
  Action.ofExcept (ask s)

/-- A request that changes the frames, unless it fails. -/
def changing (change : Store → Except RuntimeError Store) :
    Action RuntimeError Store FrameReply := do
  let s ← Action.get
  let changed ← Action.ofExcept (change s)
  Action.modify fun _ => changed
  return .done

/-- A request for a frame. -/
def making (enclosing : Option FrameId) : Action RuntimeError Store FrameReply := do
  let s ← Action.get
  Action.modify fun _ => (s.newFrame enclosing []).2
  return .frame (s.newFrame enclosing []).1

def perform : FrameRequest → Action RuntimeError Store FrameReply
  | new => making none
  | child f => making (some f)
  | define f name value => changing fun s => .ok (s.define f name value)
  | get f name line => looking fun s => (s.get f name line).map .value
  | assign f name value line => changing (·.assign f name value line)
  | ancestor f distance => looking fun s => (s.ancestor f distance).map .frame
  | getAt f distance name => looking fun s => (s.getAt f distance name).map .value
  | assignAt f distance name value => changing (·.assignAt f distance name value)

end FrameRequest

/-- The stores whose frames are built by operations on frames that are there. -/
inductive Forest : Store → Prop
  | bare {s : Store} (h : s.frames = #[]) : Forest s
  | ok {s s' : Store} {r : FrameRequest} {reply : FrameReply} (hs : Forest s)
      (hframe : ∀ f, r.frame? = some f → f < s.frames.size) (h : r.perform s = .ok reply s') :
      Forest s'
  | error {s s' : Store} {r : FrameRequest} {e : RuntimeError} (hs : Forest s)
      (hframe : ∀ f, r.frame? = some f → f < s.frames.size) (h : r.perform s = .error e s') :
      Forest s'

/-- Every frame is enclosed by an older one. -/
def Older (s : Store) : Prop := ∀ f e, s.enclosing? f = some e → e < f

/-- The number of frames around a frame. -/
inductive Links (s : Store) : FrameId → Nat → Prop
  | outermost {f : FrameId} (h : s.enclosing? f = none) : Links s f 0
  | enclosed {f e : FrameId} {k : Nat} (h : s.enclosing? f = some e) (he : Links s e k) :
      Links s f (k + 1)

/-- A name can be read at a distance, and at no smaller one. -/
def BoundFirstAt (s : Store) (f : FrameId) (name : String) (distance : Nat) : Prop :=
  (s.getAt f distance name).isOk ∧ ∀ j < distance, ¬(s.getAt f j name).isOk

/-- One slot of one frame has a new value, which is seen from where the chain leads to it. -/
structure OneSlot (s s' : Store) (g : FrameId) (name : String) (value : Value) : Prop where
  slot : s'.local? g name = some value
  others (h : FrameId) (x : String) : ¬(h = g ∧ x = name) → s'.local? h x = s.local? h x
  enclosing (h : FrameId) : s'.enclosing? h = s.enclosing? h
  size : s'.frames.size = s.frames.size
  objects : s'.objects = s.objects
  seen (h : FrameId) (distance : Nat) (line : Nat) :
    s.BoundFirstAt h name distance → s.ancestor h distance = .ok g →
      s'.get h name line = .ok value
  unseen (h : FrameId) (x : String) (line : Nat) :
    ¬(x = name ∧ ∃ distance, s.BoundFirstAt h name distance ∧ s.ancestor h distance = .ok g) →
      s'.get h x line = s.get h x line
  seenAt (h : FrameId) (distance : Nat) :
    s.ancestor h distance = .ok g → s'.getAt h distance name = .ok value
  unseenAt (h : FrameId) (distance : Nat) (x : String) :
    ¬(x = name ∧ s.ancestor h distance = .ok g) →
      s'.getAt h distance x = s.getAt h distance x

variable {s s' : Store} {f g e : FrameId} {x y name : String} {value w : Value} {d k line : Nat}

/-! ## Requests -/

namespace FrameRequest

theorem looking_apply (ask : Store → Except RuntimeError FrameReply) (s : Store) :
    looking ask s = match ask s with
      | .ok reply => .ok reply s
      | .error e => .error e s := by
  change Action.ofExcept (ask s) s = _
  cases ask s <;> rfl

theorem changing_apply (change : Store → Except RuntimeError Store) (s : Store) :
    changing change s = match change s with
      | .ok changed => .ok .done changed
      | .error e => .error e s := by
  change (Action.ofExcept (change s) >>= fun changed =>
    Action.modify (fun _ => changed) >>= fun _ => pure FrameReply.done) s = _
  cases change s <;> rfl

/-- What a request can do to the frames; if it fails, nothing. -/
theorem perform_cases (r : FrameRequest) (s : Store) :
    (∃ e, r.perform s = .error e s) ∨
      ∃ reply s', r.perform s = .ok reply s' ∧
        (s' = s ∨ s' = (s.newFrame r.frame? []).2 ∨
          ∃ g name value, s' = s.define g name value) := by
  have hlooking (ask : Store → Except RuntimeError FrameReply) :
      (∃ e, looking ask s = .error e s) ∨
        ∃ reply s', looking ask s = .ok reply s' ∧ s' = s := by
    rw [looking_apply]
    cases ask s with
    | ok reply => exact .inr ⟨reply, s, rfl, rfl⟩
    | error e => exact .inl ⟨e, rfl⟩
  have hchanging (at? : Except RuntimeError FrameId) (name : String) (value : Value)
      (change : Store → Except RuntimeError Store)
      (hchange : change s = at?.map fun g => s.define g name value) :
      (∃ e, changing change s = .error e s) ∨
        ∃ reply s', changing change s = .ok reply s' ∧ ∃ g, s' = s.define g name value := by
    rw [changing_apply, hchange]
    cases at? with
    | ok g => exact .inr ⟨.done, _, rfl, g, rfl⟩
    | error e => exact .inl ⟨e, rfl⟩
  cases r with
  | new => exact .inr ⟨_, _, rfl, .inr (.inl rfl)⟩
  | child f => exact .inr ⟨_, _, rfl, .inr (.inl rfl)⟩
  | define f name value => exact .inr ⟨.done, _, rfl, .inr (.inr ⟨f, name, value, rfl⟩)⟩
  | get f name line =>
    exact (hlooking _).imp_right fun ⟨reply, s', h, hs⟩ => ⟨reply, s', h, .inl hs⟩
  | ancestor f distance =>
    exact (hlooking _).imp_right fun ⟨reply, s', h, hs⟩ => ⟨reply, s', h, .inl hs⟩
  | getAt f distance name =>
    exact (hlooking _).imp_right fun ⟨reply, s', h, hs⟩ => ⟨reply, s', h, .inl hs⟩
  | assign f name value line =>
    exact (hchanging _ name value _ rfl).imp_right fun ⟨reply, s', h, g, hs⟩ =>
      ⟨reply, s', h, .inr (.inr ⟨g, name, value, hs⟩)⟩
  | assignAt f distance name value =>
    exact (hchanging _ name value _ rfl).imp_right fun ⟨reply, s', h, g, hs⟩ =>
      ⟨reply, s', h, .inr (.inr ⟨g, name, value, hs⟩)⟩

theorem perform_error {r : FrameRequest} {cause : RuntimeError}
    (h : r.perform s = .error cause s') : s' = s := by
  obtain ⟨e, he⟩ | ⟨reply, t, hok, -⟩ := r.perform_cases s
  · rw [he] at h
    cases h
    rfl
  · rw [hok] at h
    cases h

theorem perform_ok {r : FrameRequest} {reply : FrameReply} (h : r.perform s = .ok reply s') :
    s' = s ∨ s' = (s.newFrame r.frame? []).2 ∨ ∃ g name value, s' = s.define g name value := by
  obtain ⟨e, he⟩ | ⟨reply', t, hok, hcases⟩ := r.perform_cases s
  · rw [he] at h
    cases h
  · rw [hok] at h
    cases h
    exact hcases

end FrameRequest

theorem Older.newFrame (hs : s.Older) {enclosing : Option FrameId}
    (h : ∀ f, enclosing = some f → f < s.frames.size) :
    (s.newFrame enclosing []).2.Older := by
  intro f e he
  unfold enclosing? at he
  rw [frame_newFrame] at he
  split at he
  · rename_i hf
    rw [hf]
    exact h e he
  · exact hs f e he

theorem Older.define (hs : s.Older) : (s.define f name value).Older := by
  intro g e he
  rw [enclosing_define] at he
  exact hs g e he

/-- **Frames are enclosed by older ones**, whatever is asked of a forest. -/
theorem Forest.older (hs : Forest s) : s.Older := by
  induction hs with
  | bare h =>
    intro f e he
    simp [enclosing?, frame, h] at he
  | ok hs hframe h ih =>
    obtain rfl | rfl | ⟨g, name, value, rfl⟩ := FrameRequest.perform_ok h
    · exact ih
    · exact ih.newFrame hframe
    · exact ih.define
  | error hs hframe h ih =>
    rw [FrameRequest.perform_error h]
    exact ih

/-! ## Chains -/

theorem chain_enclosed (hs : s.Older) (h : s.enclosing? f = some e) :
    s.chain f = f :: s.chain e := by
  rw [chain, h]
  exact if_pos (hs f e h)

/-- The frame at a distance stands at this place of the chain. -/
theorem climb_eq_ok_iff (hs : s.Older) : s.climb d f = .ok g ↔ (s.chain f)[d]? = some g := by
  induction d generalizing f with
  | zero =>
    obtain ⟨outer, hchain⟩ := s.chain_head f
    simp [climb, hchain]
  | succ d ih =>
    cases h : s.enclosing? f with
    | none => simp [climb, h, chain_outermost h]
    | some e =>
      rw [chain_enclosed hs h, List.getElem?_cons_succ, ← ih]
      simp only [climb, h]
      cases s.climb d e <;> simp [Except.mapError]

theorem exists_links (hs : s.Older) (f : FrameId) : ∃ k, s.Links f k := by
  induction f using Nat.strongRecOn with
  | ind f ih =>
    cases h : s.enclosing? f with
    | none => exact ⟨0, .outermost h⟩
    | some e =>
      obtain ⟨k, hk⟩ := ih e (hs f e h)
      exact ⟨k + 1, .enclosed h hk⟩

/-- A climb gets as far as there are links, and names the first frame that is not there. -/
theorem Links.climb (h : s.Links f k) (d : Nat) :
    (d ≤ k → ∃ g, s.climb d f = .ok g) ∧ (k < d → s.climb d f = .error (k + 1)) := by
  induction h generalizing d with
  | outermost h =>
    cases d with
    | zero => exact ⟨fun _ => ⟨_, rfl⟩, fun hlt => absurd hlt (Nat.lt_irrefl 0)⟩
    | succ d =>
      refine ⟨fun hle => absurd hle (Nat.not_succ_le_zero d), fun _ => ?_⟩
      simp [Store.climb, h]
  | enclosed h _ ih =>
    cases d with
    | zero => exact ⟨fun _ => ⟨_, rfl⟩, fun hlt => absurd hlt (Nat.not_lt_zero _)⟩
    | succ d =>
      obtain ⟨hle, hlt⟩ := ih d
      refine ⟨fun hd => ?_, fun hd => ?_⟩
      · obtain ⟨g, hg⟩ := hle (Nat.le_of_succ_le_succ hd)
        exact ⟨g, climb_succ h hg⟩
      · simp only [Store.climb, h, hlt (Nat.lt_of_succ_lt_succ hd)]
        rfl

theorem ancestor_eq_ok_iff : s.ancestor f d = .ok g ↔ s.climb d f = .ok g := by
  unfold ancestor
  cases s.climb d f <;> simp [Except.mapError]

theorem getAt_eq_ok_iff :
    s.getAt f d x = .ok w ↔ ∃ g, s.ancestor f d = .ok g ∧ s.local? g x = some w := by
  unfold getAt
  cases s.ancestor f d with
  | error e => simp [bind, Except.bind]
  | ok g =>
    cases h : s.local? g x <;> simp [bind, Except.bind, h]

theorem getAt_isOk_iff :
    (s.getAt f d x).isOk ↔ ∃ g, s.ancestor f d = .ok g ∧ s.binds g x = true := by
  unfold getAt binds
  cases s.ancestor f d with
  | error e => simp [bind, Except.bind, Except.isOk, Except.toBool]
  | ok g => cases h : s.local? g x <;> simp [bind, Except.bind, Except.isOk, Except.toBool, h]

/-- **A search ends where access first succeeds.** -/
theorem binder?_eq_some_iff (hs : s.Older) :
    s.binder? f x = some g ↔ ∃ k, s.BoundFirstAt f x k ∧ s.ancestor f k = .ok g := by
  have hplace {k : Nat} {h : FrameId} : s.ancestor f k = .ok h ↔ (s.chain f)[k]? = some h :=
    ancestor_eq_ok_iff.trans (climb_eq_ok_iff hs)
  rw [binder?, List.find?_eq_some_iff_getElem]
  constructor
  · rintro ⟨hbinds, k, hk, rfl, hbefore⟩
    refine ⟨k, ⟨getAt_isOk_iff.mpr ⟨_, hplace.mpr (List.getElem?_eq_getElem hk), hbinds⟩, ?_⟩,
      hplace.mpr (List.getElem?_eq_getElem hk)⟩
    intro j hj hok
    obtain ⟨h, hh, hbinds'⟩ := getAt_isOk_iff.mp hok
    obtain ⟨hlt, rfl⟩ := List.getElem?_eq_some_iff.mp (hplace.mp hh)
    simpa [hbinds'] using hbefore j hj
  · rintro ⟨k, ⟨hok, hbefore⟩, hg⟩
    obtain ⟨g', hg', hbinds⟩ := getAt_isOk_iff.mp hok
    obtain rfl : g = g' := Except.ok.inj (hg.symm.trans hg')
    obtain ⟨hk, hget⟩ := List.getElem?_eq_some_iff.mp (hplace.mp hg)
    refine ⟨hbinds, k, hk, hget, fun j hj => ?_⟩
    have hj' : j < (s.chain f).length := Nat.lt_trans hj hk
    have hnot := hbefore j hj
    rw [getAt_isOk_iff] at hnot
    cases hb : s.binds (s.chain f)[j] x with
    | false => rfl
    | true => exact absurd ⟨_, hplace.mpr (List.getElem?_eq_getElem hj'), hb⟩ hnot

theorem exists_boundFirstAt (h : (s.getAt f d x).isOk) : ∃ k, s.BoundFirstAt f x k := by
  induction d using Nat.strongRecOn with
  | ind d ih =>
    by_cases hbefore : ∃ j < d, (s.getAt f j x).isOk
    · obtain ⟨j, hj, hok⟩ := hbefore
      exact ih j hj hok
    · exact ⟨d, h, fun j hj hok => hbefore ⟨j, hj, hok⟩⟩

theorem binds_of_binder? (h : s.binder? f x = some g) : s.binds g x = true :=
  List.find?_some (p := (s.binds · x)) h

theorem get_eq_ok_iff :
    s.get f x line = .ok w ↔ ∃ g, s.binder? f x = some g ∧ s.local? g x = some w := by
  unfold get
  cases s.binder? f x with
  | none => simp
  | some g => cases h : s.local? g x <;> simp [h]

theorem assign_eq_ok_iff :
    s.assign f x value line = .ok s' ↔ ∃ g, s.binder? f x = some g ∧ s' = s.define g x value := by
  unfold assign assignee
  cases s.binder? f x <;> simp [Except.map, eq_comm]

/-! ## One new value -/

theorem chain_define (f : FrameId) : (s.define g name value).chain f = s.chain f := by
  induction f using Nat.strongRecOn with
  | ind f ih =>
    rw [chain, chain, enclosing_define]
    cases s.enclosing? f with
    | none => rfl
    | some e =>
      dsimp only
      split
      · rename_i he
        rw [ih e he]
      · rfl

theorem climb_define (d : Nat) (f : FrameId) :
    (s.define g name value).climb d f = s.climb d f := by
  induction d generalizing f with
  | zero => rfl
  | succ d ih => simp only [climb, enclosing_define, ih]

theorem ancestor_define : (s.define g name value).ancestor f d = s.ancestor f d := by
  unfold ancestor
  rw [climb_define]

theorem lt_size_of_binds (h : s.binds f x = true) : f < s.frames.size := by
  obtain hlt | hge := Nat.lt_or_ge f s.frames.size
  · exact hlt
  · have hframe : s.frame f = ⟨[], none⟩ := by simp [frame, Array.getElem?_eq_none hge]
    simp [binds, local?, hframe] at h

theorem local?_define_self (h : f < s.frames.size) :
    (s.define f x value).local? f x = some value := by
  rw [local?, frame_define_self h, Bindings.find?_insert, if_pos rfl]

theorem local?_define_other (h : ¬(f = g ∧ x = name)) :
    (s.define g name value).local? f x = s.local? f x := by
  by_cases hx : x = name
  · have hf : f ≠ g := fun hf => h ⟨hf, hx⟩
    rw [local?, frame_define_of_ne hf, local?]
  · exact local?_define_of_ne (Ne.symm hx)

/-- The name was bound, so the same frames are found as before. -/
theorem binder?_define_of_binds (h : s.binds g name = true) :
    (s.define g name value).binder? f x = s.binder? f x := by
  have hbinds (f : FrameId) :
      (s.define g name value).binds f x = s.binds f x := by
    by_cases hfx : f = g ∧ name = x
    · obtain ⟨rfl, rfl⟩ := hfx
      rw [h, binds_define_mono h]
    · simp [binds_define (lt_size_of_binds h), hfx]
  simp only [binder?, chain_define, hbinds]

/-- A new value for a name that is bound is one slot. -/
theorem oneSlot_define (hs : s.Older) (h : s.binds g name = true) :
    OneSlot s (s.define g name value) g name value where
  slot := local?_define_self (lt_size_of_binds h)
  others f x hne := local?_define_other hne
  enclosing _ := enclosing_define
  size := define_size
  objects := rfl
  seen f d line hfirst hg := by
    have hfound := (binder?_eq_some_iff hs).mpr ⟨d, hfirst, hg⟩
    rw [get_eq_ok_iff, binder?_define_of_binds h]
    exact ⟨g, hfound, local?_define_self (lt_size_of_binds h)⟩
  unseen f x line hunseen := by
    unfold get
    rw [binder?_define_of_binds h]
    cases hfound : s.binder? f x with
    | none => rfl
    | some b =>
      have hne : ¬(b = g ∧ x = name) := by
        rintro ⟨rfl, rfl⟩
        exact hunseen ⟨rfl, (binder?_eq_some_iff hs).mp hfound⟩
      rw [Option.bind_some, Option.bind_some, local?_define_other hne]
  seenAt f d hg :=
    getAt_eq_ok_iff.mpr ⟨g, ancestor_define.trans hg, local?_define_self (lt_size_of_binds h)⟩
  unseenAt f d x hunseen := by
    unfold getAt
    rw [ancestor_define]
    cases hfound : s.ancestor f d with
    | error e => rfl
    | ok b =>
      have hne : ¬(b = g ∧ x = name) := by
        rintro ⟨rfl, rfl⟩
        exact hunseen ⟨rfl, hfound⟩
      simp only [bind, Except.bind, local?_define_other hne]

/-- Some distance is right for access exactly if a search finds the name. -/
theorem exists_getAt_iff (hs : s.Older) :
    (∃ k, (s.getAt f k x).isOk) ↔ ∃ g, s.binder? f x = some g := by
  constructor
  · rintro ⟨d, hok⟩
    obtain ⟨k, hfirst⟩ := exists_boundFirstAt hok
    obtain ⟨g, hg, -⟩ := getAt_isOk_iff.mp hfirst.1
    exact ⟨g, (binder?_eq_some_iff hs).mpr ⟨k, hfirst, hg⟩⟩
  · rintro ⟨g, hg⟩
    obtain ⟨k, hfirst, -⟩ := (binder?_eq_some_iff hs).mp hg
    exact ⟨k, hfirst.1⟩

theorem get_isOk_iff (hs : s.Older) :
    (s.get f x line).isOk ↔ ∃ k, (s.getAt f k x).isOk := by
  rw [exists_getAt_iff hs]
  unfold get
  cases hfound : s.binder? f x with
  | none => simp [Except.isOk, Except.toBool]
  | some g =>
    obtain ⟨w, hw⟩ := Option.isSome_iff_exists.mp (binds_of_binder? hfound)
    simp [hw, Except.isOk, Except.toBool]

/-- The value found is the one at the least distance where access succeeds. -/
theorem get_eq_ok_iff_getAt (hs : s.Older) :
    s.get f x line = .ok w ↔ ∃ k, s.BoundFirstAt f x k ∧ s.getAt f k x = .ok w := by
  rw [get_eq_ok_iff]
  constructor
  · rintro ⟨g, hg, hw⟩
    obtain ⟨k, hfirst, hanc⟩ := (binder?_eq_some_iff hs).mp hg
    exact ⟨k, hfirst, getAt_eq_ok_iff.mpr ⟨g, hanc, hw⟩⟩
  · rintro ⟨k, hfirst, hw⟩
    obtain ⟨g, hanc, hw⟩ := getAt_eq_ok_iff.mp hw
    exact ⟨g, (binder?_eq_some_iff hs).mpr ⟨k, hfirst, hanc⟩, hw⟩

theorem assign_isOk_iff (hs : s.Older) :
    (s.assign f x value line).isOk ↔ ∃ k, (s.getAt f k x).isOk := by
  rw [exists_getAt_iff hs]
  unfold assign assignee
  cases s.binder? f x <;> simp [Except.map, Except.isOk, Except.toBool]

/-- A name that cannot be read at any distance is not found. -/
theorem undefined_of_not_getAt (hs : s.Older) (h : ¬∃ k, (s.getAt f k x).isOk) :
    s.get f x line = .error (.undefinedVariable x line) ∧
      s.assign f x value line = .error (.undefinedVariable x line) := by
  have hfound : s.binder? f x = none := by
    rw [exists_getAt_iff hs] at h
    exact Option.eq_none_iff_forall_ne_some.mpr fun g hg => h ⟨g, hg⟩
  simp [get, assign, assignee, hfound, Except.map]

/-- **Searching and access agree.** On every forest, from every frame:

* a name is found by a search exactly if it can be read at some distance, and the value found is the
  one at the least such distance;
* an assignment by search succeeds in the same case and gives a new value to the slot of that frame
  and to no other, which every frame sees only as far as its chain leads there;
* there is a frame at each distance up to the number of links, and the first missing one is named
  beyond;
* a request that fails leaves the frames as they were. -/
theorem search_agrees_with_access (h : Forest s) (f : FrameId) (x : String) (value : Value)
    (line : Nat) :
    ((s.get f x line).isOk ↔ ∃ k, (s.getAt f k x).isOk) ∧
      (∀ w, s.get f x line = .ok w ↔ ∃ k, s.BoundFirstAt f x k ∧ s.getAt f k x = .ok w) ∧
      ((s.assign f x value line).isOk ↔ ∃ k, (s.getAt f k x).isOk) ∧
      (∀ s', s.assign f x value line = .ok s' →
        ∃ k g, s.BoundFirstAt f x k ∧ s.ancestor f k = .ok g ∧ OneSlot s s' g x value) ∧
      ((¬∃ k, (s.getAt f k x).isOk) →
        s.get f x line = .error (.undefinedVariable x line) ∧
          s.assign f x value line = .error (.undefinedVariable x line)) ∧
      (∃ links, s.Links f links ∧ ∀ d,
        (d ≤ links → ∃ g, s.ancestor f d = .ok g) ∧
          (links < d → s.ancestor f d
            = .error (.unresolved ("<frame " ++ digitsOf (links + 1) ++ ">") d))) ∧
      ∀ (r : FrameRequest) (e : RuntimeError) (s' : Store), r.perform s = .error e s' → s' = s := by
  have hs := h.older
  refine ⟨get_isOk_iff hs, fun w => get_eq_ok_iff_getAt hs, assign_isOk_iff hs,
    fun s' hassign => ?_, undefined_of_not_getAt hs, ?_, fun r e s' hfail => r.perform_error hfail⟩
  · obtain ⟨g, hg, rfl⟩ := assign_eq_ok_iff.mp hassign
    obtain ⟨k, hfirst, hanc⟩ := (binder?_eq_some_iff hs).mp hg
    exact ⟨k, g, hfirst, hanc, oneSlot_define hs (binds_of_binder? hg)⟩
  · obtain ⟨links, hlinks⟩ := exists_links hs f
    refine ⟨links, hlinks, fun d => ⟨fun hd => ?_, fun hd => ?_⟩⟩
    · obtain ⟨g, hg⟩ := (hlinks.climb d).1 hd
      exact ⟨g, ancestor_eq_ok_iff.mpr hg⟩
    · rw [ancestor, (hlinks.climb d).2 hd]
      rfl

/-- Two frames in the same frame, one of which binds the name again. -/
def siblings : Store where
  frames := #[⟨[("x", .bool true)], none⟩, ⟨[("x", .bool false)], some 0⟩, ⟨[], some 0⟩]
  objects := #[]
  nextStamp := 0

theorem siblings_forest : Forest siblings := by
  have hroot : Forest ⟨#[⟨[], none⟩], #[], 0⟩ :=
    .ok (r := .new) (.bare (s := .empty) rfl) nofun rfl
  have hbound : Forest ⟨#[⟨[("x", .bool true)], none⟩], #[], 0⟩ :=
    .ok (r := .define 0 "x" (.bool true)) hroot (fun f hf => by cases hf; decide) rfl
  have hfirst : Forest ⟨#[⟨[("x", .bool true)], none⟩, ⟨[], some 0⟩], #[], 0⟩ :=
    .ok (r := .child 0) hbound (fun f hf => by cases hf; decide) rfl
  have hagain : Forest
      ⟨#[⟨[("x", .bool true)], none⟩, ⟨[("x", .bool false)], some 0⟩], #[], 0⟩ :=
    .ok (r := .define 1 "x" (.bool false)) hfirst (fun f hf => by cases hf; decide) rfl
  exact .ok (r := .child 0) hagain (fun f hf => by cases hf; decide) rfl

/-- An assignment in the frame that does not bind the name is not seen from the other one. -/
theorem siblings_assign :
    Forest siblings ∧
      ∃ s', siblings.assign 2 "x" .nil 1 = .ok s' ∧ OneSlot siblings s' 0 "x" .nil ∧
        s'.get 2 "x" 1 = .ok .nil ∧ s'.get 1 "x" 1 = .ok (.bool false) := by
  obtain ⟨-, -, -, hslot, -⟩ := search_agrees_with_access siblings_forest 2 "x" .nil 1
  have hassign : siblings.assign 2 "x" .nil 1 = .ok (siblings.define 0 "x" .nil) := by cbv
  obtain ⟨k, g, hfirst, hg, hone⟩ := hslot _ hassign
  have hzero : g = 0 := by
    cases k with
    | zero => cases hfirst.1
    | succ k =>
      cases k with
      | zero =>
        cases hg
        rfl
      | succ k => cases hg
  rw [hzero] at hone
  exact ⟨siblings_forest, _, hassign, hone, by cbv, by cbv⟩

end LoxLang.Store
