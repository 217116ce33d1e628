import LoxLang.Store

/-!
# Frames of a store

What each operation of the store does to its frames, the methods of a new class, and climbing from
frame to frame.
-/

namespace LoxLang.Store

variable {s : Store} {f g : FrameId} {name x : String} {value : Value}

/-! ## A new frame -/

section
variable {enclosing : Option FrameId} {bindings : Bindings Value}

@[simp] theorem newFrame_fst : (s.newFrame enclosing bindings).1 = s.frames.size := rfl

@[simp] theorem newFrame_size :
    (s.newFrame enclosing bindings).2.frames.size = s.frames.size + 1 := Array.size_push _

@[simp] theorem newFrame_objects : (s.newFrame enclosing bindings).2.objects = s.objects := rfl

@[simp] theorem newFrame_nextStamp : (s.newFrame enclosing bindings).2.nextStamp = s.nextStamp := rfl

theorem frame_newFrame : (s.newFrame enclosing bindings).2.frame f
    = if f = s.frames.size then ⟨bindings, enclosing⟩ else s.frame f := by
  simp only [frame, newFrame, Array.getElem?_push]
  split <;> rfl

theorem frame_newFrame_new :
    (s.newFrame enclosing bindings).2.frame s.frames.size = ⟨bindings, enclosing⟩ := by
  rw [frame_newFrame, if_pos rfl]

theorem frame_newFrame_of_ne (h : f ≠ s.frames.size) :
    (s.newFrame enclosing bindings).2.frame f = s.frame f := by
  rw [frame_newFrame, if_neg h]

theorem frame_size : s.frame s.frames.size = ⟨[], none⟩ := by simp [frame]

theorem enclosing?_newFrame_of_some {e : FrameId} (h : s.enclosing? f = some e) :
    (s.newFrame enclosing bindings).2.enclosing? f = some e := by
  have hf : f ≠ s.frames.size := by
    intro heq
    rw [enclosing?, heq, frame_size] at h
    cases h
  rw [enclosing?, frame_newFrame_of_ne hf]
  exact h

theorem local?_newFrame_of_some (h : s.local? f x = some value) :
    (s.newFrame enclosing bindings).2.local? f x = some value := by
  have hf : f ≠ s.frames.size := by
    intro heq
    rw [local?, heq, frame_size] at h
    cases h
  rw [local?, frame_newFrame_of_ne hf]
  exact h

/-- What a frame binds is bound by the new one or was bound before. -/
theorem local?_newFrame (h : (s.newFrame enclosing bindings).2.local? f x = some value) :
    bindings.find? x = some value ∨ s.local? f x = some value := by
  unfold local? at h
  rw [frame_newFrame] at h
  split at h
  · exact .inl h
  · exact .inr h

end

/-! ## A new binding -/

@[simp] theorem define_size : (s.define f name value).frames.size = s.frames.size :=
  Array.size_modify

@[simp] theorem define_objects : (s.define f name value).objects = s.objects := rfl

@[simp] theorem define_nextStamp : (s.define f name value).nextStamp = s.nextStamp := rfl

theorem frame_define_self (h : f < s.frames.size) :
    (s.define f name value).frame f
      = { s.frame f with bindings := (s.frame f).bindings.insert name value } := by
  simp [frame, define, Array.getElem_modify, h]

theorem frame_define_of_ne (h : g ≠ f) : (s.define f name value).frame g = s.frame g := by
  simp [frame, define, Array.getElem?_modify, Ne.symm h]

@[simp] theorem enclosing_define :
    (s.define f name value).enclosing? g = s.enclosing? g := by
  unfold enclosing?
  by_cases hg : g = f
  · subst hg
    by_cases h : g < s.frames.size
    · rw [frame_define_self h]
    · simp [frame, define, h]
  · rw [frame_define_of_ne hg]

theorem local?_define_of_ne (h : name ≠ x) : (s.define f name value).local? g x = s.local? g x := by
  unfold local?
  by_cases hg : g = f
  · subst hg
    by_cases hsize : g < s.frames.size
    · rw [frame_define_self hsize]
      simp only [Bindings.find?_insert, if_neg h]
    · simp [frame, define, hsize]
  · rw [frame_define_of_ne hg]

/-- What a frame binds is the new value or was bound before. -/
theorem local?_define {v : Value} (h : (s.define f name value).local? g x = some v) :
    v = value ∨ s.local? g x = some v := by
  by_cases hx : name = x
  · unfold local? at h
    by_cases hg : g = f
    · subst hg
      by_cases hsize : g < s.frames.size
      · rw [frame_define_self hsize] at h
        simp only [Bindings.find?_insert, if_pos hx] at h
        cases h
        exact .inl rfl
      · simp [frame, define, hsize] at h
    · rw [frame_define_of_ne hg] at h
      exact .inr h
  · rw [local?_define_of_ne hx] at h
    exact .inr h

theorem binds_define (h : f < s.frames.size) :
    (s.define f name value).binds g x = (decide (g = f ∧ name = x) || s.binds g x) := by
  unfold binds local?
  by_cases hg : g = f
  · subst hg
    rw [frame_define_self h]
    by_cases hx : name = x <;> simp [Bindings.find?_insert, hx]
  · simp [frame_define_of_ne hg, hg]

theorem binds_define_mono (h : s.binds g x = true) : (s.define f name value).binds g x = true := by
  by_cases hf : f < s.frames.size
  · simp [binds_define hf, h]
  · have : s.define f name value = s := by
      have hmod : s.frames.modify f (fun fr => { fr with bindings := fr.bindings.insert name value })
          = s.frames := by
        ext i hi hi'
        · simp
        · have : f ≠ i := by
            intro e
            subst e
            exact hf hi'
          simp [Array.getElem_modify, this]
      simp [define, hmod]
    rw [this]
    exact h

/-! ## Classes -/

/-- The methods of a class, with stamps from this one on. -/
def methodsFrom (frame : FrameId) :
    List FunctionDecl → Nat → Bindings Closure → Bindings Closure
  | [], _, methods => methods
  | d :: rest, stamp, methods =>
    methodsFrom frame rest (stamp + 1)
      (methods.insert d.name.name ⟨stamp, d, frame, d.isInitializer⟩)

theorem newMethods_eq (frame : FrameId) (ds : List FunctionDecl) (methods : Bindings Closure)
    (s : Store) : newMethods frame ds methods s
      = (methodsFrom frame ds s.nextStamp methods, { s with nextStamp := s.nextStamp + ds.length }) := by
  induction ds generalizing methods s with
  | nil => rfl
  | cons d rest ih =>
    simp only [newMethods, newClosure, ih, methodsFrom, List.length_cons]
    rw [Nat.add_right_comm, Nat.add_assoc]

theorem newClass_eq (s : Store) (name : String) (ds : List FunctionDecl) (frame : FrameId) :
    s.newClass name ds frame
      = (⟨s.nextStamp + ds.length, name, methodsFrom frame ds s.nextStamp []⟩,
        { s with nextStamp := s.nextStamp + (ds.length + 1) }) := by
  simp only [newClass, newMethods_eq]
  rfl

/-- A method of a class is made from one of the declarations, and the stamps follow their order. -/
theorem find?_methodsFrom_stamp {frame : FrameId} {ds : List FunctionDecl} {stamp : Nat}
    {methods : Bindings Closure} {c : Closure}
    (h : (methodsFrom frame ds stamp methods).find? x = some c) :
    methods.find? x = some c ∨
      ∃ i d, ds[i]? = some d ∧ c = ⟨stamp + i, d, frame, d.isInitializer⟩ := by
  induction ds generalizing stamp methods with
  | nil => exact .inl h
  | cons d rest ih =>
    obtain hfound | ⟨i, d', hd', rfl⟩ := ih h
    · rw [Bindings.find?_insert] at hfound
      split at hfound
      · cases hfound
        exact .inr ⟨0, d, rfl, rfl⟩
      · exact .inl hfound
    · refine .inr ⟨i + 1, d', hd', ?_⟩
      rw [Nat.add_assoc, Nat.add_comm 1]

/-- A method of a class is one of those that are declared, with a stamp below that of the class. -/
theorem find?_methodsFrom {frame : FrameId} {ds : List FunctionDecl} {stamp : Nat}
    {methods : Bindings Closure} {c : Closure}
    (h : (methodsFrom frame ds stamp methods).find? x = some c) :
    methods.find? x = some c ∨
      (stamp ≤ c.stamp ∧ c.stamp < stamp + ds.length ∧ c.declaration ∈ ds ∧ c.frame = frame ∧
        c.isInitializer = c.declaration.isInitializer) := by
  refine (find?_methodsFrom_stamp h).imp_right fun ⟨i, d, hd, hc⟩ => ?_
  obtain ⟨hi, -⟩ := List.getElem?_eq_some_iff.mp hd
  rw [hc]
  exact ⟨Nat.le_add_right _ _, Nat.add_lt_add_left hi _, List.mem_of_getElem? hd, rfl, rfl⟩

/-- A method is kept under the name of its declaration. -/
theorem name_of_methodsFrom {frame : FrameId} {ds : List FunctionDecl} {stamp : Nat}
    {methods : Bindings Closure} {c : Closure}
    (h : (methodsFrom frame ds stamp methods).find? x = some c)
    (hmethods : ∀ c, methods.find? x = some c → c.declaration.name.name = x) :
    c.declaration.name.name = x := by
  induction ds generalizing stamp methods with
  | nil => exact hmethods c h
  | cons d rest ih =>
    refine ih h fun g hg => ?_
    rw [Bindings.find?_insert] at hg
    split at hg
    · rename_i hname
      cases hg
      exact hname
    · exact hmethods g hg

/-! ## Climbing -/

theorem climb_succ {e : FrameId} (h : s.enclosing? f = some e) {d : Nat} {t : FrameId}
    (ht : s.climb d e = .ok t) : s.climb (d + 1) f = .ok t := by
  simp only [climb, h, ht]
  rfl

/-! ## Reading -/

/-- What is read is held by a frame. -/
theorem local?_of_get {line : Nat} (h : s.get f x line = .ok value) :
    ∃ b, s.binder? f x = some b ∧ s.local? b x = some value := by
  unfold get at h
  split at h
  · rename_i hfound
    cases h
    exact Option.bind_eq_some_iff.mp hfound
  · cases h

theorem local?_of_getAt {d : Nat} (h : s.getAt f d x = .ok value) :
    ∃ b, s.ancestor f d = .ok b ∧ s.local? b x = some value := by
  cases hb : s.ancestor f d with
  | error e =>
    simp only [getAt, hb] at h
    cases h
  | ok b =>
    cases hlocal : s.local? b x with
    | none =>
      simp only [getAt, hb, bind, Except.bind, hlocal] at h
      cases h
    | some w =>
      simp only [getAt, hb, bind, Except.bind, hlocal] at h
      cases h
      exact ⟨b, rfl, hlocal⟩

/-- A variable is looked up in the outermost frame only when it is looked up from there. -/
theorem chain_outermost (h : s.enclosing? f = none) : s.chain f = [f] := by
  rw [chain, h]

theorem chain_head (s : Store) (f : FrameId) : ∃ outer, s.chain f = f :: outer := by
  rw [chain]
  split
  · exact ⟨[], rfl⟩
  · split
    · exact ⟨_, rfl⟩
    · exact ⟨[], rfl⟩

/-- From the outermost frame nothing else is seen. -/
theorem binder?_outermost (h : s.enclosing? f = none) (x : String) :
    s.binder? f x = if s.binds f x then some f else none := by
  rw [binder?, chain_outermost h, List.find?_cons, List.find?_nil]
  cases s.binds f x <;> rfl

theorem get_outermost (h : s.enclosing? f = none) (x : String) (line : Nat) :
    s.get f x line = match s.local? f x with
      | some value => .ok value
      | none => .error (.undefinedVariable x line) := by
  rw [get, binder?_outermost h]
  cases hlocal : s.local? f x <;> simp [binds, hlocal]

theorem assignee_outermost (h : s.enclosing? f = none) (x : String) (line : Nat) :
    s.assignee f x line
      = if s.binds f x then .ok f else .error (.undefinedVariable x line) := by
  rw [assignee, binder?_outermost h]
  cases s.binds f x <;> rfl

/-- A frame that binds the name is the first of its chain to do so. -/
theorem binder?_of_binds (h : s.binds f name = true) : s.binder? f name = some f := by
  obtain ⟨outer, hchain⟩ := s.chain_head f
  simp [binder?, hchain, h]

end LoxLang.Store
