import LoxLang.Proofs.Scoping.Rules

/-!
# Contexts

* `declare_eq_ok`, `introduce_eq_ok`: a name is added when the innermost scope does not have it;
* `ready`: the context with a name that is ready;
* `introduceAll_cons`, `introduceAll_scopes`: parameters are added one after the other, and all of
  them are ready;
* `mark?_of_distance?`: the mark of a name is found in the scope at its distance.
-/

namespace LoxLang.Scoping.Context

variable {ctx ctx' : Context} {name : Identifier} {x : String} {b : Bool} {scope : Scope}
  {outer : List Scope}

/-- The context with a name of the innermost scope that is ready. -/
def ready (ctx : Context) (x : String) : Context := (ctx.mark x false).mark x true

theorem declare_eq_ok :
    ctx.declare name = .ok ctx' ↔
      ctx.hasLocal name.name = false ∧ ctx' = ctx.mark name.name false := by
  unfold declare
  cases ctx.hasLocal name.name with
  | true => simp
  | false => simp [eq_comm]

theorem introduce_eq_ok :
    ctx.introduce name = .ok ctx' ↔
      ctx.hasLocal name.name = false ∧ ctx' = ctx.ready name.name := by
  unfold introduce declare ready
  cases ctx.hasLocal name.name with
  | true =>
    simp only [if_true, reduceCtorEq, false_and, iff_false]
    exact fun h => nomatch h
  | false =>
    simp only [true_and]
    exact ⟨fun h => by cases h; rfl, fun h => by rw [h]; rfl⟩

theorem introduceAll_cons {rest : List Identifier} :
    ctx.introduceAll (name :: rest) = .ok ctx' ↔
      ∃ inner, ctx.introduce name = .ok inner ∧ inner.introduceAll rest = .ok ctx' :=
  except_bind_eq_ok

/-! ## Scopes -/

theorem mark_of_nil (h : ctx.scopes = []) : ctx.mark x b = ctx := by
  simp only [mark, h]

theorem mark_of_cons (h : ctx.scopes = scope :: outer) :
    ctx.mark x b = { ctx with scopes := ((x, b) :: scope) :: outer } := by
  simp only [mark, h]

theorem ready_of_nil (h : ctx.scopes = []) : ctx.ready x = ctx := by
  rw [ready, mark_of_nil h, mark_of_nil h]

theorem ready_of_cons (h : ctx.scopes = scope :: outer) :
    ctx.ready x = { ctx with scopes := ((x, true) :: (x, false) :: scope) :: outer } := by
  rw [ready, mark_of_cons h]
  rfl

theorem lookup_cons (n : String) (b : Bool) (scope : Scope) (x : String) :
    List.lookup x ((n, b) :: scope) = if n = x then some b else List.lookup x scope := by
  by_cases h : n = x
  · simp [h]
  · have h' : (x == n) = false := by simpa using fun e => h e.symm
    simp [List.lookup_cons, h, h']

theorem lookup_ready (scope : Scope) (n x : String) :
    List.lookup x ((n, true) :: (n, false) :: scope)
      = if n = x then some true else List.lookup x scope := by
  rw [lookup_cons, lookup_cons]
  split <;> rfl

theorem hasLocal_of_cons (h : ctx.scopes = scope :: outer) (hx : ctx.hasLocal x = false) :
    List.lookup x scope = none := by
  simpa [hasLocal, h] using hx

@[simp] theorem scopes_inInitializer : (ctx.inInitializer x).scopes = ctx.scopes := by
  unfold inInitializer
  split <;> rfl

/-- All parameters are ready, and nothing else becomes so. -/
theorem introduceAll_scopes {params : List Identifier} (hctx : ctx.scopes = scope :: outer)
    (h : ctx.introduceAll params = .ok ctx') :
    ∃ scope', ctx'.scopes = scope' :: outer ∧ ∀ x, List.lookup x scope'
      = if x ∈ params.map (·.name) then some true else List.lookup x scope := by
  induction params generalizing ctx scope with
  | nil =>
    cases h
    exact ⟨scope, hctx, by simp⟩
  | cons p params ih =>
    obtain ⟨inner, hp, hrest⟩ := introduceAll_cons.mp h
    obtain ⟨-, rfl⟩ := introduce_eq_ok.mp hp
    obtain ⟨scope', hscope', hlookup⟩ := ih (by rw [ready_of_cons hctx]) hrest
    refine ⟨scope', hscope', fun x => ?_⟩
    rw [hlookup, lookup_ready]
    by_cases hx : x ∈ params.map (·.name) <;> by_cases hpx : p.name = x <;>
      simp_all [eq_comm]

/-- No parameter is there already, and none is there twice. -/
theorem introduceAll_nodup {params : List Identifier} (hctx : ctx.scopes = scope :: outer)
    (h : ctx.introduceAll params = .ok ctx') :
    (params.map (·.name)).Nodup ∧ ∀ x ∈ params.map (·.name), List.lookup x scope = none := by
  induction params generalizing ctx scope with
  | nil => simp
  | cons p params ih =>
    obtain ⟨inner, hp, hrest⟩ := introduceAll_cons.mp h
    obtain ⟨hlocal, rfl⟩ := introduce_eq_ok.mp hp
    obtain ⟨hnodup, hnone⟩ := ih (by rw [ready_of_cons hctx]) hrest
    have hp := hasLocal_of_cons hctx hlocal
    rw [List.map_cons, List.nodup_cons]
    refine ⟨⟨fun hmem => ?_, hnodup⟩, fun x hx => ?_⟩
    · have := hnone _ hmem
      rw [lookup_ready, if_pos rfl] at this
      cases this
    · obtain rfl | hx := List.mem_cons.mp hx
      · exact hp
      · have := hnone _ hx
        rw [lookup_ready] at this
        split at this
        · cases this
        · exact this

/-! ## Marks and distances -/

/-- The mark of a name in the scope that a reference to it is about. -/
def mark? (ctx : Context) (x : String) : Option Bool := ctx.scopes.findSome? (·.lookup x)

theorem mark?_of_distance? {d : Nat} (h : ctx.distance? x = some d) :
    ∃ scope b, ctx.scopes[d]? = some scope ∧ scope.lookup x = some b ∧ ctx.mark? x = some b := by
  unfold distance? at h
  unfold mark?
  generalize ctx.scopes = scopes at h
  induction scopes generalizing d with
  | nil => cases h
  | cons scope outer ih =>
    rw [List.findIdx?_cons] at h
    rw [List.findSome?_cons]
    cases hx : scope.lookup x with
    | some b =>
      simp only [hx, Option.isSome_some, if_true] at h
      cases h
      exact ⟨scope, b, rfl, hx, rfl⟩
    | none =>
      simp only [hx, Option.isSome_none, Bool.false_eq_true, if_false] at h
      obtain ⟨d, hd, rfl⟩ := Option.map_eq_some_iff.mp h
      exact ih hd

/-- A name that the innermost scope does not have ready is found right there. -/
theorem distance?_of_head (h : ctx.scopes = scope :: outer) (hx : scope.lookup x = some b) :
    ctx.distance? x = some 0 := by
  simp [distance?, h, List.findIdx?_cons, hx]

theorem mark?_of_head (h : ctx.scopes = scope :: outer) (hx : scope.lookup x = some b) :
    ctx.mark? x = some b := by
  simp [mark?, h, hx]

end LoxLang.Scoping.Context
