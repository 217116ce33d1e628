import LoxLang.Proofs.Running.Stores

/-!
# Linked values

Linked values resemble each other: they are alike in everything a program can see, and operators
make the same of them.
-/

namespace LoxLang

variable {ρ : Renaming} {w : World} {v v' : Value}

theorem FunctionLinked.name_eq {K : Findings} {ctx : Scoping.Context}
    {labels : List Label} {f f' : FunctionDecl} (h : FunctionLinked ρ K ctx labels f f') :
    f'.name = f.name := by
  cases h
  rfl

theorem FunctionLinked.params_length {K : Findings}
    {ctx : Scoping.Context} {labels : List Label} {f f' : FunctionDecl}
    (h : FunctionLinked ρ K ctx labels f f') : f'.params.length = f.params.length := by
  cases h
  exact List.length_map _

theorem FunctionsLinked.length_eq {K : Findings} {ctx : Scoping.Context}
    {labels : List Label} {ds ds' : List FunctionDecl}
    (h : FunctionsLinked ρ K ctx labels ds ds') : ds'.length = ds.length := by
  induction ds generalizing ds' with
  | nil =>
    cases h
    rfl
  | cons d rest ih =>
    cases h with
    | cons _ hrest => rw [List.length_cons, List.length_cons, ih hrest]

theorem ClosureLinked.name_eq {c c' : Closure} (h : ClosureLinked ρ w c c') : c'.name = c.name := by
  obtain ⟨ctx, labels, ⟨_, K, routine, _, hlinked, _⟩, _⟩ := h.code
  exact congrArg Identifier.name hlinked.name_eq

theorem ClosureLinked.arity_eq {c c' : Closure} (h : ClosureLinked ρ w c c') :
    c'.arity = c.arity := by
  obtain ⟨ctx, labels, ⟨_, K, routine, _, hlinked, _⟩, _⟩ := h.code
  exact hlinked.params_length

theorem MethodLinked.arity_eq {c c' : Closure} (h : MethodLinked ρ w c c') :
    c'.arity = c.arity := by
  obtain ⟨ctx, labels, ⟨_, K, routine, _, hlinked, _⟩, _⟩ := h.code
  exact hlinked.params_length

namespace ClassLinked

variable {c c' : Class}

theorem method? (h : ClassLinked ρ w c c') (name : String) :
    (c.method? name = none ∧ c'.method? name = none) ∨
      ∃ f f', c.method? name = some f ∧ c'.method? name = some f' ∧ MethodLinked ρ w f f' :=
  h.methods.find?_id name

theorem arity_eq (h : ClassLinked ρ w c c') : c'.arity = c.arity := by
  unfold Class.arity Class.initializer?
  obtain ⟨hf, hf'⟩ | ⟨f, f', hf, hf', hlinked⟩ := h.method? "init"
  · rw [hf, hf']
  · rw [hf, hf', Option.map_some, Option.map_some, hlinked.arity_eq]

end ClassLinked

namespace ValueLinked

theorem resembles (h : ValueLinked ρ w v v') : v.Resembles v' := by
  cases h with
  | plain hv => exact .plain hv
  | clock => exact .native
  | function hc => exact .function hc.stamp hc.name_eq hc.arity_eq
  | ofClass hc => exact .ofClass hc.stamp hc.name hc.arity_eq
  | object => exact .object

theorem display {s : Store} (h : ValueLinked ρ w v v') (hs : StoreLinked ρ w s) :
    s.display v' = w.store.display v :=
  h.resembles.display hs.className

end ValueLinked

/-! ## Completions -/

inductive CompletionLinked (ρ : Renaming) (w : World) : Completion → Completion → Prop
  | normal : CompletionLinked ρ w .normal .normal
  | breaking : CompletionLinked ρ w .breaking .breaking
  | returning {v v' : Value} :
      ValueLinked ρ w v v' → CompletionLinked ρ w (.returning v) (.returning v')

theorem CompletionLinked.later {o : Option FrameId} {w' : World} {c c' : Completion}
    (h : CompletionLinked ρ w c c') (hl : Later o w w') : CompletionLinked ρ w' c c' := by
  cases h with
  | normal => exact .normal
  | breaking => exact .breaking
  | returning hv => exact .returning (hv.later hl)

end LoxLang
