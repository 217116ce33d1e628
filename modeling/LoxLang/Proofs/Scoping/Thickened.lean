import LoxLang.Proofs.Scoping.Resolution
import LoxLang.Proofs.Scoping.Stepping

/-!
# Distances with and without blocks

The block around the body and the step of a loop declares nothing. So a program has the same faults
with and without these blocks, and a distance without them becomes one with them when the blocks on
the way are counted.

* `Context.thicken`: a context with the scopes of the blocks;
* `Context.Calm`: no variable is being initialized, so that nothing hides behind a block;
* `Distances.lift`: distances with the blocks, from those without;
* `resolve_lifted`: the distances with the blocks are those without, lifted.
-/

namespace LoxLang

open Scoping

/-! ## Contexts -/

namespace Scoping.Context

variable {layers : Layers} {ctx ctx' : Context} {name : String}

/-- The context with the scopes of the blocks. -/
def thicken (layers : Layers) (ctx : Context) : Context :=
  { ctx with scopes := layers.thicken ctx.scopes }

/-- No variable is being initialized. -/
def Calm (ctx : Context) : Prop := ∀ name, ctx.isInitializing name = false

theorem calm_top : top.Calm := fun _ => rfl

theorem Calm.push (ctx : Context) (scope : Scope) (h : ∀ x, scope.lookup x ≠ some false) :
    (ctx.push scope).Calm := by
  intro name
  simpa [isInitializing, Context.push] using h name

theorem Calm.ready (h : ctx.Calm) (x : String) : (ctx.ready x).Calm := by
  intro name
  cases hscopes : ctx.scopes with
  | nil => rw [ready_of_nil hscopes, h]
  | cons scope outer =>
    have hname := h name
    simp only [isInitializing, hscopes] at hname
    rw [ready_of_cons hscopes]
    simp only [isInitializing, lookup_ready]
    split
    · rfl
    · exact hname

/-- Calm is a matter of the scopes and of global initializers only. -/
theorem Calm.of_scopes (h : ctx.Calm) (hscopes : ctx'.scopes = ctx.scopes)
    (hinitializing : ctx'.initializing = ctx.initializing) : ctx'.Calm := by
  intro name
  have hname := h name
  simp only [isInitializing] at hname ⊢
  rwa [hscopes, hinitializing]

theorem Calm.introduce (h : ctx.Calm) {x : Identifier} (hx : ctx.introduce x = .ok ctx') :
    ctx'.Calm := by
  obtain ⟨-, rfl⟩ := introduce_eq_ok.mp hx
  exact h.ready x.name

theorem Calm.introduceAll (h : ctx.Calm) {params : List Identifier}
    (hparams : ctx.introduceAll params = .ok ctx') : ctx'.Calm := by
  induction params generalizing ctx with
  | nil =>
    cases hparams
    exact h
  | cons p rest ih =>
    obtain ⟨introduced, hp, hrest⟩ := introduceAll_cons.mp hparams
    exact ih (h.introduce hp) hrest

theorem Calm.inRoutine (ctx : Context) (routine : Routine) : (ctx.inRoutine routine).Calm :=
  (Calm.push ctx [] (by simp)).of_scopes rfl rfl

/-- The innermost scope is there with and without the blocks. -/
theorem thicken_cases (h : layers.head? ≠ some .extra) (scopes : List Scope) :
    (scopes = [] ∧ layers.thicken [] = []) ∨
      ∃ scope outer outer', scopes = scope :: outer ∧
        ∀ scope', layers.thicken (scope' :: outer) = scope' :: outer' := by
  cases scopes with
  | nil =>
    cases layers with
    | nil => exact .inl ⟨rfl, rfl⟩
    | cons layer outer =>
      cases layer with
      | shared => exact .inl ⟨rfl, rfl⟩
      | extra => exact absurd rfl h
  | cons scope outer =>
    cases layers with
    | nil => exact .inr ⟨scope, outer, outer, rfl, fun _ => rfl⟩
    | cons layer around =>
      cases layer with
      | shared => exact .inr ⟨scope, outer, _, rfl, fun _ => rfl⟩
      | extra => exact absurd rfl h

theorem hasLocal_thicken (h : layers.head? ≠ some .extra) (name : String) :
    (ctx.thicken layers).hasLocal name = ctx.hasLocal name := by
  obtain ⟨hscopes, hthick⟩ | ⟨scope, outer, outer', hscopes, hthick⟩ :=
    thicken_cases h ctx.scopes
  · simp only [hasLocal, thicken, hscopes, hthick]
  · simp only [hasLocal, thicken, hscopes, hthick]

theorem mark_thicken (h : layers.head? ≠ some .extra) (name : String) (ready : Bool) :
    (ctx.thicken layers).mark name ready = (ctx.mark name ready).thicken layers := by
  obtain ⟨hscopes, hthick⟩ | ⟨scope, outer, outer', hscopes, hthick⟩ :=
    thicken_cases h ctx.scopes
  · have hthickened : (ctx.thicken layers).scopes = [] := by simp only [thicken, hscopes, hthick]
    rw [mark_of_nil hscopes, mark_of_nil hthickened]
  · have hthickened : (ctx.thicken layers).scopes = scope :: outer' := by
      simp only [thicken, hscopes, hthick]
    rw [mark_of_cons hscopes, mark_of_cons hthickened]
    simp only [thicken, hthick]

theorem inInitializer_thicken (h : layers.head? ≠ some .extra) (name : String) :
    (ctx.thicken layers).inInitializer name = (ctx.inInitializer name).thicken layers := by
  obtain ⟨hscopes, hthick⟩ | ⟨scope, outer, outer', hscopes, hthick⟩ :=
    thicken_cases h ctx.scopes
  · simp only [inInitializer, thicken, hscopes, hthick, List.isEmpty_nil, if_true]
  · simp only [inInitializer, thicken, hscopes, hthick, List.isEmpty_cons, Bool.false_eq_true,
      if_false]

theorem isInitializing_thicken (h : layers.head? ≠ some .extra) (name : String) :
    (ctx.thicken layers).isInitializing name = ctx.isInitializing name := by
  obtain ⟨hscopes, hthick⟩ | ⟨scope, outer, outer', hscopes, hthick⟩ :=
    thicken_cases h ctx.scopes
  · simp only [isInitializing, thicken, hscopes, hthick]
  · simp only [isInitializing, thicken, hscopes, hthick]

/-- Where no variable is being initialized, none is so behind a block. -/
theorem Calm.isInitializing_thicken (h : ctx.Calm) (layers : Layers) (name : String) :
    (ctx.thicken layers).isInitializing name = ctx.isInitializing name := by
  by_cases hhead : layers.head? = some .extra
  · obtain ⟨outer, rfl⟩ := List.head?_eq_some_iff.mp hhead
    rw [h name]
    rfl
  · exact Context.isInitializing_thicken hhead name

theorem distance?_thicken (layers : Layers) (ctx : Context) (name : String) :
    (ctx.thicken layers).distance? name = (ctx.distance? name).map layers.lift := by
  unfold distance? thicken
  dsimp only
  generalize ctx.scopes = scopes
  induction layers generalizing scopes with
  | nil => exact Option.map_id'.symm
  | cons layer outer ih =>
    cases layer with
    | shared =>
      cases scopes with
      | nil => rfl
      | cons scope scopes =>
        rw [Layers.thicken, List.findIdx?_cons, List.findIdx?_cons, ih]
        split
        · rfl
        · rw [Option.map_map, Option.map_map]
          rfl
    | extra =>
      rw [Layers.thicken, List.findIdx?_cons, ih, if_neg (by simp), Option.map_map]
      rfl

end Scoping.Context

/-! ## Distances -/

/-- The distances with the blocks, where a node has these layers around it. -/
def Distances.lift (around : NodeId → Layers) (d : Distances) : Distances :=
  d.map fun entry => (entry.1, (around entry.1).lift entry.2)

section
variable {around : NodeId → Layers}

@[simp] theorem Distances.lift_append (d d' : Distances) :
    Distances.lift around (d ++ d') = Distances.lift around d ++ Distances.lift around d' :=
  List.map_append

theorem Distances.of?_lift (d : Distances) (id : NodeId) :
    (Distances.lift around d).of? id = (d.of? id).map (around id).lift := by
  induction d with
  | nil => rfl
  | cons entry rest ih =>
    obtain ⟨node, distance⟩ := entry
    change Distances.of? ((node, (around node).lift distance) :: Distances.lift around rest) id = _
    rw [of?_cons, of?_cons, ih]
    split
    · rename_i heq
      rw [heq]
      rfl
    · rfl

end

/-! ## Resolving -/

/-- What comes behind two results that differ by a map. -/
theorem except_map_bind {ε α β γ δ : Type} {φ : α → β} {ψ : γ → δ} {x : Except ε α}
    {f : α → Except ε γ} {g : β → Except ε δ}
    (h : ∀ a, x = .ok a → g (φ a) = (f a).map ψ) : x.map φ >>= g = (x >>= f).map ψ := by
  cases x with
  | ok a => exact h a rfl
  | error e => rfl

section
variable {layers : Layers} {ctx : Context} {around : NodeId → Layers}

theorem entry_thicken {id : NodeId} (h : around id = layers) (name : String) :
    (ctx.thicken layers).entry id name = Distances.lift around (ctx.entry id name) := by
  unfold Context.entry
  rw [Context.distance?_thicken]
  cases ctx.distance? name with
  | none => rfl
  | some d =>
    rw [← h]
    rfl

theorem declare_thicken (h : layers.head? ≠ some .extra) (name : Identifier) :
    (ctx.thicken layers).declare name = (ctx.declare name).map (·.thicken layers) := by
  unfold Context.declare
  rw [Context.hasLocal_thicken h, Context.mark_thicken h]
  split <;> rfl

theorem introduce_thicken (h : layers.head? ≠ some .extra) (name : Identifier) :
    (ctx.thicken layers).introduce name = (ctx.introduce name).map (·.thicken layers) := by
  unfold Context.introduce
  rw [declare_thicken h]
  exact except_map_bind fun declared _ => congrArg Except.ok (Context.mark_thicken h _ _)

theorem introduceAll_thicken (h : layers.head? ≠ some .extra) (params : List Identifier) :
    (ctx.thicken layers).introduceAll params
      = (ctx.introduceAll params).map (·.thicken layers) := by
  induction params generalizing ctx with
  | nil => rfl
  | cons p rest ih =>
    rw [Context.introduceAll, Context.introduceAll, introduce_thicken h]
    exact except_map_bind fun introduced _ => ih

theorem checkReturn_thicken (line : Nat) (value : Option Expr) :
    checkReturn (ctx.thicken layers) line value = checkReturn ctx line value := rfl

mutual

theorem resolveExpr_lifted
    (hsame : ∀ name, (ctx.thicken layers).isInitializing name = ctx.isInitializing name)
    (e : Expr) (haround : ∀ id ∈ e.ids, around id = layers) :
    resolveExpr (ctx.thicken layers) e = (resolveExpr ctx e).map (Distances.lift around) := by
  match e with
  | .literal _ => rfl
  | .grouping inner | .unary _ _ inner | .get inner _ =>
    exact resolveExpr_lifted hsame inner haround
  | .variable id name =>
    simp only [resolveExpr, hsame, entry_thicken (haround id List.mem_cons_self)]
    split <;> rfl
  | .this id line =>
    simp only [resolveExpr, entry_thicken (haround id List.mem_cons_self)]
    change (if ctx.inClass then _ else _) = _
    split <;> rfl
  | .assign id name value =>
    rw [Expr.ids_assign, List.forall_mem_append] at haround
    simp only [resolveExpr, entry_thicken (haround.2 id List.mem_cons_self),
      resolveExpr_lifted hsame value haround.1]
    exact except_map_bind fun inside _ => congrArg Except.ok (Distances.lift_append _ _).symm
  | .binary _ _ left right =>
    rw [Expr.ids_binary, List.forall_mem_append] at haround
    simp only [resolveExpr, resolveExpr_lifted hsame left haround.1,
      resolveExpr_lifted hsame right haround.2]
    exact except_map_bind fun first _ => except_map_bind fun second _ =>
      congrArg Except.ok (Distances.lift_append second first).symm
  | .logical _ left right =>
    rw [Expr.ids_logical, List.forall_mem_append] at haround
    simp only [resolveExpr, resolveExpr_lifted hsame left haround.1,
      resolveExpr_lifted hsame right haround.2]
    exact except_map_bind fun first _ => except_map_bind fun second _ =>
      congrArg Except.ok (Distances.lift_append second first).symm
  | .call callee _ arguments =>
    rw [Expr.ids_call, List.forall_mem_append] at haround
    simp only [resolveExpr, resolveExpr_lifted hsame callee haround.1,
      resolveExprs_lifted hsame arguments haround.2]
    exact except_map_bind fun first _ => except_map_bind fun second _ =>
      congrArg Except.ok (Distances.lift_append second first).symm
  | .set object _ value =>
    rw [Expr.ids_set, List.forall_mem_append] at haround
    simp only [resolveExpr, resolveExpr_lifted hsame value haround.1,
      resolveExpr_lifted hsame object haround.2]
    exact except_map_bind fun first _ => except_map_bind fun second _ =>
      congrArg Except.ok (Distances.lift_append second first).symm

theorem resolveExprs_lifted
    (hsame : ∀ name, (ctx.thicken layers).isInitializing name = ctx.isInitializing name)
    (es : List Expr) (haround : ∀ id ∈ Expr.allIds es, around id = layers) :
    resolveExprs (ctx.thicken layers) es = (resolveExprs ctx es).map (Distances.lift around) := by
  match es with
  | [] => rfl
  | e :: rest =>
    rw [Expr.allIds_cons, List.forall_mem_append] at haround
    simp only [resolveExprs, resolveExpr_lifted hsame e haround.1,
      resolveExprs_lifted hsame rest haround.2]
    exact except_map_bind fun first _ => except_map_bind fun others _ =>
      congrArg Except.ok (Distances.lift_append others first).symm

end

end

/-! ## Statements -/

namespace Stepping

variable {chosen : Choice}

/-- Behind a statement no variable is being initialized. -/
theorem resolveStmt_calm {ctx behind : Context} (s : Stmt) {d : Distances} (hcalm : ctx.Calm)
    (h : resolveStmt chosen ctx s = .ok (behind, d)) : behind.Calm := by
  match s with
  | .expression _ | .print _ =>
    obtain ⟨inside, -, h⟩ := except_bind_eq_ok.mp h
    cases h
    exact hcalm
  | .varDecl name _ =>
    obtain ⟨declared, hdeclared, h⟩ := except_bind_eq_ok.mp h
    obtain ⟨inside, -, h⟩ := except_bind_eq_ok.mp h
    cases h
    obtain ⟨-, rfl⟩ := Context.declare_eq_ok.mp hdeclared
    exact hcalm.ready name.name
  | .block _ =>
    obtain ⟨⟨_, inside⟩, -, h⟩ := except_bind_eq_ok.mp h
    cases h
    exact hcalm
  | .ifElse _ thenBranch none =>
    obtain ⟨first, -, h⟩ := except_bind_eq_ok.mp h
    obtain ⟨⟨inner, second⟩, hthen, h⟩ := except_bind_eq_ok.mp h
    cases h
    exact resolveStmt_calm thenBranch hcalm hthen
  | .ifElse _ thenBranch (some elseBranch) =>
    obtain ⟨first, -, h⟩ := except_bind_eq_ok.mp h
    obtain ⟨⟨inner, second⟩, hthen, h⟩ := except_bind_eq_ok.mp h
    obtain ⟨⟨inner', third⟩, helse, h⟩ := except_bind_eq_ok.mp h
    cases h
    exact resolveStmt_calm elseBranch (resolveStmt_calm thenBranch hcalm hthen) helse
  | .whileLoop condition body =>
    obtain ⟨first, -, h⟩ := except_bind_eq_ok.mp h
    have hinside : Context.Calm { ctx with inLoop := true } := hcalm.of_scopes rfl rfl
    split at h
    · obtain ⟨second, -, h⟩ := except_bind_eq_ok.mp h
      cases h
      exact hcalm
    · obtain ⟨⟨inner, second⟩, hbody, h⟩ := except_bind_eq_ok.mp h
      cases h
      exact (resolveStmt_calm body hinside hbody).of_scopes rfl rfl
  | .breakLoop _ =>
    unfold resolveStmt at h
    split at h <;> cases h
    exact hcalm
  | .funDecl f =>
    obtain ⟨introduced, hintroduced, h⟩ := except_bind_eq_ok.mp h
    obtain ⟨inside, -, h⟩ := except_bind_eq_ok.mp h
    cases h
    exact hcalm.introduce hintroduced
  | .returnValue _ none =>
    obtain ⟨_, -, h⟩ := except_bind_eq_ok.mp h
    cases h
    exact hcalm
  | .returnValue _ (some _) =>
    obtain ⟨_, -, h⟩ := except_bind_eq_ok.mp h
    obtain ⟨inside, -, h⟩ := except_bind_eq_ok.mp h
    cases h
    exact hcalm
  | .classDecl name _ =>
    obtain ⟨introduced, hintroduced, h⟩ := except_bind_eq_ok.mp h
    obtain ⟨inside, -, h⟩ := except_bind_eq_ok.mp h
    cases h
    exact hcalm.introduce hintroduced

end Stepping

/-- A statement stands right inside the scope of a block that is not always there only if it
declares nothing. -/
def Stmt.Suits (layers : Layers) (s : Stmt) : Prop :=
  layers.head? = some .extra → s.declaredName? = none

theorem Stmt.Suits.shared {layers : Layers} {s : Stmt} {name : String} (h : s.Suits layers)
    (hname : s.declaredName? = some name) : layers.head? ≠ some .extra := by
  intro hextra
  rw [h hextra] at hname
  cases hname

section
variable {around : NodeId → Layers}

/-- What is found in a statement, with the blocks. -/
def lifted (layers : Layers) (around : NodeId → Layers) :
    Context × Distances → Context × Distances :=
  Prod.map (Context.thicken layers) (Distances.lift around)

/-- The nodes have these layers around them. -/
abbrev Surrounds (around : NodeId → Layers) (nodes : List (NodeId × Layers)) : Prop :=
  ∀ node ∈ nodes, around node.1 = node.2

theorem Surrounds.expr {e : Expr} {layers : Layers} (h : Surrounds around (e.layered layers)) :
    ∀ id ∈ e.ids, around id = layers :=
  fun _ hid => h _ (List.mem_map_of_mem hid)

variable {chosen : Choice} {ctx : Context} {layers : Layers}

/-- The body and the step of a loop: with the block around them, and without it. Nothing that the
body does can hide a name from the step. -/
theorem resolveStepped_lifted {body : Stmt} {step : Expr} (hcalm : ctx.Calm)
    (hregular : body.Regular) (hnone : body.declaredName? = none)
    (hbody : resolveStmt (ctx.thicken (.extra :: layers)) body
      = (Stepping.resolveStmt chosen ctx body).map (lifted (.extra :: layers) around))
    (hstep : Surrounds around (step.layered (.extra :: layers))) :
    resolveStmt (ctx.thicken layers) (.block [body, .expression step])
      = (Stepping.resolveStepped chosen ctx (.block [body, .expression step])).map
          fun d => (ctx.thicken layers, Distances.lift around d) := by
  have hexpr := resolveExpr_lifted (hcalm.isInitializing_thicken (.extra :: layers)) step hstep.expr
  unfold Stepping.resolveStepped
  cases hfound : Stepping.resolveStmt chosen ctx body with
  | error e =>
    rw [hfound] at hbody
    change ((resolveStmt (ctx.thicken (.extra :: layers)) body >>= _) >>= _) = _
    rw [hbody]
    rfl
  | ok found =>
    rw [hfound] at hbody
    have hbehind : found.1.thicken (.extra :: layers) = ctx.thicken (.extra :: layers) :=
      resolveStmt_undeclared hregular hnone hbody
    change ((resolveStmt (ctx.thicken (.extra :: layers)) body >>= fun first =>
      (resolveStmts first.1 [.expression step] >>= _)) >>= _) = _
    rw [hbody]
    change ((resolveStmts (found.1.thicken (.extra :: layers)) [.expression step] >>= _) >>= _) = _
    rw [hbehind]
    simp only [resolveStmts, resolveStmt, hexpr]
    cases resolveExpr ctx step with
    | error e => rfl
    | ok d => exact congrArg (fun d => Except.ok (_, d)) (Distances.lift_append d found.2).symm

mutual

theorem resolveStmt_lifted {ctx : Context} (layers : Layers) (s : Stmt) (hcalm : ctx.Calm)
    (hregular : s.Regular) (hsuits : s.Suits layers)
    (haround : Surrounds around (s.layered chosen layers)) :
    resolveStmt (ctx.thicken layers) s
      = (Stepping.resolveStmt chosen ctx s).map (lifted layers around) := by
  have hsame := hcalm.isInitializing_thicken layers
  match s with
  | .expression e | .print e =>
    simp only [resolveStmt, Stepping.resolveStmt,
      resolveExpr_lifted hsame e (Surrounds.expr haround)]
    exact except_map_bind fun _ _ => rfl
  | .varDecl name e =>
    have hshared := hsuits.shared rfl
    simp only [resolveStmt, Stepping.resolveStmt, declare_thicken hshared]
    refine except_map_bind fun declared _ => ?_
    rw [Context.inInitializer_thicken hshared, Context.mark_thicken hshared,
      resolveExpr_lifted (Context.isInitializing_thicken hshared) e (Surrounds.expr haround)]
    exact except_map_bind fun _ _ => rfl
  | .block body =>
    have hinside : (ctx.push []).Calm := .push ctx [] (by simp)
    have hbody := resolveStmts_lifted (.shared :: layers) body hinside hregular
      (fun h => nomatch h) haround
    change (resolveStmts ((ctx.push []).thicken (.shared :: layers)) body >>= _) = _
    rw [hbody]
    exact except_map_bind fun _ _ => rfl
  | .ifElse condition thenBranch none =>
    obtain ⟨hcondition, hthen⟩ := List.forall_mem_append.mp haround
    simp only [resolveStmt, Stepping.resolveStmt,
      resolveExpr_lifted hsame condition (Surrounds.expr hcondition)]
    refine except_map_bind fun first _ => ?_
    rw [resolveStmt_lifted layers thenBranch hcalm hregular.2 (fun _ => hregular.1) hthen]
    exact except_map_bind fun second _ =>
      congrArg (fun d => Except.ok (_, d)) (Distances.lift_append second.2 first).symm
  | .ifElse condition thenBranch (some elseBranch) =>
    obtain ⟨hfront, helse⟩ := List.forall_mem_append.mp haround
    obtain ⟨hcondition, hthen⟩ := List.forall_mem_append.mp hfront
    obtain ⟨⟨hnone, hregular⟩, hnone', hregular'⟩ := hregular
    simp only [resolveStmt, Stepping.resolveStmt,
      resolveExpr_lifted hsame condition (Surrounds.expr hcondition)]
    refine except_map_bind fun first _ => ?_
    rw [resolveStmt_lifted layers thenBranch hcalm hregular (fun _ => hnone) hthen]
    refine except_map_bind fun second hsecond => ?_
    have hcalm' := Stepping.resolveStmt_calm thenBranch hcalm hsecond
    have hrest := resolveStmt_lifted layers elseBranch hcalm' hregular' (fun _ => hnone') helse
    change (resolveStmt (second.1.thicken layers) elseBranch >>= _) = _
    rw [hrest]
    refine except_map_bind fun third _ => congrArg (fun d => Except.ok (_, d)) ?_
    rw [Distances.lift_append, Distances.lift_append]
    rfl
  | .whileLoop condition body =>
    obtain ⟨hcondition, hbody⟩ := List.forall_mem_append.mp haround
    simp only [resolveStmt, Stepping.resolveStmt,
      resolveExpr_lifted hsame condition (Surrounds.expr hcondition)]
    refine except_map_bind fun first _ => ?_
    have hinside : Context.Calm { ctx with inLoop := true } := hcalm.of_scopes rfl rfl
    change (resolveStmt (Context.thicken layers { ctx with inLoop := true }) body >>= _) = _
    cases hstep : chosen.step? condition body with
    | none =>
      rw [hstep] at hbody
      rw [resolveStmt_lifted layers body hinside hregular.2 (fun _ => hregular.1) hbody]
      exact except_map_bind fun second _ =>
        congrArg (fun d => Except.ok (_, d)) (Distances.lift_append second.2 first).symm
    | some stepped =>
      obtain ⟨inner, step⟩ := stepped
      rw [hstep] at hbody
      obtain ⟨-, rfl, hnone⟩ := Choice.step?_eq_some.mp hstep
      obtain ⟨hinner, hincrement⟩ := List.forall_mem_append.mp hbody
      have hlifted := resolveStmt_lifted (.extra :: layers) inner hinside hregular.2.1
        (fun _ => hnone) hinner
      rw [resolveStepped_lifted hinside hregular.2.1 hnone hlifted hincrement]
      exact except_map_bind fun second _ =>
        congrArg (fun d => Except.ok (_, d)) (Distances.lift_append second first).symm
  | .breakLoop line =>
    simp only [resolveStmt, Stepping.resolveStmt]
    change (if ctx.inLoop then _ else _) = _
    split <;> rfl
  | .funDecl f =>
    have hshared := hsuits.shared rfl
    simp only [resolveStmt, Stepping.resolveStmt, introduce_thicken hshared]
    refine except_map_bind fun introduced _ => ?_
    rw [resolveFunction_lifted layers .ordinary f hregular haround]
    exact except_map_bind fun _ _ => rfl
  | .returnValue line none =>
    simp only [resolveStmt, Stepping.resolveStmt, checkReturn_thicken]
    cases checkReturn ctx line none <;> rfl
  | .returnValue line (some e) =>
    simp only [resolveStmt, Stepping.resolveStmt, checkReturn_thicken,
      resolveExpr_lifted hsame e (Surrounds.expr haround)]
    cases checkReturn ctx line (some e) with
    | error e => rfl
    | ok _ => exact except_map_bind fun _ _ => rfl
  | .classDecl name methods =>
    have hshared := hsuits.shared rfl
    simp only [resolveStmt, Stepping.resolveStmt, introduce_thicken hshared]
    refine except_map_bind fun introduced _ => ?_
    change (resolveMethods (introduced.inClassBody.thicken (.shared :: layers)) methods >>= _) = _
    rw [resolveMethods_lifted (.shared :: layers) methods hregular haround]
    exact except_map_bind fun _ _ => rfl
termination_by sizeOf s

theorem resolveStmts_lifted {ctx : Context} (layers : Layers) (ss : List Stmt) (hcalm : ctx.Calm)
    (hregular : Stmt.AllRegular ss) (hshared : layers.head? ≠ some .extra)
    (haround : Surrounds around (Stmt.allLayered chosen layers ss)) :
    resolveStmts (ctx.thicken layers) ss
      = (Stepping.resolveStmts chosen ctx ss).map (lifted layers around) := by
  match ss with
  | [] => rfl
  | s :: rest =>
    obtain ⟨hs, hrest⟩ := List.forall_mem_append.mp haround
    simp only [resolveStmts, Stepping.resolveStmts]
    rw [resolveStmt_lifted layers s hcalm hregular.1 (fun h => absurd h hshared) hs]
    refine except_map_bind fun first hfirst => ?_
    have hcalm' := Stepping.resolveStmt_calm s hcalm hfirst
    have hothers := resolveStmts_lifted layers rest hcalm' hregular.2 hshared hrest
    change (resolveStmts (first.1.thicken layers) rest >>= _) = _
    rw [hothers]
    exact except_map_bind fun others _ =>
      congrArg (fun d => Except.ok (_, d)) (Distances.lift_append others.2 first.2).symm
termination_by sizeOf ss

theorem resolveFunction_lifted {ctx : Context} (layers : Layers) (routine : Routine)
    (f : FunctionDecl) (hregular : f.Regular)
    (haround : Surrounds around (f.layered chosen layers)) :
    resolveFunction ((ctx.thicken layers).inRoutine routine) f
      = (Stepping.resolveFunction chosen (ctx.inRoutine routine) f).map
          (Distances.lift around) := by
  match f with
  | .mk name params body =>
    have hhead : (Layer.shared :: layers).head? ≠ some .extra := fun h => nomatch h
    simp only [resolveFunction, Stepping.resolveFunction]
    change (((ctx.inRoutine routine).thicken (.shared :: layers)).introduceAll params >>= _) = _
    rw [introduceAll_thicken hhead]
    refine except_map_bind fun inside hinside => ?_
    have hcalm := (Context.Calm.inRoutine ctx routine).introduceAll hinside
    rw [resolveStmts_lifted (.shared :: layers) body hcalm hregular.2 hhead haround]
    exact except_map_bind fun _ _ => rfl
termination_by sizeOf f

theorem resolveMethods_lifted {ctx : Context} (layers : Layers) (fs : List FunctionDecl)
    (hregular : FunctionDecl.AllRegular fs)
    (haround : Surrounds around (FunctionDecl.allLayered chosen layers fs)) :
    resolveMethods (ctx.thicken layers) fs
      = (Stepping.resolveMethods chosen ctx fs).map (Distances.lift around) := by
  match fs with
  | [] => rfl
  | f :: rest =>
    obtain ⟨hf, hrest⟩ := List.forall_mem_append.mp haround
    simp only [resolveMethods, Stepping.resolveMethods]
    rw [resolveFunction_lifted layers _ f hregular.1 hf]
    refine except_map_bind fun first _ => ?_
    rw [resolveMethods_lifted layers rest hregular.2 hrest]
    exact except_map_bind fun others _ =>
      congrArg Except.ok (Distances.lift_append others first).symm
termination_by sizeOf fs

end

/-- **Distances with blocks are lifted ones.** A program is accepted with the blocks in its loops
just when it is accepted without them, and otherwise it has the same fault. -/
theorem resolve_lifted {p : Program} (hregular : Stmt.AllRegular p)
    (haround : Surrounds around (Stmt.allLayered chosen [] p)) :
    Program.resolve p = (Stepping.resolve chosen p).map (Distances.lift around) := by
  have hp := resolveStmts_lifted [] p Context.calm_top hregular (fun h => nomatch h) haround
  have htop : Context.thicken [] .top = .top := rfl
  rw [htop] at hp
  unfold Program.resolve Stepping.resolve
  rw [hp]
  exact except_map_bind fun _ _ => rfl

end

/-! ## The layers of a program -/

section
variable {chosen : Choice}

theorem Expr.layered_ids (layers : Layers) (e : Expr) : (e.layered layers).map (·.1) = e.ids := by
  unfold Expr.layered
  rw [List.map_map]
  exact List.map_id' _

mutual

theorem Stmt.layered_ids (layers : Layers) (s : Stmt) :
    (s.layered chosen layers).map (·.1) = s.ids := by
  match s with
  | .expression e | .print e | .varDecl _ e | .returnValue _ (some e) =>
    exact e.layered_ids layers
  | .block body => exact Stmt.allLayered_ids (.shared :: layers) body
  | .ifElse condition thenBranch none =>
    rw [Stmt.ids_ifThen, Stmt.layered, List.map_append, condition.layered_ids,
      thenBranch.layered_ids]
  | .ifElse condition thenBranch (some elseBranch) =>
    rw [Stmt.ids_ifElse, Stmt.layered, List.map_append, List.map_append, condition.layered_ids,
      thenBranch.layered_ids, elseBranch.layered_ids]
  | .whileLoop condition body =>
    rw [Stmt.ids_whileLoop, Stmt.layered, List.map_append, condition.layered_ids]
    refine congrArg (condition.ids ++ ·) ?_
    cases hstep : chosen.step? condition body with
    | none => exact body.layered_ids layers
    | some stepped =>
      obtain ⟨inner, step⟩ := stepped
      obtain ⟨-, rfl, -⟩ := Choice.step?_eq_some.mp hstep
      rw [if_pos Option.isSome_some, Stmt.steppedLayered, List.map_append, inner.layered_ids,
        step.layered_ids]
      simp
  | .breakLoop _ | .returnValue _ none => rfl
  | .funDecl f => exact f.layered_ids layers
  | .classDecl _ methods => exact FunctionDecl.allLayered_ids (.shared :: layers) methods
termination_by sizeOf s

theorem Stmt.allLayered_ids (layers : Layers) (ss : List Stmt) :
    (Stmt.allLayered chosen layers ss).map (·.1) = Stmt.allIds ss := by
  match ss with
  | [] => rfl
  | s :: rest =>
    rw [Stmt.allIds_cons, Stmt.allLayered, List.map_append, s.layered_ids,
      Stmt.allLayered_ids layers rest]
termination_by sizeOf ss

theorem FunctionDecl.layered_ids (layers : Layers) (f : FunctionDecl) :
    (f.layered chosen layers).map (·.1) = f.ids := by
  match f with
  | .mk _ _ body => exact Stmt.allLayered_ids (.shared :: layers) body
termination_by sizeOf f

theorem FunctionDecl.allLayered_ids (layers : Layers) (fs : List FunctionDecl) :
    (FunctionDecl.allLayered chosen layers fs).map (·.1) = FunctionDecl.allIds fs := by
  match fs with
  | [] => rfl
  | f :: rest =>
    rw [FunctionDecl.allIds_cons, FunctionDecl.allLayered, List.map_append, f.layered_ids,
      FunctionDecl.allLayered_ids layers rest]
termination_by sizeOf fs

end

/-- Nodes with identities of their own have layers of their own. -/
theorem exists_around {nodes : List (NodeId × Layers)} (h : (nodes.map (·.1)).Nodup) :
    ∃ around, Surrounds around nodes := by
  induction nodes with
  | nil => exact ⟨fun _ => [], fun _ h => nomatch h⟩
  | cons node rest ih =>
    obtain ⟨id, layers⟩ := node
    obtain ⟨hnot, hrest⟩ := List.nodup_cons.mp h
    obtain ⟨around, haround⟩ := ih hrest
    refine ⟨fun x => if x = id then layers else around x, fun other hother => ?_⟩
    obtain rfl | hother := List.mem_cons.mp hother
    · exact if_pos rfl
    · have hmem : other.1 ∈ rest.map (·.1) := List.mem_map_of_mem hother
      have hne : ¬other.1 = id := fun heq => hnot (heq ▸ hmem)
      dsimp only
      rw [if_neg hne]
      exact haround other hother

end

end LoxLang
