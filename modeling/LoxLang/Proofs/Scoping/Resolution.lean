import LoxLang.Proofs.Parsing.Regular
import LoxLang.Proofs.Scoping.Distances
import LoxLang.Proofs.Scoping.Respelling

/-!
# Resolved programs are linked with their spellings

* `Fits`, `Tidy`: what is true of the context of an expression, and of a statement;
* `resolveStmt_behind`: a declaration adds one name to its scope, and nothing else does;
* `resolveExpr_linked`, `resolveStmt_linked`: a resolved tree is linked with each of its spellings.
-/

namespace LoxLang

open Scoping

variable {ρ : Renaming} {K : Findings} {D : NodeId → Option Nat} {ctx : Context}
  {labels : List Label} {d : Distances}

/-! ## Contexts -/

/-- The context of a statement, where all names are ready. -/
structure Tidy (ρ : Renaming) (ctx : Context) (labels : List Label) : Prop where
  length : labels.length = ctx.scopes.length
  ready : ∀ scope ∈ ctx.scopes, ∀ x, scope.lookup x ≠ some false
  this : ∀ l ∈ labels, l.renamed = true → ρ.old ≠ "this"

/-- The context of an expression. The innermost scope may have a variable that is not ready. -/
structure Fits (ρ : Renaming) (ctx : Context) (labels : List Label) : Prop where
  length : labels.length = ctx.scopes.length
  inner : ∀ scope ∈ ctx.scopes.head?, ∀ x, scope.lookup x = some false →
    x ≠ "this" ∧ ∀ l ∈ labels.head?, x ∈ l.names
  outer : ∀ scope ∈ ctx.scopes.tail, ∀ x, scope.lookup x ≠ some false
  this : ∀ l ∈ labels, l.renamed = true → ρ.old ≠ "this"

theorem Tidy.fits (h : Tidy ρ ctx labels) : Fits ρ ctx labels where
  length := h.length
  inner scope hscope x hx := absurd hx (h.ready scope (List.mem_of_mem_head? hscope) x)
  outer scope hscope := h.ready scope (List.mem_of_mem_tail hscope)
  this := h.this

theorem Tidy.of_scopes (h : Tidy ρ ctx labels) {ctx' : Context}
    (hscopes : ctx'.scopes = ctx.scopes) : Tidy ρ ctx' labels where
  length := by rw [hscopes, h.length]
  ready := by
    rw [hscopes]
    exact h.ready
  this := h.this

/-- Inside a new scope. -/
theorem Tidy.push (h : Tidy ρ ctx labels) {ctx' : Context} {scope : Scope} {label : Label}
    (hscopes : ctx'.scopes = scope :: ctx.scopes) (hready : ∀ x, scope.lookup x ≠ some false)
    (hlabel : label.renamed = true → ρ.old ≠ "this") : Tidy ρ ctx' (label :: labels) where
  length := by rw [hscopes, List.length_cons, List.length_cons, h.length]
  ready := by
    rw [hscopes]
    exact List.forall_mem_cons.mpr ⟨hready, h.ready⟩
  this := List.forall_mem_cons.mpr ⟨hlabel, h.this⟩

theorem Tidy.behind (h : Tidy ρ ctx labels) (name : String) : Tidy ρ (ctx.ready name) labels := by
  cases hscopes : ctx.scopes with
  | nil =>
    rw [Context.ready_of_nil hscopes]
    exact h
  | cons scope outer =>
    obtain ⟨hlength, hready, hthis⟩ := h
    rw [hscopes] at hlength hready
    rw [Context.ready_of_cons hscopes]
    refine ⟨hlength, ?_, hthis⟩
    obtain ⟨hscope, houter⟩ := List.forall_mem_cons.mp hready
    refine List.forall_mem_cons.mpr ⟨fun x => ?_, houter⟩
    rw [Context.lookup_ready]
    split
    · simp
    · exact hscope x

theorem Tidy.introduce (h : Tidy ρ ctx labels) {name : Identifier} {introduced : Context}
    (hname : ctx.introduce name = .ok introduced) : Tidy ρ introduced labels := by
  obtain ⟨-, rfl⟩ := Context.introduce_eq_ok.mp hname
  exact h.behind name.name

theorem Tidy.inClassBody (h : Tidy ρ ctx labels) : Tidy ρ ctx.inClassBody (.this :: labels) := by
  have hready : ∀ x, List.lookup x [("this", true)] ≠ some false := by
    intro x
    rw [Context.lookup_cons]
    split <;> simp
  exact h.push rfl hready fun hr => nomatch hr

theorem Tidy.initializing (h : Tidy ρ ctx labels) {name : String} (hthis : name ≠ "this")
    (hname : ∀ l ∈ labels.head?, name ∈ l.names) :
    Fits ρ ((ctx.mark name false).inInitializer name) labels := by
  cases hscopes : ctx.scopes with
  | nil =>
    rw [Context.mark_of_nil hscopes]
    have htidy : Tidy ρ (ctx.inInitializer name) labels := h.of_scopes Context.scopes_inInitializer
    exact htidy.fits
  | cons scope outer =>
    have hmark : ((ctx.mark name false).inInitializer name).scopes
        = ((name, false) :: scope) :: outer := by
      rw [Context.scopes_inInitializer, Context.mark_of_cons hscopes]
    obtain ⟨hlength, hready, hold⟩ := h
    rw [hscopes] at hlength hready
    obtain ⟨hscope, houter⟩ := List.forall_mem_cons.mp hready
    refine ⟨by rw [hmark, hlength]; rfl, ?_, ?_, hold⟩
    · intro scope' hscope' x hx
      rw [hmark] at hscope'
      cases hscope'
      rw [Context.lookup_cons] at hx
      by_cases hxn : name = x
      · subst hxn
        exact ⟨hthis, hname⟩
      · rw [if_neg hxn] at hx
        exact absurd hx (hscope x)
    · rw [hmark]
      exact houter

namespace Fits

/-- A name that is not ready stands in the innermost scope. -/
theorem head_of_mark? (h : Fits ρ ctx labels) {x : String} (hx : ctx.mark? x = some false) :
    ∃ scope, ctx.scopes.head? = some scope ∧ scope.lookup x = some false := by
  unfold Context.mark? at hx
  obtain ⟨-, -, houter, -⟩ := h
  cases hscopes : ctx.scopes with
  | nil =>
    rw [hscopes] at hx
    cases hx
  | cons scope outer =>
    rw [hscopes] at hx houter
    rw [List.findSome?_cons] at hx
    cases hlookup : scope.lookup x with
    | some b =>
      rw [hlookup] at hx
      exact ⟨scope, rfl, hlookup.trans hx⟩
    | none =>
      rw [hlookup] at hx
      obtain ⟨scope', hmem, hfalse⟩ := List.exists_of_findSome?_eq_some hx
      exact absurd hfalse (houter scope' hmem x)

theorem unready (h : Fits ρ ctx labels) {x : String} (hx : ctx.mark? x = some false) :
    Unready ctx labels x := by
  obtain ⟨scope, hscope, hlookup⟩ := h.head_of_mark? hx
  exact ⟨⟨scope, hscope, hlookup⟩, (h.inner scope hscope x hlookup).2⟩

theorem this_ready (h : Fits ρ ctx labels) : ctx.mark? "this" ≠ some false := by
  intro hthis
  obtain ⟨scope, hscope, hlookup⟩ := h.head_of_mark? hthis
  exact (h.inner scope hscope "this" hlookup).1 rfl

theorem this_reference (h : Fits ρ ctx labels) : ρ.reference ctx labels "this" = "this" := by
  unfold Renaming.reference Renaming.follow
  cases ctx.distance? "this" with
  | none => rfl
  | some k =>
    cases hl : labels[k]? with
    | none => simp only [hl, Renaming.inScope_none]
    | some l =>
      have hold := h.this l (List.mem_of_getElem? hl)
      simp only [hl, Renaming.inScope]
      cases hr : l.renamed with
      | false => simp [hr]
      | true => simp [hr, Ne.symm (hold hr)]

/-- A variable whose initializer the node is not in is ready. -/
theorem ready (h : Fits ρ ctx labels) {x : String} (hx : ctx.isInitializing x = false) :
    ctx.mark? x ≠ some false := by
  intro hmark
  obtain ⟨scope, hscope, hlookup⟩ := h.head_of_mark? hmark
  obtain ⟨outer, hscopes⟩ := List.head?_eq_some_iff.mp hscope
  simp [Context.isInitializing, hscopes, hlookup] at hx

end Fits

/-! ## Expressions -/

theorem recorded_of_entry {id : NodeId} {name : String}
    (h : Known K.distance? D K.next (ctx.entry id name) [id]) :
    Recorded K ctx id name ∧ D id = ctx.distance? name := by
  have hentry : (ctx.entry id name).of? id = ctx.distance? name := by
    unfold Context.entry
    cases hd : ctx.distance? name with
    | none => rfl
    | some k =>
      rw [Distances.of?_cons, if_pos rfl]
  have hmem : id ∈ [id] := List.mem_singleton_self id
  exact ⟨⟨h.below id hmem, (h.table id hmem).trans hentry⟩, (h.own id hmem).trans hentry⟩

/-- The arguments of a call were all resolved in one context. -/
theorem resolveExprs_each {es : List Expr} (h : resolveExprs ctx es = .ok d)
    (hknown : Known K.distance? D K.next d (Expr.allIds es)) :
    ∀ e ∈ es, ∃ d, resolveExpr ctx e = .ok d ∧ Known K.distance? D K.next d e.ids := by
  induction es generalizing d with
  | nil => simp
  | cons e rest ih =>
    obtain ⟨first, others, he, hrest, rfl⟩ := resolveExprs_cons.mp h
    rw [Expr.allIds_cons] at hknown
    obtain ⟨hfirst, hothers⟩ :=
      hknown.split (resolveExpr_within e he) (resolveExprs_within rest hrest)
    exact List.forall_mem_cons.mpr ⟨⟨first, he, hfirst⟩, ih hrest hothers⟩

/-- A resolved expression is linked with its spellings. -/
theorem resolveExpr_linked {e e' : Expr} (hfits : Fits ρ ctx labels)
    (h : resolveExpr ctx e = .ok d) (hknown : Known K.distance? D K.next d e.ids)
    (hplaced : K.Has (e.placed (siteOf ctx labels))) (he : ExprRespelled ρ D labels e e') :
    ExprLinked ρ K ctx labels e e' := by
  rw [Findings.has_placed] at hplaced
  induction he generalizing d with
  | literal => exact .literal (hplaced _ List.mem_cons_self)
  | grouping _ ih =>
    obtain ⟨hself, hinner⟩ := List.forall_mem_cons.mp hplaced
    exact .grouping hself (ih h hknown hinner)
  | @var id name =>
    obtain ⟨hinitializing, rfl⟩ := resolveExpr_variable.mp h
    obtain ⟨hrecorded, hown⟩ := recorded_of_entry hknown
    rw [hown]
    exact .var (hplaced _ List.mem_cons_self) hrecorded (hfits.ready hinitializing)
  | @this id line =>
    obtain ⟨-, rfl⟩ := resolveExpr_this.mp h
    obtain ⟨hrecorded, -⟩ := recorded_of_entry hknown
    exact .this (hplaced _ List.mem_cons_self) hrecorded hfits.this_ready hfits.this_reference
  | @assign id name value value' _ ih =>
    obtain ⟨inside, hvalue, rfl⟩ := resolveExpr_assign.mp h
    rw [Expr.ids_assign] at hknown
    obtain ⟨hinside, hentry⟩ := hknown.split (resolveExpr_within value hvalue)
      (Distances.along_entry ctx id name.name).within
    obtain ⟨hrecorded, hown⟩ := recorded_of_entry hentry
    obtain ⟨hself, hparts⟩ := List.forall_mem_cons.mp hplaced
    rw [hown]
    exact .assign hself hrecorded hfits.unready (ih hvalue hinside hparts)
  | unary _ ih =>
    obtain ⟨hself, hoperand⟩ := List.forall_mem_cons.mp hplaced
    exact .unary hself (ih h hknown hoperand)
  | binary _ _ ihleft ihright =>
    obtain ⟨first, second, hleft, hright, rfl⟩ := resolveExpr_binary.mp h
    rw [Expr.ids_binary] at hknown
    obtain ⟨hfirst, hsecond⟩ :=
      hknown.split (resolveExpr_within _ hleft) (resolveExpr_within _ hright)
    obtain ⟨hself, hparts⟩ := List.forall_mem_cons.mp hplaced
    obtain ⟨hparts, hparts'⟩ := List.forall_mem_append.mp hparts
    exact .binary hself (ihleft hleft hfirst hparts) (ihright hright hsecond hparts')
  | logical _ _ ihleft ihright =>
    obtain ⟨first, second, hleft, hright, rfl⟩ := resolveExpr_logical.mp h
    rw [Expr.ids_logical] at hknown
    obtain ⟨hfirst, hsecond⟩ :=
      hknown.split (resolveExpr_within _ hleft) (resolveExpr_within _ hright)
    obtain ⟨hself, hparts⟩ := List.forall_mem_cons.mp hplaced
    obtain ⟨hparts, hparts'⟩ := List.forall_mem_append.mp hparts
    exact .logical hself (ihleft hleft hfirst hparts) (ihright hright hsecond hparts')
  | call _ _ ihcallee iharguments =>
    obtain ⟨first, second, hcallee, harguments, rfl⟩ := resolveExpr_call.mp h
    rw [Expr.ids_call] at hknown
    obtain ⟨hfirst, hsecond⟩ :=
      hknown.split (resolveExpr_within _ hcallee) (resolveExprs_within _ harguments)
    obtain ⟨hself, hparts⟩ := List.forall_mem_cons.mp hplaced
    obtain ⟨hparts, hparts'⟩ := List.forall_mem_append.mp hparts
    refine .call hself (ihcallee hcallee hfirst hparts) fun a ha => ?_
    have ha' : a.1 ∈ List.map (fun b : Expr × Expr => b.1) _ := List.mem_map_of_mem ha
    obtain ⟨d, hd, hknown⟩ := resolveExprs_each harguments hsecond a.1 ha'
    exact iharguments a ha hd hknown fun part hpart => hparts' part (Expr.mem_allParts ha' hpart)
  | get _ ih =>
    obtain ⟨hself, hobject⟩ := List.forall_mem_cons.mp hplaced
    exact .get hself (ih h hknown hobject)
  | set _ _ ihobject ihvalue =>
    obtain ⟨first, second, hvalue, hobject, rfl⟩ := resolveExpr_set.mp h
    rw [Expr.ids_set] at hknown
    obtain ⟨hfirst, hsecond⟩ :=
      hknown.split (resolveExpr_within _ hvalue) (resolveExpr_within _ hobject)
    obtain ⟨hself, hparts⟩ := List.forall_mem_cons.mp hplaced
    obtain ⟨hparts, hparts'⟩ := List.forall_mem_append.mp hparts
    exact .set hself (ihobject hobject hsecond hparts') (ihvalue hvalue hfirst hparts)

/-! ## Declarations -/

/-- A declaration adds one name to its scope, and nothing else does. -/
theorem resolveStmt_behind {ctx behind : Context} (s : Stmt) {d : Distances} (hs : s.Regular)
    (h : resolveStmt ctx s = .ok (behind, d)) :
    (s.declaredName? = none ∧ behind = ctx) ∨
      ∃ x, s.declaredName? = some x ∧ ctx.hasLocal x = false ∧ behind = ctx.ready x := by
  match s with
  | .expression _ =>
    obtain ⟨-, rfl⟩ := resolveStmt_expression.mp h
    exact .inl ⟨rfl, rfl⟩
  | .print _ =>
    obtain ⟨-, rfl⟩ := resolveStmt_print.mp h
    exact .inl ⟨rfl, rfl⟩
  | .varDecl name _ =>
    obtain ⟨declared, hdeclared, -, rfl⟩ := resolveStmt_varDecl.mp h
    obtain ⟨hlocal, rfl⟩ := Context.declare_eq_ok.mp hdeclared
    exact .inr ⟨name.name, rfl, hlocal, rfl⟩
  | .block _ =>
    obtain ⟨⟨_, -⟩, rfl⟩ := resolveStmt_block.mp h
    exact .inl ⟨rfl, rfl⟩
  | .ifElse _ thenBranch none =>
    obtain ⟨first, second, -, hthen, rfl⟩ := resolveStmt_ifThen.mp h
    obtain ⟨hnone, hregular⟩ := hs
    obtain ⟨-, rfl⟩ | ⟨x, hx, -⟩ := resolveStmt_behind thenBranch hregular hthen
    · exact .inl ⟨rfl, rfl⟩
    · rw [hnone] at hx
      cases hx
  | .ifElse _ thenBranch (some elseBranch) =>
    obtain ⟨first, inner, second, third, -, hthen, helse, rfl⟩ := resolveStmt_ifElse.mp h
    obtain ⟨⟨hnone, hregular⟩, hnone', hregular'⟩ := hs
    obtain ⟨-, rfl⟩ | ⟨x, hx, -⟩ := resolveStmt_behind thenBranch hregular hthen
    · obtain ⟨-, rfl⟩ | ⟨x, hx, -⟩ := resolveStmt_behind elseBranch hregular' helse
      · exact .inl ⟨rfl, rfl⟩
      · rw [hnone'] at hx
        cases hx
    · rw [hnone] at hx
      cases hx
  | .whileLoop _ body =>
    obtain ⟨first, inner, second, -, hbody, rfl, rfl⟩ := resolveStmt_whileLoop.mp h
    obtain ⟨hnone, hregular⟩ := hs
    obtain ⟨-, rfl⟩ | ⟨x, hx, -⟩ := resolveStmt_behind body hregular hbody
    · exact .inl ⟨rfl, rfl⟩
    · rw [hnone] at hx
      cases hx
  | .breakLoop _ =>
    obtain ⟨-, rfl, rfl⟩ := resolveStmt_breakLoop.mp h
    exact .inl ⟨rfl, rfl⟩
  | .funDecl f =>
    obtain ⟨hintroduced, -⟩ := resolveStmt_funDecl.mp h
    obtain ⟨hlocal, rfl⟩ := Context.introduce_eq_ok.mp hintroduced
    exact .inr ⟨f.name.name, rfl, hlocal, rfl⟩
  | .returnValue _ none =>
    obtain ⟨-, rfl, rfl⟩ := resolveStmt_return.mp h
    exact .inl ⟨rfl, rfl⟩
  | .returnValue _ (some _) =>
    obtain ⟨-, -, rfl⟩ := resolveStmt_returnValue.mp h
    exact .inl ⟨rfl, rfl⟩
  | .classDecl name _ =>
    obtain ⟨hintroduced, -⟩ := resolveStmt_classDecl.mp h
    obtain ⟨hlocal, rfl⟩ := Context.introduce_eq_ok.mp hintroduced
    exact .inr ⟨name.name, rfl, hlocal, rfl⟩

theorem resolveStmt_undeclared {ctx behind : Context} {s : Stmt} {d : Distances} (hs : s.Regular)
    (hnone : s.declaredName? = none) (h : resolveStmt ctx s = .ok (behind, d)) : behind = ctx := by
  obtain ⟨-, hsame⟩ | ⟨x, hx, -⟩ := resolveStmt_behind s hs h
  · exact hsame
  · rw [hnone] at hx
    cases hx

/-- The name of a function or class that a declaration adds to its scope. -/
def Stmt.fixedName? : Stmt → Option String
  | .funDecl f => some f.name.name
  | .classDecl name _ => some name.name
  | _ => none

theorem Stmt.declaredName?_of_variable {s : Stmt} {x : String} (h : s.variableName? = some x) :
    s.declaredName? = some x ∧ s.fixedName? = none := by
  cases s <;> cases h
  exact ⟨rfl, rfl⟩

theorem Stmt.declaredName?_of_fixed {s : Stmt} {x : String} (h : s.fixedName? = some x) :
    s.declaredName? = some x := by
  cases s <;> cases h <;> rfl

theorem mem_declaredNames {body : List Stmt} {s : Stmt} (hs : s ∈ body) {x : String}
    (hx : s.declaredName? = some x) : x ∈ declaredNames body :=
  List.mem_filterMap.mpr ⟨s, hs, hx⟩

theorem variableNames_declared {body : List Stmt} {x : String} (hx : x ∈ variableNames body) :
    x ∈ declaredNames body := by
  obtain ⟨s, hs, hx⟩ := List.mem_filterMap.mp hx
  exact mem_declaredNames hs (Stmt.declaredName?_of_variable hx).1

theorem variableNames_regular {body : List Stmt} (hbody : Stmt.AllRegular body) {x : String}
    (hx : x ∈ variableNames body) : x ≠ "this" := by
  obtain ⟨s, hs, hx⟩ := List.mem_filterMap.mp hx
  have hregular := Stmt.allRegular_iff.mp hbody s hs
  cases s <;> cases hx
  exact hregular

/-- No name is declared twice in a local scope. -/
theorem resolveStmts_declared {ctx behind : Context} {scope : Scope} {outer : List Scope}
    {ss : List Stmt} {d : Distances} (hctx : ctx.scopes = scope :: outer)
    (hss : Stmt.AllRegular ss) (h : resolveStmts ctx ss = .ok (behind, d)) :
    (declaredNames ss).Nodup ∧ ∀ x ∈ declaredNames ss, scope.lookup x = none := by
  induction ss generalizing ctx scope d with
  | nil => simp [declaredNames]
  | cons s rest ih =>
    obtain ⟨inner, first, others, hs, hrest, rfl⟩ := resolveStmts_cons.mp h
    obtain ⟨hregular, hregulars⟩ := hss
    obtain ⟨hnone, rfl⟩ | ⟨x, hx, hlocal, rfl⟩ := resolveStmt_behind s hregular hs
    · have hnames : declaredNames (s :: rest) = declaredNames rest := by
        simp [declaredNames, hnone]
      rw [hnames]
      exact ih hctx hregulars hrest
    · have hnames : declaredNames (s :: rest) = x :: declaredNames rest := by
        simp [declaredNames, hx]
      have hfree := Context.hasLocal_of_cons hctx hlocal
      obtain ⟨hnodup, hnone⟩ := ih (by rw [Context.ready_of_cons hctx]) hregulars hrest
      have hother : ∀ y ∈ declaredNames rest, x ≠ y ∧ scope.lookup y = none := by
        intro y hy
        have hlookup := hnone y hy
        rw [Context.lookup_ready] at hlookup
        by_cases hxy : x = y
        · rw [if_pos hxy] at hlookup
          cases hlookup
        · rw [if_neg hxy] at hlookup
          exact ⟨hxy, hlookup⟩
      rw [hnames]
      constructor
      · exact List.nodup_cons.mpr ⟨fun hmem => (hother x hmem).1 rfl, hnodup⟩
      · exact List.forall_mem_cons.mpr ⟨hfree, fun y hy => (hother y hy).2⟩

/-- The name of a variable is not that of a function or class in the same scope. -/
theorem fixedName?_ne {body : List Stmt} {x : String} (hnodup : (declaredNames body).Nodup)
    (hx : x ∈ variableNames body) : ∀ s ∈ body, s.fixedName? ≠ some x := by
  induction body with
  | nil => simp
  | cons t rest ih =>
    intro s hs hfixed
    cases hvariable : t.variableName? with
    | none =>
      have hxrest : x ∈ variableNames rest := by simpa [variableNames, hvariable] using hx
      obtain rfl | hs := List.mem_cons.mp hs
      · have hnames : declaredNames (s :: rest) = x :: declaredNames rest := by
          simp [declaredNames, Stmt.declaredName?_of_fixed hfixed]
        rw [hnames, List.nodup_cons] at hnodup
        exact hnodup.1 (variableNames_declared hxrest)
      · have hrest : (declaredNames rest).Nodup :=
          hnodup.sublist (List.Sublist.filterMap _ (List.sublist_cons_self t rest))
        exact ih hrest hxrest s hs hfixed
    | some y =>
      obtain ⟨hdeclared, hnone⟩ := Stmt.declaredName?_of_variable hvariable
      have hnames : declaredNames (t :: rest) = y :: declaredNames rest := by
        simp [declaredNames, hdeclared]
      rw [hnames, List.nodup_cons] at hnodup
      have hcases : x = y ∨ x ∈ variableNames rest := by
        simpa [variableNames, hvariable] using hx
      obtain rfl | hs := List.mem_cons.mp hs
      · rw [hnone] at hfixed
        cases hfixed
      · obtain rfl | hx := hcases
        · exact hnodup.1 (mem_declaredNames hs (Stmt.declaredName?_of_fixed hfixed))
        · exact ih hnodup.2 hx s hs hfixed

/-! ## Statements -/

/-- The innermost label has the name that a statement declares, and spells no function or class in
another way. -/
structure Suits (ρ : Renaming) (labels : List Label) (s : Stmt) : Prop where
  names : ∀ l ∈ labels.head?, ∀ x, s.declaredName? = some x → x ∈ l.names
  fixed : ∀ l ∈ labels.head?, l.renamed = true → s.fixedName? ≠ some ρ.old

theorem suits_of_none {s : Stmt} (h : s.declaredName? = none) : Suits ρ labels s := by
  constructor
  · intro l hl x hx
    rw [h] at hx
    cases hx
  · intro l hl hr hfixed
    rw [Stmt.declaredName?_of_fixed hfixed] at h
    cases h

theorem suits_top (s : Stmt) : Suits ρ [] s := ⟨fun _ hl => (nomatch hl), fun _ hl => (nomatch hl)⟩

/-- The statements of a scope that has some names before them. -/
theorem suits_body (before : List String) {body : List Stmt} {label : Label}
    (hnodup : (before ++ declaredNames body).Nodup)
    (hnames : label.names = before ++ declaredNames body)
    (hspelled : label.renamed = true → ρ.old ∈ before ++ variableNames body) :
    ∀ s ∈ body, Suits ρ (label :: labels) s := by
  intro s hs
  obtain ⟨-, hbody, hdisjoint⟩ := List.nodup_append.mp hnodup
  constructor
  · rintro l hl x hx
    cases hl
    rw [hnames]
    exact List.mem_append_right _ (mem_declaredNames hs hx)
  · rintro l hl hr hfixed
    cases hl
    have hdeclared := mem_declaredNames hs (Stmt.declaredName?_of_fixed hfixed)
    obtain hbefore | hvariable := List.mem_append.mp (hspelled hr)
    · exact hdisjoint ρ.old hbefore ρ.old hdeclared rfl
    · exact fixedName?_ne hbody hvariable s hs hfixed

theorem binding_of_fixed {s : Stmt} {x : String} (h : Suits ρ labels s)
    (hx : s.fixedName? = some x) : ρ.binding labels x = x := by
  unfold Renaming.binding
  cases hl : labels.head? with
  | none => rfl
  | some l =>
    cases hr : l.renamed with
    | false => exact Renaming.inScope_of_not_renamed hr x
    | true =>
      have hne : x ≠ ρ.old := by
        intro hx'
        exact h.fixed l hl hr (hx.trans (congrArg some hx'))
      simp [Renaming.inScope, hr, hne]

/-- The names of the parameters are not declared again in the body of a function. -/
theorem function_nodup {ctx inside behind : Context} {outer : List Scope}
    {params : List Identifier} {body : List Stmt} {d : Distances}
    (hctx : ctx.scopes = [] :: outer) (hparams : ctx.introduceAll params = .ok inside)
    (hregular : Stmt.AllRegular body) (hbody : resolveStmts inside body = .ok (behind, d)) :
    (params.map (·.name) ++ declaredNames body).Nodup := by
  obtain ⟨scope, hscope, hlookup⟩ := Context.introduceAll_scopes hctx hparams
  obtain ⟨hnodup, hnone⟩ := resolveStmts_declared hscope hregular hbody
  refine List.nodup_append.mpr ⟨(Context.introduceAll_nodup hctx hparams).1, hnodup, ?_⟩
  rintro x hx y hy rfl
  have hx' := hlookup x
  rw [if_pos hx, hnone x hy] at hx'
  cases hx'

mutual

/-- A resolved statement is linked with its spellings. -/
theorem resolveStmt_linked {ctx behind : Context} {labels : List Label} (s : Stmt) {s' : Stmt}
    {d : Distances} (htidy : Tidy ρ ctx labels) (hregular : s.Regular) (hsuits : Suits ρ labels s)
    (h : resolveStmt ctx s = .ok (behind, d)) (hknown : Known K.distance? D K.next d s.ids)
    (hplaced : K.Has (s.placed (siteOf ctx labels))) (hs : StmtRespelled ρ D labels s s') :
    StmtLinked ρ K ctx labels s s' behind := by
  match s with
  | .expression e =>
    cases hs with
    | expression he =>
      obtain ⟨hinside, rfl⟩ := resolveStmt_expression.mp h
      exact .expression (resolveExpr_linked htidy.fits hinside hknown hplaced he)
  | .print e =>
    cases hs with
    | print he =>
      obtain ⟨hinside, rfl⟩ := resolveStmt_print.mp h
      exact .print (resolveExpr_linked htidy.fits hinside hknown hplaced he)
  | .varDecl name e =>
    cases hs with
    | varDecl he =>
      obtain ⟨declared, hdeclared, hinside, rfl⟩ := resolveStmt_varDecl.mp h
      have hname : ∀ l ∈ labels.head?, name.name ∈ l.names := fun l hl => hsuits.names l hl _ rfl
      have hfits : Fits ρ (declared.inInitializer name.name) labels := by
        obtain ⟨-, rfl⟩ := Context.declare_eq_ok.mp hdeclared
        exact htidy.initializing hregular hname
      rw [Stmt.placed, siteOf_inInitializer hdeclared] at hplaced
      exact .varDecl hdeclared hname (resolveExpr_linked hfits hinside hknown hplaced he)
  | .block body =>
    cases hs with
    | @block _ label _ _ hnames hspelled hproper hbody =>
      obtain ⟨⟨inner, hinside⟩, hsame⟩ := resolveStmt_block.mp h
      rw [hsame]
      have hscopes : (ctx.push []).scopes = [] :: ctx.scopes := rfl
      have htidy' : Tidy ρ (ctx.push []) (label :: labels) :=
        htidy.push hscopes (by simp) fun hr => variableNames_regular hregular (hspelled hr)
      have hnodup := (resolveStmts_declared hscopes hregular hinside).1
      have hsuits' : ∀ s ∈ body, Suits ρ (label :: labels) s :=
        suits_body [] hnodup hnames hspelled
      rw [Stmt.placed, siteOf_inBlock hnames] at hplaced
      exact .block hnames hproper
        (resolveStmts_linked body htidy' hregular hsuits' hinside hknown hplaced hbody)
  | .ifElse c s none =>
    cases hs with
    | ifThen hc hthen =>
      obtain ⟨first, second, hcondition, hinner, rfl⟩ := resolveStmt_ifThen.mp h
      obtain ⟨hnone, hregular⟩ := hregular
      rw [Stmt.ids_ifThen] at hknown
      obtain ⟨hfirst, hsecond⟩ :=
        hknown.split (resolveExpr_within c hcondition) (resolveStmt_within s hinner)
      obtain rfl := resolveStmt_undeclared hregular hnone hinner
      obtain ⟨hplaced, hplaced'⟩ := Findings.has_append.mp hplaced
      exact .ifThen (resolveExpr_linked htidy.fits hcondition hfirst hplaced hc)
        (resolveStmt_linked s htidy hregular (suits_of_none hnone) hinner hsecond hplaced' hthen)
  | .ifElse c s (some r) =>
    cases hs with
    | ifElse hc hthen helse =>
      obtain ⟨first, inner, second, third, hcondition, hinner, hinner', rfl⟩ :=
        resolveStmt_ifElse.mp h
      obtain ⟨⟨hnone, hregular⟩, hnone', hregular'⟩ := hregular
      rw [Stmt.ids_ifElse] at hknown
      have hwithin :=
        ((resolveExpr_along c hcondition).append (resolveStmt_along s hinner)).within
      obtain ⟨hboth, hthird⟩ := hknown.split hwithin (resolveStmt_within r hinner')
      obtain ⟨hfirst, hsecond⟩ :=
        hboth.split (resolveExpr_within c hcondition) (resolveStmt_within s hinner)
      obtain rfl := resolveStmt_undeclared hregular hnone hinner
      obtain rfl := resolveStmt_undeclared hregular' hnone' hinner'
      have hafter := after_of_resolveStmt hinner
      obtain ⟨hplaced, hplaced''⟩ := Findings.has_append.mp hplaced
      obtain ⟨hplaced, hplaced'⟩ := Findings.has_append.mp hplaced
      rw [siteOf_after hafter] at hplaced''
      exact .ifElse (resolveExpr_linked htidy.fits hcondition hfirst hplaced hc)
        (resolveStmt_linked s htidy hregular (suits_of_none hnone) hinner hsecond hplaced' hthen)
        hafter
        (resolveStmt_linked r htidy hregular' (suits_of_none hnone') hinner' hthird hplaced'' helse)
  | .whileLoop c s =>
    cases hs with
    | whileLoop hc hbody =>
      obtain ⟨first, inner, second, hcondition, hinner, rfl, rfl⟩ := resolveStmt_whileLoop.mp h
      obtain ⟨hnone, hregular⟩ := hregular
      rw [Stmt.ids_whileLoop] at hknown
      obtain ⟨hfirst, hsecond⟩ :=
        hknown.split (resolveExpr_within c hcondition) (resolveStmt_within s hinner)
      obtain rfl := resolveStmt_undeclared hregular hnone hinner
      have htidy' : Tidy ρ { ctx with inLoop := true } labels := htidy.of_scopes rfl
      obtain ⟨hplaced, hplaced'⟩ := Findings.has_append.mp hplaced
      exact .whileLoop (resolveExpr_linked htidy.fits hcondition hfirst hplaced hc)
        (resolveStmt_linked s htidy' hregular (suits_of_none hnone) hinner hsecond hplaced' hbody)
  | .breakLoop _ =>
    cases hs
    obtain ⟨-, rfl, rfl⟩ := resolveStmt_breakLoop.mp h
    exact .breakLoop
  | .funDecl f =>
    cases hs with
    | funDecl hf =>
      obtain ⟨hintroduced, hinside⟩ := resolveStmt_funDecl.mp h
      have hname : ∀ l ∈ labels.head?, f.name.name ∈ l.names := fun l hl => hsuits.names l hl _ rfl
      have htidy' : Tidy ρ behind labels := htidy.introduce hintroduced
      rw [Stmt.placed, siteOf_introduce hintroduced] at hplaced
      exact .funDecl hintroduced hname (binding_of_fixed hsuits rfl)
        (resolveFunction_linked f htidy' hregular hinside hknown hplaced hf)
  | .returnValue _ none =>
    cases hs
    obtain ⟨-, rfl, rfl⟩ := resolveStmt_return.mp h
    exact .return
  | .returnValue _ (some e) =>
    cases hs with
    | returnValue he =>
      obtain ⟨-, hinside, rfl⟩ := resolveStmt_returnValue.mp h
      exact .returnValue (resolveExpr_linked htidy.fits hinside hknown hplaced he)
  | .classDecl name methods =>
    cases hs with
    | classDecl hmethods =>
      obtain ⟨hintroduced, hinside⟩ := resolveStmt_classDecl.mp h
      have hname : ∀ l ∈ labels.head?, name.name ∈ l.names := fun l hl => hsuits.names l hl _ rfl
      have htidy' : Tidy ρ behind.inClassBody (.this :: labels) :=
        (htidy.introduce hintroduced).inClassBody
      rw [Stmt.placed, siteOf_introduce hintroduced] at hplaced
      exact .classDecl hintroduced hname (binding_of_fixed hsuits rfl)
        (resolveMethods_linked methods htidy' hregular hinside hknown hplaced hmethods)
termination_by structural s

/-- Resolved statements are linked with their spellings. -/
theorem resolveStmts_linked {ctx behind : Context} {labels : List Label} (ss : List Stmt)
    {ss' : List Stmt} {d : Distances} (htidy : Tidy ρ ctx labels)
    (hregular : Stmt.AllRegular ss) (hsuits : ∀ s ∈ ss, Suits ρ labels s)
    (h : resolveStmts ctx ss = .ok (behind, d))
    (hknown : Known K.distance? D K.next d (Stmt.allIds ss))
    (hplaced : K.Has (Stmt.allPlaced (siteOf ctx labels) ss))
    (hss : StmtsRespelled ρ D labels ss ss') : StmtsLinked ρ K ctx labels ss ss' := by
  match ss with
  | [] =>
    cases hss
    exact .nil
  | s :: rest =>
    cases hss with
    | cons hs hrest =>
      obtain ⟨inner, first, others, hinner, hinner', rfl⟩ := resolveStmts_cons.mp h
      obtain ⟨hregular, hregulars⟩ := hregular
      obtain ⟨hsuit, hsuits⟩ := List.forall_mem_cons.mp hsuits
      rw [Stmt.allIds_cons] at hknown
      obtain ⟨hfirst, hothers⟩ :=
        hknown.split (resolveStmt_within s hinner) (resolveStmts_within rest hinner')
      have htidy' : Tidy ρ inner labels := by
        obtain ⟨-, rfl⟩ | ⟨x, -, -, rfl⟩ := resolveStmt_behind s hregular hinner
        · exact htidy
        · exact htidy.behind x
      have hafter := after_of_resolveStmt hinner
      obtain ⟨hplaced, hplaced'⟩ := Findings.has_append.mp hplaced
      rw [siteOf_after hafter] at hplaced'
      exact .cons (resolveStmt_linked s htidy hregular hsuit hinner hfirst hplaced hs) hafter
        (resolveStmts_linked rest htidy' hregulars hsuits hinner' hothers hplaced' hrest)
termination_by structural ss

/-- A resolved function is linked with its spellings. -/
theorem resolveFunction_linked {ctx : Context} {labels : List Label} {routine : Routine}
    (f : FunctionDecl) {f' : FunctionDecl} {d : Distances} (htidy : Tidy ρ ctx labels)
    (hregular : f.Regular) (h : resolveFunction (ctx.inRoutine routine) f = .ok d)
    (hknown : Known K.distance? D K.next d f.ids)
    (hplaced : K.Has (f.placed (siteOf ctx labels) routine))
    (hf : FunctionRespelled ρ D labels f f') :
    FunctionLinked ρ K (ctx.inRoutine routine) labels f f' := by
  match f with
  | .mk name params body =>
    cases hf with
    | @mk _ label _ _ _ _ hnames hspelled hproper hbody =>
      obtain ⟨inside, inner, hparams, hinner⟩ := resolveFunction_mk.mp h
      obtain ⟨hthis, hregular⟩ := hregular
      have hscopes : (ctx.inRoutine routine).scopes = [] :: ctx.scopes := rfl
      obtain ⟨scope, hscope, hlookup⟩ := Context.introduceAll_scopes hscopes hparams
      have hready : ∀ x, scope.lookup x ≠ some false := by
        intro x
        rw [hlookup x]
        split <;> simp
      have hold : label.renamed = true → ρ.old ≠ "this" := by
        intro hr
        obtain hparam | hvariable := List.mem_append.mp (hspelled hr)
        · obtain ⟨p, hp, hp'⟩ := List.mem_map.mp hparam
          rw [← hp']
          exact hthis p hp
        · exact variableNames_regular hregular hvariable
      have htidy' : Tidy ρ inside (label :: labels) := htidy.push hscope hready hold
      have hnodup := function_nodup hscopes hparams hregular hinner
      have hsuits : ∀ s ∈ body, Suits ρ (label :: labels) s :=
        suits_body _ hnodup hnames hspelled
      rw [FunctionDecl.placed, siteOf_inFunction hparams hnames] at hplaced
      exact .mk hparams hnames hproper
        (resolveStmts_linked body htidy' hregular hsuits hinner hknown hplaced hbody)
termination_by structural f

/-- Resolved methods are linked with their spellings. -/
theorem resolveMethods_linked {ctx : Context} {labels : List Label} (fs : List FunctionDecl)
    {fs' : List FunctionDecl} {d : Distances} (htidy : Tidy ρ ctx labels)
    (hregular : FunctionDecl.AllRegular fs) (h : resolveMethods ctx fs = .ok d)
    (hknown : Known K.distance? D K.next d (FunctionDecl.allIds fs))
    (hplaced : K.Has (FunctionDecl.allPlaced (siteOf ctx labels) fs))
    (hfs : FunctionsRespelled ρ D labels fs fs') :
    FunctionsLinked ρ K ctx labels fs fs' := by
  match fs with
  | [] =>
    cases hfs
    exact .nil
  | f :: rest =>
    cases hfs with
    | cons hf hrest =>
      obtain ⟨first, others, hfirst, hothers, rfl⟩ := resolveMethods_cons.mp h
      obtain ⟨hregular, hregulars⟩ := hregular
      rw [FunctionDecl.allIds_cons] at hknown
      obtain ⟨hknown, hknowns⟩ :=
        hknown.split (resolveFunction_within f hfirst) (resolveMethods_within rest hothers)
      obtain ⟨hplaced, hplaced'⟩ := Findings.has_append.mp hplaced
      exact .cons (resolveFunction_linked f htidy hregular hfirst hknown hplaced hf)
        (resolveMethods_linked rest htidy hregulars hothers hknowns hplaced' hrest)
termination_by structural fs

end

/-- A resolved program is linked with its spellings. -/
theorem resolve_linked {p p' : Program} {d : Distances} (hregular : Stmt.AllRegular p)
    (h : Program.resolve p = .ok d) (hknown : Known K.distance? D K.next d (Stmt.allIds p))
    (hplaced : K.Has p.placed) (hp : StmtsRespelled ρ D [] p p') :
    StmtsLinked ρ K .top [] p p' := by
  obtain ⟨behind, hresolved⟩ := resolve_eq_ok.mp h
  have htidy : Tidy ρ .top [] := ⟨rfl, fun _ hscope => (nomatch hscope), fun _ hl => (nomatch hl)⟩
  exact resolveStmts_linked p htidy hregular (fun s _ => suits_top s) hresolved hknown hplaced hp

end LoxLang
