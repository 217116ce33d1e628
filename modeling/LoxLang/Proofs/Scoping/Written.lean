import LoxLang.Proofs.Scoping.Respelling

/-!
# Resolving another spelling

If the new name does not occur in a program, then another spelling of it is accepted and has the
same distances.

* `Context.written`: a context in which each scope is written as its label says;
* `distance?_written`: a reference leads as far as before, when it is written as in the scope that
  it leads to;
* `resolveStmt_written`, `resolve_written`: statements and programs are resolved as before.
-/

namespace LoxLang

open Scoping

variable {ρ : Renaming}

/-! ## Names -/

namespace Renaming

/-- Names that are not the new one are not written alike. -/
theorem inScope_inj_of_ne {l : Option Label} {a b : String} (ha : a ≠ ρ.new) (hb : b ≠ ρ.new)
    (h : ρ.inScope l a = ρ.inScope l b) : a = b := by
  obtain hsame | ⟨hold, hnew⟩ := inScope_allows l a (ρ := ρ)
  · obtain hsame' | ⟨hold', hnew'⟩ := inScope_allows l b (ρ := ρ)
    · rw [← hsame, ← hsame', h]
    · rw [hsame, hnew'] at h
      exact absurd h ha
  · obtain hsame' | ⟨hold', hnew'⟩ := inScope_allows l b (ρ := ρ)
    · rw [hsame', hnew] at h
      exact absurd h.symm hb
    · rw [hold, hold']

theorem follow_allows (labels : List Label) (distance? : Option Nat) (name : String) :
    ρ.Allows name (ρ.follow labels distance? name) := by
  unfold follow
  cases distance? with
  | none => exact .inl rfl
  | some d => exact inScope_allows _ name

theorem follow_cons_map (l : Label) (labels : List Label) (distance? : Option Nat)
    (name : String) :
    ρ.follow (l :: labels) (distance?.map (· + 1)) name = ρ.follow labels distance? name := by
  cases distance? <;> rfl

end Renaming

/-! ## Scopes -/

/-- A scope as it is written. -/
def writtenScope (ρ : Renaming) (l : Label) (scope : Scope) : Scope :=
  scope.map fun entry => (ρ.inScope (some l) entry.1, entry.2)

section
variable {l : Label} {scope : Scope} {x y : String}

theorem lookup_written (hscope : scope.lookup ρ.new = none) (hx : x ≠ ρ.new) :
    (writtenScope ρ l scope).lookup (ρ.inScope (some l) x) = scope.lookup x := by
  induction scope with
  | nil => rfl
  | cons entry rest ih =>
    obtain ⟨name, b⟩ := entry
    rw [Context.lookup_cons] at hscope
    by_cases hname : name = ρ.new
    · rw [if_pos hname] at hscope
      cases hscope
    · rw [if_neg hname] at hscope
      have hrest := ih hscope
      change List.lookup _ ((ρ.inScope (some l) name, b) :: writtenScope ρ l rest) = _
      rw [Context.lookup_cons, Context.lookup_cons, hrest]
      by_cases hx' : name = x
      · rw [if_pos hx', if_pos (by rw [hx'])]
      · have hne : ¬ρ.inScope (some l) name = ρ.inScope (some l) x :=
          fun h => hx' (Renaming.inScope_inj_of_ne hname hx h)
        rw [if_neg hx', if_neg hne]

/-- A name that a scope does not have is not written there either. -/
theorem lookup_written_none (hscope : scope.lookup ρ.new = none) (hx : x ≠ ρ.new)
    (hnone : scope.lookup x = none) (hy : ρ.Allows x y) :
    (writtenScope ρ l scope).lookup y = none := by
  induction scope with
  | nil => rfl
  | cons entry rest ih =>
    obtain ⟨name, b⟩ := entry
    rw [Context.lookup_cons] at hscope hnone
    have hname : name ≠ ρ.new := by
      intro h
      rw [if_pos h] at hscope
      cases hscope
    have hname' : name ≠ x := by
      intro h
      rw [if_pos h] at hnone
      cases hnone
    rw [if_neg hname] at hscope
    rw [if_neg hname'] at hnone
    change List.lookup _ ((ρ.inScope (some l) name, b) :: writtenScope ρ l rest) = _
    have hne : ρ.inScope (some l) name ≠ y := by
      obtain hsame | ⟨hold, hnew⟩ := Renaming.inScope_allows (some l) name (ρ := ρ)
      · obtain rfl | ⟨-, rfl⟩ := hy
        · rwa [hsame]
        · rwa [hsame]
      · obtain rfl | ⟨rfl, -⟩ := hy
        · rw [hnew]
          exact hx.symm
        · exact absurd hold hname'
    rw [Context.lookup_cons, if_neg hne]
    exact ih hscope hnone

end

/-! ## Contexts -/

namespace Scoping.Context

/-- A context as it is written. -/
def written (ρ : Renaming) (labels : List Label) (ctx : Context) : Context :=
  { ctx with scopes := List.zipWith (writtenScope ρ) labels ctx.scopes }

end Scoping.Context

/-- Each scope of the context has a label, and none has the new name. -/
structure Writable (ρ : Renaming) (ctx : Context) (labels : List Label) : Prop where
  length : labels.length = ctx.scopes.length
  lacks : ∀ scope ∈ ctx.scopes, scope.lookup ρ.new = none

section
variable {ctx : Context} {labels : List Label} {x : String}

theorem Writable.of_scopes (h : Writable ρ ctx labels) {ctx' : Context}
    (hscopes : ctx'.scopes = ctx.scopes) : Writable ρ ctx' labels := by
  constructor
  · rw [hscopes, h.length]
  · rw [hscopes]
    exact h.lacks

theorem Writable.push (h : Writable ρ ctx labels) {ctx' : Context} {scope : Scope} {l : Label}
    (hscopes : ctx'.scopes = scope :: ctx.scopes) (hscope : scope.lookup ρ.new = none) :
    Writable ρ ctx' (l :: labels) := by
  constructor
  · rw [hscopes, List.length_cons, List.length_cons, h.length]
  · rw [hscopes]
    exact List.forall_mem_cons.mpr ⟨hscope, h.lacks⟩

theorem Writable.mark (h : Writable ρ ctx labels) (hx : x ≠ ρ.new) (b : Bool) :
    Writable ρ (ctx.mark x b) labels := by
  cases hscopes : ctx.scopes with
  | nil =>
    rw [Context.mark_of_nil hscopes]
    exact h
  | cons scope outer =>
    obtain ⟨hlength, hlacks⟩ := h
    rw [hscopes] at hlength hlacks
    obtain ⟨hscope, houter⟩ := List.forall_mem_cons.mp hlacks
    rw [Context.mark_of_cons hscopes]
    refine ⟨hlength, List.forall_mem_cons.mpr ⟨?_, houter⟩⟩
    rw [Context.lookup_cons, if_neg hx]
    exact hscope

/-- A reference leads as far as before. -/
theorem distance?_written (h : Writable ρ ctx labels) (hx : x ≠ ρ.new) :
    (ctx.written ρ labels).distance? (ρ.reference ctx labels x) = ctx.distance? x := by
  obtain ⟨hlength, hlacks⟩ := h
  unfold Renaming.reference Context.distance? Context.written
  generalize ctx.scopes = scopes at hlength hlacks
  induction scopes generalizing labels with
  | nil => simp
  | cons scope outer ih =>
    cases labels with
    | nil => cases hlength
    | cons l labels =>
      obtain ⟨hscope, houter⟩ := List.forall_mem_cons.mp hlacks
      have hrest := ih (Nat.succ.inj hlength) houter
      rw [List.zipWith_cons_cons, List.findIdx?_cons, List.findIdx?_cons]
      cases hlookup : scope.lookup x with
      | some b =>
        have hhead := lookup_written (l := l) hscope hx
        simp only [Option.isSome_some, if_true, Renaming.follow, List.getElem?_cons_zero]
        simp only [hhead, hlookup, Option.isSome_some, if_true]
      | none =>
        have hhead := lookup_written_none (l := l) hscope hx hlookup
          (Renaming.follow_allows labels (outer.findIdx? fun scope => (scope.lookup x).isSome) x)
        simp only [Option.isSome_none, Bool.false_eq_true, if_false,
          Renaming.follow_cons_map, hhead, hrest]

theorem entry_written (h : Writable ρ ctx labels) (hx : x ≠ ρ.new) (id : NodeId) :
    (ctx.written ρ labels).entry id (ρ.reference ctx labels x) = ctx.entry id x := by
  unfold Context.entry
  rw [distance?_written h hx]

theorem isInitializing_written (h : Writable ρ ctx labels) (hx : x ≠ ρ.new) :
    (ctx.written ρ labels).isInitializing (ρ.reference ctx labels x) = ctx.isInitializing x := by
  obtain ⟨hlength, hlacks⟩ := h
  unfold Context.isInitializing Context.written
  cases hscopes : ctx.scopes with
  | nil =>
    have hnone : ctx.distance? x = none := by simp [Context.distance?, hscopes]
    rw [List.zipWith_nil_right, Renaming.reference_global hnone]
  | cons scope outer =>
    rw [hscopes] at hlength hlacks
    cases labels with
    | nil => cases hlength
    | cons l labels =>
      have hscope := hlacks scope List.mem_cons_self
      rw [List.zipWith_cons_cons]
      cases hlookup : scope.lookup x with
      | some b =>
        have hzero := Context.distance?_of_head hscopes hlookup
        have hhead := lookup_written (l := l) hscope hx
        rw [Renaming.reference_local hzero, List.getElem?_cons_zero]
        simp only [hhead, hlookup]
      | none =>
        have hhead := lookup_written_none (l := l) hscope hx hlookup
          (Renaming.follow_allows (l :: labels) (ctx.distance? x) x)
        unfold Renaming.reference
        simp only [hhead, hlookup]

theorem mark_written (h : Writable ρ ctx labels) (b : Bool) :
    (ctx.mark x b).written ρ labels = (ctx.written ρ labels).mark (ρ.binding labels x) b := by
  obtain ⟨hlength, -⟩ := h
  unfold Context.mark Context.written
  cases hscopes : ctx.scopes with
  | nil => simp only [hscopes, List.zipWith_nil_right]
  | cons scope outer =>
    rw [hscopes] at hlength
    cases labels with
    | nil => cases hlength
    | cons l labels => rfl

theorem hasLocal_written (h : Writable ρ ctx labels) (hx : x ≠ ρ.new) :
    (ctx.written ρ labels).hasLocal (ρ.binding labels x) = ctx.hasLocal x := by
  obtain ⟨hlength, hlacks⟩ := h
  unfold Context.hasLocal Context.written
  cases hscopes : ctx.scopes with
  | nil => simp only [List.zipWith_nil_right]
  | cons scope outer =>
    rw [hscopes] at hlength hlacks
    cases labels with
    | nil => cases hlength
    | cons l labels =>
      have hhead := lookup_written (l := l) (hlacks scope List.mem_cons_self) hx
      simp only [List.zipWith_cons_cons]
      exact congrArg Option.isSome hhead

theorem ready_written (h : Writable ρ ctx labels) (hx : x ≠ ρ.new) :
    (ctx.ready x).written ρ labels = (ctx.written ρ labels).ready (ρ.binding labels x) := by
  unfold Context.ready
  rw [mark_written (h.mark hx false), mark_written h]

theorem Writable.ready (h : Writable ρ ctx labels) (hx : x ≠ ρ.new) :
    Writable ρ (ctx.ready x) labels :=
  (h.mark hx false).mark hx true

theorem inInitializer_written (h : Writable ρ ctx labels) :
    (ctx.inInitializer x).written ρ labels
      = (ctx.written ρ labels).inInitializer (ρ.binding labels x) := by
  obtain ⟨hlength, -⟩ := h
  unfold Context.inInitializer Context.written
  cases hscopes : ctx.scopes with
  | nil =>
    rw [hscopes] at hlength
    have hlabels : labels = [] := List.eq_nil_of_length_eq_zero hlength
    subst hlabels
    rfl
  | cons scope outer =>
    rw [hscopes] at hlength
    cases labels with
    | nil => cases hlength
    | cons l labels => simp [hscopes]

theorem declare_written (h : Writable ρ ctx labels) {name : Identifier} {declared : Context}
    (hname : name.name ≠ ρ.new) (hdeclared : ctx.declare name = .ok declared) :
    (ctx.written ρ labels).declare ⟨ρ.binding labels name.name, name.line⟩
      = .ok (declared.written ρ labels) := by
  obtain ⟨hlocal, rfl⟩ := Context.declare_eq_ok.mp hdeclared
  refine Context.declare_eq_ok.mpr ⟨?_, ?_⟩
  · rw [hasLocal_written h hname, hlocal]
  · rw [mark_written h]

theorem introduce_written (h : Writable ρ ctx labels) {name : Identifier} {introduced : Context}
    (hname : name.name ≠ ρ.new) (hintroduced : ctx.introduce name = .ok introduced) :
    (ctx.written ρ labels).introduce ⟨ρ.binding labels name.name, name.line⟩
      = .ok (introduced.written ρ labels) := by
  obtain ⟨hlocal, rfl⟩ := Context.introduce_eq_ok.mp hintroduced
  refine Context.introduce_eq_ok.mpr ⟨?_, ?_⟩
  · rw [hasLocal_written h hname, hlocal]
  · rw [ready_written h hname]

theorem Writable.introduce (h : Writable ρ ctx labels) {name : Identifier} {introduced : Context}
    (hname : name.name ≠ ρ.new) (hintroduced : ctx.introduce name = .ok introduced) :
    Writable ρ introduced labels := by
  obtain ⟨-, rfl⟩ := Context.introduce_eq_ok.mp hintroduced
  exact h.ready hname

/-- Parameters are added as they are written in their scope. -/
theorem introduceAll_written {l : Label} (h : Writable ρ ctx (l :: labels))
    {params : List Identifier} {inside : Context} (hparams : ρ.new ∉ params.map (·.name))
    (hinside : ctx.introduceAll params = .ok inside) :
    (ctx.written ρ (l :: labels)).introduceAll
        (params.map fun p => ⟨ρ.inScope (some l) p.name, p.line⟩)
      = .ok (inside.written ρ (l :: labels)) ∧ Writable ρ inside (l :: labels) := by
  induction params generalizing ctx with
  | nil =>
    cases hinside
    exact ⟨rfl, h⟩
  | cons p rest ih =>
    obtain ⟨introduced, hintroduced, hrest⟩ := Context.introduceAll_cons.mp hinside
    rw [List.map_cons, List.mem_cons, not_or] at hparams
    obtain ⟨hp, hparams⟩ := hparams
    have hwritten := introduce_written h (Ne.symm hp) hintroduced
    have htail := ih (h.introduce (Ne.symm hp) hintroduced) hparams hrest
    refine ⟨?_, htail.2⟩
    exact Context.introduceAll_cons.mpr ⟨_, hwritten, htail.1⟩

end

/-! ## Expressions -/

theorem Expr.mem_allVariables {es : List Expr} {e : Expr} {x : String} (he : e ∈ es)
    (hx : x ∈ e.variables) : x ∈ Expr.allVariables es := by
  induction es with
  | nil => cases he
  | cons first rest ih =>
    obtain rfl | he := List.mem_cons.mp he
    · exact List.mem_append_left _ hx
    · exact List.mem_append_right _ (ih he)

section
variable {K : Findings} {ctx : Context} {labels : List Label}

/-- Arguments are resolved as before if each of them is. -/
theorem resolveExprs_written {arguments : List (Expr × Expr)} {d : Distances}
    (heach : ∀ a ∈ arguments, ∀ d, resolveExpr ctx a.1 = .ok d →
      resolveExpr (ctx.written ρ labels) a.2 = .ok d)
    (h : resolveExprs ctx (arguments.map (·.1)) = .ok d) :
    resolveExprs (ctx.written ρ labels) (arguments.map (·.2)) = .ok d := by
  induction arguments generalizing d with
  | nil => exact h
  | cons a rest ih =>
    obtain ⟨first, others, hfirst, hothers, rfl⟩ := resolveExprs_cons.mp h
    obtain ⟨ha, hrest⟩ := List.forall_mem_cons.mp heach
    have hfirst' := ha first hfirst
    have hothers' := ih hrest hothers
    exact resolveExprs_cons.mpr ⟨first, others, hfirst', hothers', rfl⟩

/-- An expression is resolved as before. -/
theorem resolveExpr_written {e e' : Expr} {d : Distances} (he : ExprLinked ρ K ctx labels e e')
    (hw : Writable ρ ctx labels) (hthis : ρ.new ≠ "this") (hnew : ρ.new ∉ e.variables)
    (h : resolveExpr ctx e = .ok d) : resolveExpr (ctx.written ρ labels) e' = .ok d := by
  induction he generalizing d with
  | literal => exact h
  | grouping _ _ ih => exact ih hnew h
  | @var id name =>
    have hname : name.name ≠ ρ.new := fun hn => hnew (hn ▸ List.mem_singleton_self _)
    rw [resolveExpr_variable] at h ⊢
    rw [isInitializing_written hw hname, entry_written hw hname]
    exact h
  | @this id _ _ _ _ hsame =>
    have hentry := entry_written hw (Ne.symm hthis) id
    rw [hsame] at hentry
    rw [resolveExpr_this] at h ⊢
    rw [hentry]
    exact h
  | @assign id name value value' _ _ _ _ ih =>
    have hname : name.name ≠ ρ.new := fun hn => hnew (hn ▸ List.mem_cons_self)
    have hvalue' : ρ.new ∉ value.variables := fun hn => hnew (List.mem_cons_of_mem _ hn)
    obtain ⟨inside, hvalue, rfl⟩ := resolveExpr_assign.mp h
    rw [resolveExpr_assign, entry_written hw hname]
    exact ⟨inside, ih hvalue' hvalue, rfl⟩
  | unary _ _ ih => exact ih hnew h
  | binary _ _ _ ihleft ihright =>
    obtain ⟨hleft', hright'⟩ := not_or.mp (mt List.mem_append.mpr hnew)
    obtain ⟨first, second, hleft, hright, rfl⟩ := resolveExpr_binary.mp h
    exact resolveExpr_binary.mpr
      ⟨first, second, ihleft hleft' hleft, ihright hright' hright, rfl⟩
  | logical _ _ _ ihleft ihright =>
    obtain ⟨hleft', hright'⟩ := not_or.mp (mt List.mem_append.mpr hnew)
    obtain ⟨first, second, hleft, hright, rfl⟩ := resolveExpr_logical.mp h
    exact resolveExpr_logical.mpr
      ⟨first, second, ihleft hleft' hleft, ihright hright' hright, rfl⟩
  | call _ _ _ ihcallee iharguments =>
    obtain ⟨hcallee', harguments'⟩ := not_or.mp (mt List.mem_append.mpr hnew)
    obtain ⟨first, second, hcallee, harguments, rfl⟩ := resolveExpr_call.mp h
    have hwritten := resolveExprs_written (fun a ha d hd => iharguments a ha
      (fun hn => harguments' (Expr.mem_allVariables (List.mem_map_of_mem ha) hn)) hd) harguments
    exact resolveExpr_call.mpr ⟨first, second, ihcallee hcallee' hcallee, hwritten, rfl⟩
  | get _ _ ih => exact ih hnew h
  | set _ _ _ ihobject ihvalue =>
    obtain ⟨hobject', hvalue'⟩ := not_or.mp (mt List.mem_append.mpr hnew)
    obtain ⟨first, second, hvalue, hobject, rfl⟩ := resolveExpr_set.mp h
    exact resolveExpr_set.mpr
      ⟨first, second, ihvalue hvalue' hvalue, ihobject hobject' hobject, rfl⟩

end

/-! ## Statements -/

/-- A return of a value is allowed as before. -/
theorem checkReturn_written {ctx : Context} {labels : List Label} {line : Nat}
    {e e' : Expr} (h : checkReturn ctx line (some e) = .ok ()) :
    checkReturn (ctx.written ρ labels) line (some e') = .ok () := by
  unfold checkReturn Context.written at *
  cases hroutine : ctx.routine with
  | none =>
    rw [hroutine] at h
    cases h
  | some routine =>
    rw [hroutine] at h
    cases routine with
    | ordinary => rfl
    | initializer => cases h

theorem StmtLinked.writable {K : Findings} {ctx behind : Context} {labels : List Label}
    {s s' : Stmt} (hs : StmtLinked ρ K ctx labels s s' behind) (hw : Writable ρ ctx labels)
    (hnew : ρ.new ∉ s.variables) : Writable ρ behind labels := by
  cases hs with
  | @varDecl _ _ _ name _ _ hdeclared =>
    have hname : name.name ≠ ρ.new := fun hn => hnew (hn ▸ List.mem_cons_self)
    obtain ⟨-, rfl⟩ := Context.declare_eq_ok.mp hdeclared
    exact hw.ready hname
  | @funDecl _ _ _ f _ hintroduced =>
    have hname : f.name.name ≠ ρ.new := fun hn => hnew (hn ▸ List.mem_cons_self)
    exact hw.introduce hname hintroduced
  | @classDecl _ _ _ name _ _ hintroduced =>
    have hname : name.name ≠ ρ.new := fun hn => hnew (hn ▸ List.mem_cons_self)
    exact hw.introduce hname hintroduced
  | _ => exact hw

section
variable {K : Findings}

mutual

/-- A statement is resolved as before, and the context behind it is written as before. -/
theorem resolveStmt_written {ctx behind next : Context} {labels : List Label} (s : Stmt)
    {s' : Stmt} {d : Distances} (hs : StmtLinked ρ K ctx labels s s' behind)
    (hw : Writable ρ ctx labels) (hthis : ρ.new ≠ "this") (hnew : ρ.new ∉ s.variables)
    (h : resolveStmt ctx s = .ok (next, d)) :
    resolveStmt (ctx.written ρ labels) s' = .ok (next.written ρ labels, d) := by
  match s with
  | .expression e =>
    cases hs with
    | expression he =>
      obtain ⟨hinside, rfl⟩ := resolveStmt_expression.mp h
      exact resolveStmt_expression.mpr ⟨resolveExpr_written he hw hthis hnew hinside, rfl⟩
  | .print e =>
    cases hs with
    | print he =>
      obtain ⟨hinside, rfl⟩ := resolveStmt_print.mp h
      exact resolveStmt_print.mpr ⟨resolveExpr_written he hw hthis hnew hinside, rfl⟩
  | .varDecl name e =>
    cases hs with
    | varDecl hdeclared _ he =>
      obtain ⟨hname, hnew⟩ := not_or.mp (mt List.mem_cons.mpr hnew)
      obtain ⟨declared, hdeclared', hinside, rfl⟩ := resolveStmt_varDecl.mp h
      rw [hdeclared] at hdeclared'
      cases hdeclared'
      have hwritten := declare_written hw (Ne.symm hname) hdeclared
      obtain ⟨-, rfl⟩ := Context.declare_eq_ok.mp hdeclared
      have hw' := hw.mark (Ne.symm hname) false
      have he' := resolveExpr_written he (hw'.of_scopes Context.scopes_inInitializer) hthis hnew
        hinside
      rw [inInitializer_written hw'] at he'
      exact resolveStmt_varDecl.mpr ⟨_, hwritten, he', mark_written hw' true⟩
  | .block body =>
    cases hs with
    | @block _ _ label _ body' _ _ hbody =>
      obtain ⟨⟨inner, hinside⟩, hsame⟩ := resolveStmt_block.mp h
      rw [hsame]
      have hw' : Writable ρ (ctx.push []) (label :: labels) := hw.push rfl rfl
      have hbody' := resolveStmts_written body hbody hw' hthis hnew hinside
      exact resolveStmt_block.mpr ⟨⟨_, hbody'⟩, rfl⟩
  | .ifElse c s none =>
    cases hs with
    | ifThen hc hthen =>
      obtain ⟨hnewc, hnews⟩ := not_or.mp (mt List.mem_append.mpr hnew)
      obtain ⟨first, second, hcondition, hinner, rfl⟩ := resolveStmt_ifThen.mp h
      have hc' := resolveExpr_written hc hw hthis hnewc hcondition
      have hthen' := resolveStmt_written s hthen hw hthis hnews hinner
      exact resolveStmt_ifThen.mpr ⟨first, second, hc', hthen', rfl⟩
  | .ifElse c s (some r) =>
    cases hs with
    | ifElse hc hthen hafter helse =>
      obtain ⟨hnewc, hnew⟩ := not_or.mp (mt List.mem_append.mpr hnew)
      obtain ⟨hnews, hnewr⟩ := not_or.mp (mt List.mem_append.mpr hnew)
      obtain ⟨first, inner, second, third, hcondition, hinner, hinner', rfl⟩ :=
        resolveStmt_ifElse.mp h
      obtain rfl : inner = ctx := (after_of_resolveStmt hinner).symm.trans hafter
      have hc' := resolveExpr_written hc hw hthis hnewc hcondition
      have hthen' := resolveStmt_written s hthen hw hthis hnews hinner
      have helse' := resolveStmt_written r helse hw hthis hnewr hinner'
      exact resolveStmt_ifElse.mpr ⟨first, _, second, third, hc', hthen', helse', rfl⟩
  | .whileLoop c s =>
    cases hs with
    | whileLoop hc hbody =>
      obtain ⟨hnewc, hnews⟩ := not_or.mp (mt List.mem_append.mpr hnew)
      obtain ⟨first, inner, second, hcondition, hinner, rfl, rfl⟩ := resolveStmt_whileLoop.mp h
      have hc' := resolveExpr_written hc hw hthis hnewc hcondition
      have hw' : Writable ρ { ctx with inLoop := true } labels := hw.of_scopes rfl
      have hbody' := resolveStmt_written s hbody hw' hthis hnews hinner
      exact resolveStmt_whileLoop.mpr ⟨first, _, second, hc', hbody', rfl, rfl⟩
  | .breakLoop line =>
    cases hs
    obtain ⟨hloop, rfl, rfl⟩ := resolveStmt_breakLoop.mp h
    exact resolveStmt_breakLoop.mpr ⟨hloop, rfl, rfl⟩
  | .funDecl f =>
    cases hs with
    | @funDecl _ introduced _ _ f' hintroduced _ hbinding hf =>
      obtain ⟨hname, hnew⟩ := not_or.mp (mt List.mem_cons.mpr hnew)
      obtain ⟨hintroduced', hinside⟩ := resolveStmt_funDecl.mp h
      obtain rfl : behind = next := Except.ok.inj (hintroduced.symm.trans hintroduced')
      have hwritten := introduce_written hw (Ne.symm hname) hintroduced
      have hw' := hw.introduce (Ne.symm hname) hintroduced
      have hf' := resolveFunction_written f hf hw' hthis hnew hinside
      have hsame : f'.name = f.name := by
        cases hf
        rfl
      rw [hbinding] at hwritten
      rw [resolveStmt_funDecl, hsame]
      exact ⟨hwritten, hf'⟩
  | .returnValue _ none =>
    cases hs
    obtain ⟨hreturn, rfl, rfl⟩ := resolveStmt_return.mp h
    exact resolveStmt_return.mpr ⟨hreturn, rfl, rfl⟩
  | .returnValue _ (some e) =>
    cases hs with
    | returnValue he =>
      obtain ⟨hreturn, hinside, rfl⟩ := resolveStmt_returnValue.mp h
      have he' := resolveExpr_written he hw hthis hnew hinside
      exact resolveStmt_returnValue.mpr ⟨checkReturn_written hreturn, he', rfl⟩
  | .classDecl name methods =>
    cases hs with
    | @classDecl _ introduced _ _ _ methods' hintroduced _ hbinding hmethods =>
      obtain ⟨hname, hnew⟩ := not_or.mp (mt List.mem_cons.mpr hnew)
      obtain ⟨hintroduced', hinside⟩ := resolveStmt_classDecl.mp h
      obtain rfl : behind = next := Except.ok.inj (hintroduced.symm.trans hintroduced')
      have hwritten := introduce_written hw (Ne.symm hname) hintroduced
      have hw' := hw.introduce (Ne.symm hname) hintroduced
      have hscope : List.lookup ρ.new [("this", true)] = none := by
        rw [Context.lookup_cons, if_neg (Ne.symm hthis)]
        rfl
      have hw'' : Writable ρ behind.inClassBody (.this :: labels) := hw'.push rfl hscope
      have hmethods' := resolveMethods_written methods hmethods hw'' hthis hnew hinside
      rw [hbinding] at hwritten
      exact resolveStmt_classDecl.mpr ⟨hwritten, hmethods'⟩
termination_by structural s

/-- Statements that follow each other are resolved as before. -/
theorem resolveStmts_written {ctx next : Context} {labels : List Label} (ss : List Stmt)
    {ss' : List Stmt} {d : Distances} (hss : StmtsLinked ρ K ctx labels ss ss')
    (hw : Writable ρ ctx labels) (hthis : ρ.new ≠ "this") (hnew : ρ.new ∉ Stmt.allVariables ss)
    (h : resolveStmts ctx ss = .ok (next, d)) :
    resolveStmts (ctx.written ρ labels) ss' = .ok (next.written ρ labels, d) := by
  match ss with
  | [] =>
    cases hss
    cases h
    rfl
  | s :: rest =>
    cases hss with
    | @cons _ behind _ _ _ _ _ hs hafter hrest =>
      obtain ⟨hnews, hnewrest⟩ := not_or.mp (mt List.mem_append.mpr hnew)
      obtain ⟨inner, first, others, hinner, hinner', rfl⟩ := resolveStmts_cons.mp h
      obtain rfl : inner = behind := (after_of_resolveStmt hinner).symm.trans hafter
      have hs' := resolveStmt_written s hs hw hthis hnews hinner
      have hrest' := resolveStmts_written rest hrest (hs.writable hw hnews) hthis hnewrest hinner'
      exact resolveStmts_cons.mpr ⟨_, first, others, hs', hrest', rfl⟩
termination_by structural ss

/-- A function is resolved as before. -/
theorem resolveFunction_written {ctx : Context} {labels : List Label} {routine : Routine}
    (f : FunctionDecl) {f' : FunctionDecl} {d : Distances}
    (hf : FunctionLinked ρ K (ctx.inRoutine routine) labels f f') (hw : Writable ρ ctx labels)
    (hthis : ρ.new ≠ "this") (hnew : ρ.new ∉ f.variables)
    (h : resolveFunction (ctx.inRoutine routine) f = .ok d) :
    resolveFunction ((ctx.written ρ labels).inRoutine routine) f' = .ok d := by
  match f with
  | .mk name params body =>
    cases hf with
    | @mk _ inside _ label _ _ _ body' hinside _ _ hbody =>
      obtain ⟨hparams, hnew⟩ := not_or.mp (mt List.mem_append.mpr hnew)
      obtain ⟨inside', inner, hinside', hinner⟩ := resolveFunction_mk.mp h
      rw [hinside] at hinside'
      cases hinside'
      have hw' : Writable ρ (ctx.inRoutine routine) (label :: labels) := hw.push rfl rfl
      obtain ⟨hwritten, hw''⟩ := introduceAll_written hw' hparams hinside
      have hbody' := resolveStmts_written body hbody hw'' hthis hnew hinner
      exact resolveFunction_mk.mpr ⟨_, _, hwritten, hbody'⟩
termination_by structural f

/-- Methods are resolved as before. -/
theorem resolveMethods_written {ctx : Context} {labels : List Label} (fs : List FunctionDecl)
    {fs' : List FunctionDecl} {d : Distances} (hfs : FunctionsLinked ρ K ctx labels fs fs')
    (hw : Writable ρ ctx labels) (hthis : ρ.new ≠ "this")
    (hnew : ρ.new ∉ FunctionDecl.allVariables fs) (h : resolveMethods ctx fs = .ok d) :
    resolveMethods (ctx.written ρ labels) fs' = .ok d := by
  match fs with
  | [] =>
    cases hfs
    exact h
  | f :: rest =>
    cases hfs with
    | @cons _ _ _ f' _ _ hf hrest =>
      obtain ⟨hnewf, hnewrest⟩ := not_or.mp (mt List.mem_append.mpr hnew)
      obtain ⟨first, others, hfirst, hothers, rfl⟩ := resolveMethods_cons.mp h
      have hroutine : f'.routine = f.routine := by
        cases hf
        rfl
      have hf' := resolveFunction_written f hf hw hthis hnewf hfirst
      have hrest' := resolveMethods_written rest hrest hw hthis hnewrest hothers
      rw [← hroutine] at hf'
      exact resolveMethods_cons.mpr ⟨first, others, hf', hrest', rfl⟩
termination_by structural fs

end

/-- A program is resolved as before. -/
theorem resolve_written {p p' : Program} {d : Distances} (hp : StmtsLinked ρ K .top [] p p')
    (hthis : ρ.new ≠ "this") (hnew : ρ.new ∉ p.variables) (h : p.resolve = .ok d) :
    Program.resolve p' = .ok d := by
  obtain ⟨behind, hresolved⟩ := resolve_eq_ok.mp h
  have hw : Writable ρ .top [] := ⟨rfl, fun _ hscope => nomatch hscope⟩
  have hwritten := resolveStmts_written p hp hw hthis hnew hresolved
  exact resolve_eq_ok.mpr ⟨_, hwritten⟩

end

end LoxLang
