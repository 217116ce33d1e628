import LoxLang.Proofs.Layout
import LoxLang.Proofs.Scoping.Spots

/-!
# The shape of what is parsed

Not every tree can be read from tokens. At every depth of one that is, a branch or the body of a
loop declares nothing, calls and functions are of bounded size, and every name is an identifier.

* `Node.Shaped`: what holds of a node by itself;
* `Grammar.Expression.shaped`, `Grammar.Statement.shaped`: it holds of all nodes of a tree that
  lexemes derive, by induction on the derivation;
* `Stmt.shaped_withoutIds`: identities and what stands around a statement do not matter;
* `parsed_nodes_are_shaped`: it holds of all nodes of a program that is parsed.
-/

namespace LoxLang

/-! ## Nodes by themselves -/

/-- A text that is read as an identifier, so that it is no reserved word. -/
def IsName (x : String) : Prop := Lexeme .identifier x.toList

/-- The name and the parameters of a function that can be read. -/
structure FunctionDecl.HasShapedHead (f : FunctionDecl) : Prop where
  name : IsName f.name.name
  params : ∀ x ∈ f.params, IsName x.name
  length_params : f.params.length ≤ 255

/-- What holds of a node that can be read, apart from the nodes in it. -/
def Node.Shaped : Node → Prop
  | .expr (.literal (.number value)) => ∃ text, Lexeme (.number value) text
  | .expr (.variable _ name) => IsName name.name
  | .expr (.assign _ name _) => IsName name.name
  | .expr (.call _ _ arguments) => arguments.length ≤ 255
  | .expr (.get _ name) => IsName name.name
  | .expr (.set _ name _) => IsName name.name
  | .stmt (.varDecl name _) => IsName name.name
  | .stmt (.ifElse _ thenBranch elseBranch) =>
    thenBranch.declaredName? = none ∧ ∀ s ∈ elseBranch, s.declaredName? = none
  | .stmt (.whileLoop _ body) => body.declaredName? = none
  | .stmt (.funDecl f) => f.HasShapedHead
  | .stmt (.classDecl name methods) => IsName name.name ∧ ∀ f ∈ methods, f.HasShapedHead
  | _ => True

/-- All of the expressions are such nodes. -/
def AllParts (Q : Node → Prop) (parts : List Expr) : Prop := ∀ part ∈ parts, Q (.expr part)

/-- All nodes are such, wherever they stand. -/
def AllNodes (Q : Node → Prop) (nodes : List (Spot × Node)) : Prop := ∀ place ∈ nodes, Q place.2

section
variable {Q : Node → Prop} {spot : Spot}

theorem allParts_cons {e : Expr} {parts : List Expr} :
    AllParts Q (e :: parts) ↔ Q (.expr e) ∧ AllParts Q parts := List.forall_mem_cons

theorem allParts_append {parts parts' : List Expr} :
    AllParts Q (parts ++ parts') ↔ AllParts Q parts ∧ AllParts Q parts' := List.forall_mem_append

theorem allParts_nil : AllParts Q [] := fun _ h => absurd h List.not_mem_nil

theorem allParts_singleton {e : Expr} : AllParts Q [e] ↔ Q (.expr e) := List.forall_mem_singleton

theorem allParts_expressions {es : List Expr} :
    AllParts Q (Expr.allParts es) ↔ ∀ e ∈ es, AllParts Q e.parts := by
  induction es with
  | nil => simp [Expr.allParts, allParts_nil]
  | cons e rest ih => rw [Expr.allParts, allParts_append, ih, List.forall_mem_cons]

theorem allNodes_cons {node : Node} {nodes : List (Spot × Node)} :
    AllNodes Q ((spot, node) :: nodes) ↔ Q node ∧ AllNodes Q nodes := List.forall_mem_cons

theorem allNodes_append {nodes nodes' : List (Spot × Node)} :
    AllNodes Q (nodes ++ nodes') ↔ AllNodes Q nodes ∧ AllNodes Q nodes' := List.forall_mem_append

theorem allNodes_nil : AllNodes Q [] := fun _ h => absurd h List.not_mem_nil

theorem allNodes_expression {e : Expr} : AllNodes Q (e.spotted spot) ↔ AllParts Q e.parts :=
  List.forall_mem_map

theorem allNodes_statements {ss : List Stmt} :
    AllNodes Q (Stmt.allSpotted spot ss) ↔ ∀ s ∈ ss, AllNodes Q (s.spotted spot) := by
  induction ss with
  | nil => simp [Stmt.allSpotted, allNodes_nil]
  | cons s rest ih => rw [Stmt.allSpotted, allNodes_append, ih, List.forall_mem_cons]

theorem allNodes_functions {fs : List FunctionDecl} :
    AllNodes Q (FunctionDecl.allSpotted spot fs)
      ↔ ∀ f ∈ fs, AllNodes Q (f.spotted spot f.routine) := by
  induction fs with
  | nil => simp [FunctionDecl.allSpotted, allNodes_nil]
  | cons f rest ih => rw [FunctionDecl.allSpotted, allNodes_append, ih, List.forall_mem_cons]

end

abbrev AllPartsShaped (parts : List Expr) : Prop := AllParts Node.Shaped parts

abbrev AllShaped (nodes : List (Spot × Node)) : Prop := AllNodes Node.Shaped nodes

/-! ## Trees that lexemes derive -/

namespace Grammar

/-- Each of the tokens is a lexeme of its kind. -/
def AreLexemes (tokens : List Token) : Prop := ∀ t ∈ tokens, Lexeme t.kind t.lexeme.toList

theorem areLexemes_append {front rest : List Token} :
    AreLexemes (front ++ rest) ↔ AreLexemes front ∧ AreLexemes rest := List.forall_mem_append

theorem areLexemes_cons {t : Token} {rest : List Token} :
    AreLexemes (t :: rest) ↔ Lexeme t.kind t.lexeme.toList ∧ AreLexemes rest :=
  List.forall_mem_cons

theorem AreLexemes.of_flatMap {α : Type} {parts : List α} {tokens : α → List Token}
    (h : AreLexemes (parts.flatMap tokens)) {part : α} (hpart : part ∈ parts) :
    AreLexemes (tokens part) :=
  fun t ht => h t (List.mem_flatMap.mpr ⟨part, hpart, ht⟩)

theorem AreLexemes.of_listed {items : List (List Token)} {used item : List Token}
    (h : AreLexemes used) (hlisted : Listed items used) (hitem : item ∈ items) :
    AreLexemes item :=
  fun t ht => h t (hlisted.mem hitem ht)

theorem isName {t : Token} (h : Lexeme t.kind t.lexeme.toList) (hkind : t.kind = .identifier) :
    IsName t.identifier.name := by
  rw [hkind] at h
  exact h

theorem Expression.shaped {form : Form} {tokens : List Token} {e : Expr}
    (h : Expression form tokens e) (htokens : AreLexemes tokens) : AllPartsShaped e.parts := by
  induction h with
  | assign hname _ _ ih =>
    simp only [areLexemes_cons] at htokens
    exact allParts_cons.mpr ⟨isName htokens.1 hname, ih htokens.2.2⟩
  | set _ _ hname _ _ ihobject ihvalue =>
    simp only [areLexemes_append, areLexemes_cons] at htokens
    obtain ⟨hobject, -, hlexeme, -, hvalue⟩ := htokens
    exact allParts_cons.mpr ⟨isName hlexeme hname,
      allParts_append.mpr ⟨ihvalue hvalue, ihobject hobject⟩⟩
  | plain _ ih | operand _ ih | unprefixed _ ih | uncalled _ ih => exact ih htokens
  | @operation _ _ _ _ _ _ op _ _ _ ihleft ihright =>
    simp only [areLexemes_append, areLexemes_cons] at htokens
    have hparts := allParts_append.mpr ⟨ihleft htokens.1, ihright htokens.2.2⟩
    cases op <;> exact allParts_cons.mpr ⟨trivial, hparts⟩
  | prefixed _ _ ih =>
    simp only [areLexemes_cons] at htokens
    exact allParts_cons.mpr ⟨trivial, ih htokens.2⟩
  | @call _ _ _ _ _ arguments _ _ _ hlisted hlength _ ihcallee iharguments =>
    simp only [areLexemes_append, areLexemes_cons] at htokens
    obtain ⟨hfront, -, hused, -⟩ := htokens
    refine allParts_cons.mpr ⟨(List.length_map _).trans_le hlength,
      allParts_append.mpr ⟨ihcallee hfront, allParts_expressions.mpr fun e he => ?_⟩⟩
    obtain ⟨a, ha, rfl⟩ := List.mem_map.mp he
    exact iharguments a ha (hused.of_listed hlisted (List.mem_map_of_mem ha))
  | get _ _ hname ih =>
    simp only [areLexemes_append, areLexemes_cons] at htokens
    exact allParts_cons.mpr ⟨isName htokens.2.2.1 hname, ih htokens.1⟩
  | literal hliteral =>
    simp only [areLexemes_cons] at htokens
    refine allParts_singleton.mpr ?_
    generalize hkind : Token.kind _ = kind at hliteral htokens
    cases hliteral with
    | number => exact ⟨_, htokens.1⟩
    | _ => trivial
  | this _ => exact allParts_singleton.mpr trivial
  | name ht =>
    simp only [areLexemes_cons] at htokens
    exact allParts_singleton.mpr (isName htokens.1 ht)
  | grouping _ _ _ ih =>
    simp only [areLexemes_append, areLexemes_cons] at htokens
    exact allParts_cons.mpr ⟨trivial, ih htokens.2.1⟩

theorem Terminated.shaped {tokens : List Token} {e : Expr} (h : Terminated tokens e)
    (htokens : AreLexemes tokens) : AllPartsShaped e.parts := by
  obtain ⟨he, -⟩ := h
  exact he.shaped (areLexemes_append.mp htokens).1

theorem OptionalExpression.shaped {tokens : List Token} {e : Option Expr}
    (h : OptionalExpression tokens e) (htokens : AreLexemes tokens) :
    ∀ e' ∈ e, AllPartsShaped e'.parts := by
  intro e' he'
  cases h with
  | none => cases he'
  | some h =>
    cases he'
    exact h.shaped htokens

section
variable {spot : Spot}

theorem VarDeclaration.shaped {tokens : List Token} {s : Stmt} (h : VarDeclaration tokens s)
    (htokens : AreLexemes tokens) : AllShaped (s.spotted spot) := by
  cases h with
  | bare _ hname _ =>
    simp only [areLexemes_cons] at htokens
    exact allNodes_cons.mpr ⟨isName htokens.2.1 hname,
      allNodes_expression.mpr (allParts_singleton.mpr trivial)⟩
  | initialized _ hname _ he =>
    simp only [areLexemes_cons] at htokens
    exact allNodes_cons.mpr ⟨isName htokens.2.1 hname,
      allNodes_expression.mpr (he.shaped htokens.2.2.2)⟩

theorem ForStart.shaped {tokens : List Token} {initializer : Option Stmt}
    (h : ForStart tokens initializer) (htokens : AreLexemes tokens) :
    ∀ s ∈ initializer, ∀ spot, AllShaped (s.spotted spot) := by
  intro s hs spot
  cases h with
  | none => cases hs
  | declaration h =>
    cases hs
    exact h.shaped htokens
  | expression h =>
    cases hs
    exact allNodes_cons.mpr ⟨trivial, allNodes_expression.mpr (h.shaped htokens)⟩

/-- The nodes in a function are those of the statements in its body. -/
theorem Function.shaped {body tokens : List Token} {statements : List Stmt} {f : FunctionDecl}
    (h : Function body statements tokens f) (htokens : AreLexemes tokens) :
    f.HasShapedHead ∧ f.body = statements ∧ AreLexemes body := by
  obtain ⟨hname, _, hparams, hlisted, hlength, _, _, _⟩ := h
  simp only [areLexemes_cons, areLexemes_append] at htokens
  obtain ⟨hlexeme, -, hused, -, -, hbody, -⟩ := htokens
  refine ⟨⟨isName hlexeme hname, fun x hx => ?_, (List.length_map _).trans_le hlength⟩, rfl, hbody⟩
  obtain ⟨t, ht, rfl⟩ := List.mem_map.mp hx
  exact isName (hused.of_listed hlisted (List.mem_map_of_mem ht) t (List.mem_singleton_self t))
    (hparams t ht)

/-- A loop that is put together has shaped nodes, in the blocks around it and around its body. -/
theorem desugarFor_shaped {initializer : Option Stmt} {condition : Expr}
    {increment : Option Expr} {body : Stmt}
    (hinitializer : ∀ s ∈ initializer, ∀ spot, AllShaped (s.spotted spot))
    (hcondition : AllPartsShaped condition.parts)
    (hincrement : ∀ e ∈ increment, AllPartsShaped e.parts)
    (hbody : ∀ spot, AllShaped (body.spotted spot)) (hdeclared : body.declaredName? = none)
    (spot : Spot) :
    AllShaped ((Parsing.desugarFor initializer condition increment body).spotted spot) := by
  have hloop (s : Stmt) (hs : ∀ spot, AllShaped (s.spotted spot)) (hs' : s.declaredName? = none)
      (spot : Spot) : AllShaped ((Stmt.whileLoop condition s).spotted spot) :=
    allNodes_cons.mpr ⟨hs', allNodes_append.mpr ⟨allNodes_expression.mpr hcondition, hs _⟩⟩
  have hpair (s s' : Stmt) (hs : ∀ spot, AllShaped (s.spotted spot))
      (hs' : ∀ spot, AllShaped (s'.spotted spot)) (spot : Spot) :
      AllShaped ((Stmt.block [s, s']).spotted spot) :=
    allNodes_cons.mpr ⟨trivial, allNodes_statements.mpr (by simp [hs, hs'])⟩
  have hexpression (e : Expr) (he : AllPartsShaped e.parts) (spot : Spot) :
      AllShaped ((Stmt.expression e).spotted spot) :=
    allNodes_cons.mpr ⟨trivial, allNodes_expression.mpr he⟩
  cases initializer with
  | none =>
    cases increment with
    | none => exact hloop _ hbody hdeclared spot
    | some e => exact hloop _ (hpair _ _ hbody (hexpression e (hincrement e rfl))) rfl spot
  | some s =>
    have hs := hinitializer s rfl
    cases increment with
    | none => exact hpair _ _ hs (hloop _ hbody hdeclared) spot
    | some e =>
      exact hpair _ _ hs (hloop _ (hpair _ _ hbody (hexpression e (hincrement e rfl))) rfl) spot

end

/-- All nodes of a statement are shaped, whatever stands around it. -/
theorem Statement.shaped {kind : Kind} {dangling : Bool} {tokens : List Token} {s : Stmt}
    (h : Statement kind dangling tokens s) (htokens : AreLexemes tokens) :
    ∀ spot, AllShaped (s.spotted spot) := by
  induction h with
  | classDecl _ hname _ _ hfunctions _ ih =>
    simp only [areLexemes_append, areLexemes_cons] at htokens
    obtain ⟨-, hlexeme, -, hmethods, -⟩ := htokens
    intro spot
    refine allNodes_cons.mpr ⟨⟨isName hlexeme hname, fun f hf => ?_⟩,
      allNodes_functions.mpr fun f hf => ?_⟩
    · obtain ⟨m, hm, rfl⟩ := List.mem_map.mp hf
      exact ((hfunctions m hm).shaped (hmethods.of_flatMap hm)).1
    · obtain ⟨m, hm, rfl⟩ := List.mem_map.mp hf
      obtain ⟨-, hbody, hinside⟩ := (hfunctions m hm).shaped (hmethods.of_flatMap hm)
      rw [FunctionDecl.spotted_eq, hbody]
      refine allNodes_statements.mpr fun s hs => ?_
      obtain ⟨d, hd, rfl⟩ := List.mem_map.mp hs
      exact ih m hm d hd (hinside.of_flatMap hd) _
  | funDecl _ _ hf ih =>
    simp only [areLexemes_cons] at htokens
    obtain ⟨hhead, hbody, hinside⟩ := hf.shaped htokens.2
    intro spot
    refine allNodes_cons.mpr ⟨hhead, ?_⟩
    rw [FunctionDecl.spotted_eq, hbody]
    refine allNodes_statements.mpr fun s hs => ?_
    obtain ⟨d, hd, rfl⟩ := List.mem_map.mp hs
    exact ih d hd (hinside.of_flatMap hd) _
  | varDecl h => exact fun _ => h.shaped htokens
  | statement _ ih => exact ih htokens
  | expression h =>
    exact fun _ => allNodes_cons.mpr ⟨trivial, allNodes_expression.mpr (h.shaped htokens)⟩
  | print _ h =>
    simp only [areLexemes_cons] at htokens
    exact fun _ => allNodes_cons.mpr ⟨trivial, allNodes_expression.mpr (h.shaped htokens.2)⟩
  | whileLoop _ _ hcondition _ hbody ih =>
    simp only [areLexemes_append, areLexemes_cons] at htokens
    obtain ⟨-, -, hfirst, -, hrest⟩ := htokens
    exact fun _ => allNodes_cons.mpr ⟨hbody.declaredName?_eq_none,
      allNodes_append.mpr ⟨allNodes_expression.mpr (hcondition.shaped hfirst), ih hrest _⟩⟩
  | forLoop _ _ hstart hcondition _ hincrement _ hbody ih =>
    simp only [areLexemes_append, areLexemes_cons] at htokens
    obtain ⟨-, -, hfirst, hsecond, -, hthird, -, hrest⟩ := htokens
    refine desugarFor_shaped (hstart.shaped hfirst) ?_ (hincrement.shaped hthird) (ih hrest)
      hbody.declaredName?_eq_none
    cases hcondition with
    | none => exact allParts_singleton.mpr trivial
    | some hcondition => exact hcondition.shaped hsecond
  | ifThen _ _ hcondition _ hthen ih =>
    simp only [areLexemes_append, areLexemes_cons] at htokens
    obtain ⟨-, -, hfirst, -, hrest⟩ := htokens
    exact fun _ => allNodes_cons.mpr ⟨⟨hthen.declaredName?_eq_none, nofun⟩,
      allNodes_append.mpr ⟨allNodes_expression.mpr (hcondition.shaped hfirst), ih hrest _⟩⟩
  | ifElse _ _ hcondition _ hthen _ helse ihthen ihelse =>
    simp only [areLexemes_append, areLexemes_cons] at htokens
    obtain ⟨-, -, hfirst, -, hsecond, -, hthird⟩ := htokens
    refine fun _ => allNodes_cons.mpr ⟨⟨hthen.declaredName?_eq_none, ?_⟩,
      allNodes_append.mpr ⟨allNodes_append.mpr
        ⟨allNodes_expression.mpr (hcondition.shaped hfirst), ihthen hsecond _⟩, ihelse hthird _⟩⟩
    rintro _ ⟨⟩
    exact helse.declaredName?_eq_none
  | block _ _ _ ih =>
    simp only [areLexemes_append, areLexemes_cons] at htokens
    refine fun _ => allNodes_cons.mpr ⟨trivial, allNodes_statements.mpr fun s hs => ?_⟩
    obtain ⟨d, hd, rfl⟩ := List.mem_map.mp hs
    exact ih d hd (htokens.2.1.of_flatMap hd) _
  | @returnValue _ _ _ value _ hvalue _ =>
    simp only [areLexemes_append, areLexemes_cons] at htokens
    cases value with
    | none => exact fun _ => allNodes_cons.mpr ⟨trivial, allNodes_nil⟩
    | some e =>
      exact fun _ => allNodes_cons.mpr ⟨trivial,
        allNodes_expression.mpr (hvalue.shaped htokens.2.1 e rfl)⟩
  | breakLoop _ _ => exact fun _ => allNodes_cons.mpr ⟨trivial, allNodes_nil⟩

theorem Source.shaped {tokens : List Token} {p : Program} (h : Source tokens p)
    (htokens : AreLexemes tokens) : AllShaped p.spotted := by
  obtain ⟨hbody⟩ := h
  refine allNodes_statements.mpr fun s hs => ?_
  obtain ⟨d, hd, rfl⟩ := List.mem_map.mp hs
  exact (hbody d hd).shaped (htokens.of_flatMap hd) _

end Grammar

/-! ## Shapes and identities -/

theorem FunctionDecl.hasShapedHead_withoutIds (f : FunctionDecl) :
    f.withoutIds.HasShapedHead ↔ f.HasShapedHead := by
  cases f
  exact ⟨fun ⟨h, h', h''⟩ => ⟨h, h', h''⟩, fun ⟨h, h', h''⟩ => ⟨h, h', h''⟩⟩

theorem FunctionDecl.shapedHeads_withoutIds {fs : List FunctionDecl} :
    (∀ f ∈ FunctionDecl.allWithoutIds fs, f.HasShapedHead) ↔ ∀ f ∈ fs, f.HasShapedHead := by
  simp only [FunctionDecl.allWithoutIds_eq_map, List.forall_mem_map, hasShapedHead_withoutIds]

mutual

theorem Expr.shaped_withoutIds (e : Expr) :
    AllPartsShaped e.withoutIds.parts ↔ AllPartsShaped e.parts := by
  match e with
  | .literal _ => exact Iff.rfl
  | .variable _ _ | .this _ _ =>
    simp only [withoutIds, parts, allParts_cons]
    rfl
  | .grouping inner | .assign _ _ inner | .unary _ _ inner | .get inner _ =>
    simp only [withoutIds, parts, allParts_cons, shaped_withoutIds inner]
    rfl
  | .binary _ _ left right | .logical _ left right | .set right _ left =>
    simp only [withoutIds, parts, allParts_cons, allParts_append,
      shaped_withoutIds left, shaped_withoutIds right]
    rfl
  | .call callee _ arguments =>
    simp only [withoutIds, parts, allParts_cons, allParts_append, Node.Shaped,
      shaped_withoutIds callee, allShaped_withoutIds arguments]
    rw [allWithoutIds_eq_map, List.length_map]

theorem Expr.allShaped_withoutIds (es : List Expr) :
    AllPartsShaped (Expr.allParts (Expr.allWithoutIds es)) ↔ AllPartsShaped (Expr.allParts es) := by
  match es with
  | [] => exact Iff.rfl
  | e :: rest =>
    simp only [allWithoutIds, allParts, allParts_append, shaped_withoutIds e,
      allShaped_withoutIds rest]

end

mutual

theorem Stmt.shaped_withoutIds (spot spot' : Spot) (s : Stmt) :
    AllShaped (s.withoutIds.spotted spot) ↔ AllShaped (s.spotted spot') := by
  match s with
  | .expression e | .print e | .varDecl _ e | .returnValue _ (some e) =>
    simp only [Stmt.withoutIds, Stmt.spotted, allNodes_cons, allNodes_expression,
      Expr.shaped_withoutIds e]
    rfl
  | .block body =>
    simp only [Stmt.withoutIds, Stmt.spotted, allNodes_cons,
      Stmt.allShaped_withoutIds _ spot'.inScope body]
    rfl
  | .ifElse c s none =>
    simp only [Stmt.withoutIds, Stmt.spotted, allNodes_cons, allNodes_append,
      allNodes_expression, Node.Shaped, Stmt.declaredName?_withoutIds,
      Expr.shaped_withoutIds c, Stmt.shaped_withoutIds _ spot' s]
  | .ifElse c s (some r) =>
    simp only [Stmt.withoutIds, Stmt.spotted, allNodes_cons, allNodes_append,
      allNodes_expression, Node.Shaped, Option.mem_some_iff, forall_eq',
      Stmt.declaredName?_withoutIds, Expr.shaped_withoutIds c, Stmt.shaped_withoutIds _ spot' s,
      Stmt.shaped_withoutIds _ spot' r]
  | .whileLoop c s =>
    simp only [Stmt.withoutIds, Stmt.spotted, allNodes_cons, allNodes_append,
      allNodes_expression, Node.Shaped, Stmt.declaredName?_withoutIds,
      Expr.shaped_withoutIds c, Stmt.shaped_withoutIds _ spot'.inLoopBody s]
  | .breakLoop _ | .returnValue _ none =>
    simp only [Stmt.withoutIds, Stmt.spotted, allNodes_cons]
  | .funDecl f =>
    simp only [Stmt.withoutIds, Stmt.spotted, allNodes_cons, Node.Shaped,
      FunctionDecl.hasShapedHead_withoutIds,
      FunctionDecl.shaped_withoutIds _ spot' _ Scoping.Routine.ordinary f]
  | .classDecl name methods =>
    simp only [Stmt.withoutIds, Stmt.spotted, allNodes_cons, Node.Shaped,
      FunctionDecl.allShaped_withoutIds _ (spot'.inClassBody ⟨name, methods⟩) methods,
      FunctionDecl.shapedHeads_withoutIds]

theorem Stmt.allShaped_withoutIds (spot spot' : Spot) (ss : List Stmt) :
    AllShaped (Stmt.allSpotted spot (Stmt.allWithoutIds ss))
      ↔ AllShaped (Stmt.allSpotted spot' ss) := by
  match ss with
  | [] => exact Iff.rfl
  | s :: rest =>
    simp only [Stmt.allWithoutIds, Stmt.allSpotted, allNodes_append,
      Stmt.shaped_withoutIds _ spot' s, Stmt.allShaped_withoutIds _ spot' rest]

theorem FunctionDecl.shaped_withoutIds (spot spot' : Spot)
    (routine routine' : Scoping.Routine) (f : FunctionDecl) :
    AllShaped (f.withoutIds.spotted spot routine) ↔ AllShaped (f.spotted spot' routine') := by
  match f with
  | .mk _ _ body => exact Stmt.allShaped_withoutIds _ _ body

theorem FunctionDecl.allShaped_withoutIds (spot spot' : Spot) (fs : List FunctionDecl) :
    AllShaped (FunctionDecl.allSpotted spot (FunctionDecl.allWithoutIds fs))
      ↔ AllShaped (FunctionDecl.allSpotted spot' fs) := by
  match fs with
  | [] => exact Iff.rfl
  | f :: rest =>
    simp only [FunctionDecl.allWithoutIds, FunctionDecl.allSpotted, allNodes_append,
      FunctionDecl.shaped_withoutIds _ spot' _ f.routine f,
      FunctionDecl.allShaped_withoutIds _ spot' rest]

end

/-! ## Programs that are parsed -/

theorem IsName.unreserved {x : String} (h : IsName x) (k : Keyword) : x ≠ k.spelling := by
  rintro rfl
  cases Lexeme.unique h (.keyword k)

theorem allShaped_of_parse {stream : TokenStream} {nextId next : NodeId} {p : Program}
    (hstream : Grammar.AreLexemes stream.tokens)
    (h : Program.parse stream nextId = (.ok p, next)) : AllShaped p.spotted :=
  (Stmt.allShaped_withoutIds .top .top p).mp ((source_of_parse h).1.shaped hstream)

/-- **At every depth of a program that is parsed the nodes are shaped**: no branch of an `if` and
no body of a loop declares anything, calls have at most 255 arguments and functions at most 255
parameters, and each name is an identifier, which no reserved word is. Nothing is asked of the
tokens but that they are lexemes of their kinds, and the tokens of each source are. -/
theorem parsed_nodes_are_shaped :
    (∀ source stream, (scan source).tokens? = .ok stream → Grammar.AreLexemes stream.tokens) ∧
    (∀ stream nextId p next, Grammar.AreLexemes stream.tokens →
      Program.parse stream nextId = (.ok p, next) → ∀ place ∈ p.spotted, place.2.Shaped) ∧
    ∀ x, IsName x → ∀ k : Keyword, x ≠ k.spelling :=
  ⟨fun _ _ => tokens_are_lexemes, fun _ _ _ _ hstream h => allShaped_of_parse hstream h,
    fun _ => IsName.unreserved⟩

/-- The loop that is put together for a `for`, with a block as its body. -/
theorem steppedLoop_is_shaped :
    let step : Stmt := .expression (.assign 3 ⟨"i", 1⟩ (.variable 2 ⟨"i", 1⟩))
    let loop : Stmt := .whileLoop (.variable 0 ⟨"i", 1⟩) (.block [.block [], step])
    let p : Program := [.block [.varDecl ⟨"i", 1⟩ (.literal .nil), loop]]
    ∃ stream, (scan "for (var i; i; i = i) \x7b\x7d").tokens? = .ok stream ∧
      Program.parse stream 0 = (.ok p, 4) ∧ ∀ place ∈ p.spotted, place.2.Shaped := by
  intro step loop p
  obtain ⟨hlexemes, hshaped, -⟩ := parsed_nodes_are_shaped
  have hscan : ∃ stream, (scan "for (var i; i; i = i) \x7b\x7d").tokens? = .ok stream ∧
      Program.parse stream 0 = (.ok p, 4) := ⟨_, by cbv, by cbv⟩
  obtain ⟨stream, hstream, hparse⟩ := hscan
  exact ⟨stream, hstream, hparse, hshaped stream 0 p 4 (hlexemes _ _ hstream) hparse⟩

end LoxLang
