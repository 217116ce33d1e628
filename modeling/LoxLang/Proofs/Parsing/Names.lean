import LoxLang.Proofs.Parsing.Regular

/-!
# Names of a program

Every name in a tree that is read from a source is an identifier of the source, so no reserved word
ever names a variable, a function, a class, a method or a property.

* `Expr.names`, `Stmt.names`: all names in a tree, as written;
* `Spells`: tokens among which an identifier has this name;
* `parseSource_names`, `parseExpressionSource_names`: no name of a source is a reserved word.
-/

namespace LoxLang

mutual

/-- The names of variables and properties in an expression. -/
def Expr.names : Expr → List String
  | .literal _ => []
  | .grouping inner => inner.names
  | .variable _ name => [name.name]
  | .this _ _ => []
  | .assign _ name value => name.name :: value.names
  | .unary _ _ operand => operand.names
  | .binary _ _ left right => left.names ++ right.names
  | .logical _ left right => left.names ++ right.names
  | .call callee _ arguments => callee.names ++ Expr.allNames arguments
  | .get object name => object.names ++ [name.name]
  | .set object name value => object.names ++ name.name :: value.names

def Expr.allNames : List Expr → List String
  | [] => []
  | e :: rest => e.names ++ Expr.allNames rest

end

mutual

/-- The names in a statement. -/
def Stmt.names : Stmt → List String
  | .expression e => e.names
  | .print e => e.names
  | .varDecl name e => name.name :: e.names
  | .block body => Stmt.allNames body
  | .ifElse c s none => c.names ++ s.names
  | .ifElse c s (some r) => c.names ++ s.names ++ r.names
  | .whileLoop c s => c.names ++ s.names
  | .breakLoop _ => []
  | .funDecl f => f.names
  | .returnValue _ none => []
  | .returnValue _ (some e) => e.names
  | .classDecl name methods => name.name :: FunctionDecl.allNames methods

def Stmt.allNames : List Stmt → List String
  | [] => []
  | s :: rest => s.names ++ Stmt.allNames rest

def FunctionDecl.names : FunctionDecl → List String
  | .mk name params body => name.name :: (params.map (·.name) ++ Stmt.allNames body)

def FunctionDecl.allNames : List FunctionDecl → List String
  | [] => []
  | f :: rest => f.names ++ FunctionDecl.allNames rest

end

theorem Expr.mem_allNames {es : List Expr} {x : String} :
    x ∈ Expr.allNames es ↔ ∃ e ∈ es, x ∈ e.names := by
  induction es with
  | nil => simp [Expr.allNames]
  | cons e rest ih => simp [Expr.allNames, ih]

theorem Stmt.mem_allNames {ss : List Stmt} {x : String} :
    x ∈ Stmt.allNames ss ↔ ∃ s ∈ ss, x ∈ s.names := by
  induction ss with
  | nil => simp [Stmt.allNames]
  | cons s rest ih => simp [Stmt.allNames, ih]

theorem FunctionDecl.mem_allNames {fs : List FunctionDecl} {x : String} :
    x ∈ FunctionDecl.allNames fs ↔ ∃ f ∈ fs, x ∈ f.names := by
  induction fs with
  | nil => simp [FunctionDecl.allNames]
  | cons f rest ih => simp [FunctionDecl.allNames, ih]

/-! ## Names and identities -/

mutual

theorem Expr.names_withoutIds (e : Expr) : e.withoutIds.names = e.names := by
  match e with
  | .literal _ | .variable _ _ | .this _ _ => rfl
  | .grouping inner | .unary _ _ inner => exact names_withoutIds inner
  | .assign _ name value => exact congrArg (name.name :: ·) (names_withoutIds value)
  | .binary _ _ left right | .logical _ left right =>
    simp only [withoutIds, names, names_withoutIds left, names_withoutIds right]
  | .call callee _ arguments =>
    simp only [withoutIds, names, names_withoutIds callee, allNames_withoutIds arguments]
  | .get object _ => simp only [withoutIds, names, names_withoutIds object]
  | .set object _ value =>
    simp only [withoutIds, names, names_withoutIds object, names_withoutIds value]

theorem Expr.allNames_withoutIds (es : List Expr) :
    Expr.allNames (Expr.allWithoutIds es) = Expr.allNames es := by
  match es with
  | [] => rfl
  | e :: rest =>
    simp only [allWithoutIds, allNames, names_withoutIds e, allNames_withoutIds rest]

end

mutual

theorem Stmt.names_withoutIds (s : Stmt) : s.withoutIds.names = s.names := by
  match s with
  | .expression e | .print e => exact Expr.names_withoutIds e
  | .varDecl name e => exact congrArg (name.name :: ·) (Expr.names_withoutIds e)
  | .block body => exact Stmt.allNames_withoutIds body
  | .ifElse c s none =>
    simp only [Stmt.withoutIds, Stmt.names, Expr.names_withoutIds, Stmt.names_withoutIds s]
  | .ifElse c s (some r) =>
    simp only [Stmt.withoutIds, Stmt.names, Expr.names_withoutIds, Stmt.names_withoutIds s,
      Stmt.names_withoutIds r]
  | .whileLoop c s =>
    simp only [Stmt.withoutIds, Stmt.names, Expr.names_withoutIds, Stmt.names_withoutIds s]
  | .breakLoop _ | .returnValue _ none => rfl
  | .funDecl f => exact FunctionDecl.names_withoutIds f
  | .returnValue _ (some e) => exact Expr.names_withoutIds e
  | .classDecl name methods =>
    exact congrArg (name.name :: ·) (FunctionDecl.allNames_withoutIds methods)

theorem Stmt.allNames_withoutIds (ss : List Stmt) :
    Stmt.allNames (Stmt.allWithoutIds ss) = Stmt.allNames ss := by
  match ss with
  | [] => rfl
  | s :: rest =>
    simp only [Stmt.allWithoutIds, Stmt.allNames, Stmt.names_withoutIds s,
      Stmt.allNames_withoutIds rest]

theorem FunctionDecl.names_withoutIds (f : FunctionDecl) : f.withoutIds.names = f.names := by
  match f with
  | .mk _ _ body =>
    simp only [FunctionDecl.withoutIds, FunctionDecl.names, Stmt.allNames_withoutIds body]

theorem FunctionDecl.allNames_withoutIds (fs : List FunctionDecl) :
    FunctionDecl.allNames (FunctionDecl.allWithoutIds fs) = FunctionDecl.allNames fs := by
  match fs with
  | [] => rfl
  | f :: rest =>
    simp only [FunctionDecl.allWithoutIds, FunctionDecl.allNames, FunctionDecl.names_withoutIds f,
      FunctionDecl.allNames_withoutIds rest]

end

/-! ## Names and tokens -/

/-- An identifier among the tokens has this name. -/
def Spells (tokens : List Token) (x : String) : Prop :=
  ∃ t ∈ tokens, t.kind = .identifier ∧ t.lexeme = x

/-- Each of the names is an identifier among the tokens. -/
def SpellsAll (tokens : List Token) (names : List String) : Prop := ∀ x ∈ names, Spells tokens x

namespace SpellsAll

variable {tokens tokens' : List Token} {names names' : List String}

theorem nil (tokens : List Token) : SpellsAll tokens [] := fun _ hx => nomatch hx

theorem mono (h : SpellsAll tokens names) (hsub : tokens ⊆ tokens') : SpellsAll tokens' names := by
  intro x hx
  obtain ⟨t, ht, hname⟩ := h x hx
  exact ⟨t, hsub ht, hname⟩

theorem append (h : SpellsAll tokens names) (h' : SpellsAll tokens names') :
    SpellsAll tokens (names ++ names') := List.forall_mem_append.mpr ⟨h, h'⟩

theorem cons {t : Token} (ht : t ∈ tokens) (hkind : t.kind = .identifier)
    (h : SpellsAll tokens names) : SpellsAll tokens (t.lexeme :: names) :=
  List.forall_mem_cons.mpr ⟨⟨t, ht, hkind, rfl⟩, h⟩

end SpellsAll

namespace Grammar

theorem Expression.names {form : Form} {tokens : List Token} {e : Expr}
    (h : Expression form tokens e) : SpellsAll tokens e.names := by
  induction h with
  | assign hname _ _ ih => exact .cons (by simp) hname (ih.mono (by simp))
  | set _ _ hname _ _ ihobject ihvalue =>
    refine (ihobject.mono (by simp)).append (.cons (by simp) hname (ihvalue.mono ?_))
    intro t ht
    simp [ht]
  | plain _ ih | operand _ ih | unprefixed _ ih | uncalled _ ih => exact ih
  | @operation _ front tokens left right sign op _ _ _ ihleft ihright =>
    have hsub : tokens ⊆ front ++ sign :: tokens :=
      fun t ht => List.mem_append_right _ (List.mem_cons_of_mem _ ht)
    have hnames := (ihleft.mono (List.subset_append_left front (sign :: tokens))).append
      (ihright.mono hsub)
    cases op <;> exact hnames
  | prefixed _ _ ih => exact ih.mono (List.subset_cons_self _ _)
  | @call _ _ _ _ _ arguments _ _ _ hlisted _ _ ihcallee iharguments =>
    refine (ihcallee.mono (List.subset_append_left _ _)).append fun x hx => ?_
    obtain ⟨e, he, hx⟩ := Expr.mem_allNames.mp hx
    obtain ⟨a, ha, rfl⟩ := List.mem_map.mp he
    obtain ⟨t, ht, hname⟩ := iharguments a ha x hx
    have hmem : t ∈ _ := hlisted.mem (List.mem_map_of_mem ha) ht
    exact ⟨t, by simp [hmem], hname⟩
  | get _ _ hname ih =>
    exact (ih.mono (List.subset_append_left _ _)).append (.cons (by simp) hname (.nil _))
  | literal _ | this _ => exact .nil _
  | name ht => exact .cons (by simp) ht (.nil _)
  | grouping _ _ _ ih =>
    exact ih.mono fun t ht => List.mem_cons_of_mem _ (List.mem_append_left _ ht)

theorem Terminated.names {tokens : List Token} {e : Expr} (h : Terminated tokens e) :
    SpellsAll tokens e.names := by
  obtain ⟨he, -⟩ := h
  exact he.names.mono (List.subset_append_left _ _)

/-- The names of an expression that may be left out. -/
theorem OptionalExpression.names {tokens : List Token} {e : Option Expr}
    (h : OptionalExpression tokens e) : ∀ e' ∈ e, SpellsAll tokens e'.names := by
  intro e' he'
  cases h with
  | none => cases he'
  | some h =>
    cases he'
    exact h.names

theorem VarDeclaration.names {tokens : List Token} {s : Stmt} (h : VarDeclaration tokens s) :
    SpellsAll tokens s.names := by
  cases h with
  | bare _ hname _ => exact .cons (by simp) hname (.nil _)
  | initialized _ hname _ he =>
    refine .cons (by simp) hname (he.names.mono fun t ht => ?_)
    simp only [List.mem_cons, ht, or_true]

theorem ForStart.names {tokens : List Token} {initializer : Option Stmt}
    (h : ForStart tokens initializer) : ∀ s ∈ initializer, SpellsAll tokens s.names := by
  intro s hs
  cases h with
  | none => cases hs
  | declaration h =>
    cases hs
    exact h.names
  | expression h =>
    cases hs
    exact h.names

theorem Function.names {body tokens : List Token} {statements : List Stmt} {f : FunctionDecl}
    (h : Function body statements tokens f) (hbody : SpellsAll body (Stmt.allNames statements)) :
    SpellsAll tokens f.names := by
  obtain ⟨hname, _, hparams, hlisted, _, _, _, _⟩ := h
  refine .cons (by simp) hname (.append (fun x hx => ?_) (hbody.mono ?_))
  · obtain ⟨p, hp, rfl⟩ := List.mem_map.mp hx
    obtain ⟨t, ht, rfl⟩ := List.mem_map.mp hp
    have hmem : t ∈ _ := hlisted.mem (List.mem_map_of_mem ht) (List.mem_singleton_self t)
    exact ⟨t, by simp [hmem], hparams t ht, rfl⟩
  · intro t ht
    simp [ht]

/-- The names of phrases that follow each other. -/
theorem tokensOf_names {body : List Phrase}
    (h : ∀ d ∈ body, SpellsAll d.tokens d.stmt.names) :
    SpellsAll (tokensOf body) (Stmt.allNames (body.map (·.stmt))) := by
  intro x hx
  obtain ⟨s, hs, hx⟩ := Stmt.mem_allNames.mp hx
  obtain ⟨d, hd, rfl⟩ := List.mem_map.mp hs
  obtain ⟨t, ht, hname⟩ := h d hd x hx
  exact ⟨t, List.mem_flatMap.mpr ⟨d, hd, ht⟩, hname⟩

/-- The names of a `for` loop are those of its parts. -/
theorem desugarFor_names {tokens : List Token} {initializer : Option Stmt}
    {condition increment : Option Expr} {body : Stmt}
    (hinitializer : ∀ s ∈ initializer, SpellsAll tokens s.names)
    (hcondition : ∀ e ∈ condition, SpellsAll tokens e.names)
    (hincrement : ∀ e ∈ increment, SpellsAll tokens e.names)
    (hbody : SpellsAll tokens body.names) :
    SpellsAll tokens (Parsing.desugarFor initializer
      (condition.getD (.literal (.bool true))) increment body).names := by
  have hnil := SpellsAll.nil tokens
  have hcondition' : SpellsAll tokens (condition.getD (.literal (.bool true))).names := by
    cases condition with
    | none => exact hnil
    | some e => exact hcondition e rfl
  have hblock : ∀ e, SpellsAll tokens e.names →
      SpellsAll tokens (Stmt.block [body, .expression e]).names :=
    fun e he => hbody.append (he.append hnil)
  cases initializer with
  | none =>
    cases increment with
    | none => exact hcondition'.append hbody
    | some e => exact hcondition'.append (hblock e (hincrement e rfl))
  | some s =>
    have hs := hinitializer s rfl
    cases increment with
    | none => exact hs.append ((hcondition'.append hbody).append hnil)
    | some e => exact hs.append ((hcondition'.append (hblock e (hincrement e rfl))).append hnil)

theorem Statement.names {kind : Kind} {dangling : Bool} {tokens : List Token} {s : Stmt}
    (h : Statement kind dangling tokens s) : SpellsAll tokens s.names := by
  induction h with
  | @classDecl _ name _ _ methods _ hname _ _ hfunctions _ ih =>
    refine .cons (by simp) hname fun x hx => ?_
    obtain ⟨f, hf, hx⟩ := FunctionDecl.mem_allNames.mp hx
    obtain ⟨m, hm, rfl⟩ := List.mem_map.mp hf
    obtain ⟨t, ht, hspells⟩ := (hfunctions m hm).names (tokensOf_names (ih m hm)) x hx
    have hmem : t ∈ methods.flatMap (·.tokens) := List.mem_flatMap.mpr ⟨m, hm, ht⟩
    refine ⟨t, ?_, hspells⟩
    simp only [List.mem_cons, List.mem_append, hmem, true_or, or_true]
  | funDecl _ _ hf ih => exact (hf.names (tokensOf_names ih)).mono (List.subset_cons_self _ _)
  | varDecl h => exact h.names
  | statement _ ih => exact ih
  | expression h => exact h.names
  | print _ h => exact h.names.mono (List.subset_cons_self _ _)
  | whileLoop _ _ hcondition _ _ ih =>
    refine (hcondition.names.mono ?_).append (ih.mono ?_) <;>
      · intro t ht
        simp [ht]
  | forLoop _ _ hstart hcondition _ hincrement _ _ ih =>
    refine desugarFor_names (fun s hs => (hstart.names s hs).mono ?_)
      (fun e he => (hcondition.names e he).mono ?_) (fun e he => (hincrement.names e he).mono ?_)
      (ih.mono ?_) <;>
      · intro t ht
        simp [ht]
  | ifThen _ _ hcondition _ _ ih =>
    refine (hcondition.names.mono ?_).append (ih.mono ?_) <;>
      · intro t ht
        simp [ht]
  | ifElse _ _ hcondition _ _ _ _ ihthen ihelse =>
    refine ((hcondition.names.mono ?_).append (ihthen.mono ?_)).append (ihelse.mono ?_) <;>
      · intro t ht
        simp [ht]
  | block _ _ _ ih =>
    exact (tokensOf_names ih).mono fun t ht => List.mem_cons_of_mem _ (List.mem_append_left _ ht)
  | @returnValue _ _ _ value _ hvalue _ =>
    cases value with
    | none => exact .nil _
    | some e =>
      exact (hvalue.names e rfl).mono fun t ht =>
        List.mem_cons_of_mem _ (List.mem_append_left _ ht)
  | breakLoop _ _ => exact .nil _

theorem Source.names {tokens : List Token} {p : Program} (h : Source tokens p) :
    SpellsAll tokens (Stmt.allNames p) := by
  obtain ⟨hbody⟩ := h
  exact tokensOf_names fun d hd => (hbody d hd).names

end Grammar

/-! ## Names and sources -/

/-- No name of identifiers in a source is a reserved word. -/
theorem SpellsAll.unreserved {source : String} {stream : TokenStream} {names : List String}
    (hstream : (scan source).tokens? = .ok stream) (h : SpellsAll stream.tokens names) :
    ∀ x ∈ names, Keyword.ofSpelling? x = none := by
  intro x hx
  obtain ⟨t, ht, hkind, rfl⟩ := h x hx
  exact scan_identifier hstream ht hkind

/-- **No name in a program that is read is a reserved word.** -/
theorem parseSource_names {source : String} {nextId next : NodeId} {p : Program}
    (h : parseSource source nextId = (.ok p, next)) :
    ∀ x ∈ Stmt.allNames p, Keyword.ofSpelling? x = none := by
  obtain ⟨stream, hstream, hparse⟩ := parseSource_eq_ok.mp h
  have hnames := (source_of_parse hparse).1.names
  rw [Stmt.allNames_withoutIds] at hnames
  exact hnames.unreserved hstream

/-- The same for an expression by itself. -/
theorem parseExpressionSource_names {source : String} {nextId next : NodeId} {e : Expr}
    (h : parseExpressionSource source nextId = (.ok e, next)) :
    ∀ x ∈ e.names, Keyword.ofSpelling? x = none := by
  obtain ⟨stream, hstream, hparse⟩ := parseExpressionSource_eq_ok h
  have hnames := (expression_of_parse hparse).1.names
  rw [Expr.names_withoutIds] at hnames
  exact hnames.unreserved hstream

end LoxLang
