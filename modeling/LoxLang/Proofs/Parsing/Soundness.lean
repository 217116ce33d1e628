import LoxLang.Proofs.Parsing.Steps

/-!
# What is read is in the grammar

* `expression_reads`: the tokens an expression was read from derive it;
* `declaration_reads`, `statement_reads`: so do those of declarations and statements, and an `else`
  never follows one that ends with an `if` without `else`;
* `source_of_parse`, `expression_of_parse`: the tokens of a program without syntax errors derive it,
  and its identities are new and distinct; so it is with a single expression.
-/

namespace LoxLang

namespace Grammar.Precedence

/-- The place of a level among all levels. -/
def rank : Precedence → Nat
  | or => 0
  | and => 1
  | equality => 2
  | comparison => 3
  | term => 4
  | factor => 5

/-- The operators that the rule of the level takes. -/
def level (p : Precedence) : Parsing.Level := Parsing.levels.getD p.rank fun _ => none

/-- The table of levels holds exactly the operators of the grammar. -/
theorem level_eq_some_iff {p : Precedence} {kind : TokenKind} {op : Parsing.DyadicOp} :
    p.level kind = some op ↔ Operator p kind op := by
  constructor
  · intro h
    cases p <;> simp only [level, rank, Parsing.levels, List.getD_cons_succ,
      List.getD_cons_zero] at h <;> split at h <;> cases h <;> constructor
  · intro h
    cases h <;> rfl

end Grammar.Precedence

namespace Parsing

open Grammar (Precedence Operator Form)

/-- The rule of a level. -/
def levelRule (fuel : Nat) (expression : Parser Expr) (p : Precedence) : Parser Expr :=
  (levels.drop p.rank).foldr (binaryLevel fuel) (unary expression fuel)

/-- The rule of the operands of a level. -/
def operandRule (fuel : Nat) (expression : Parser Expr) (p : Precedence) : Parser Expr :=
  (levels.drop (p.rank + 1)).foldr (binaryLevel fuel) (unary expression fuel)

theorem levelRule_eq (fuel : Nat) (expression : Parser Expr) (p : Precedence) :
    levelRule fuel expression p = binaryLevel fuel p.level (operandRule fuel expression p) := by
  cases p <;> rfl

/-- What the rule gives is an expression of the given form. -/
abbrev Reads (form : Form) (x : Parser Expr) : Prop :=
  Gives id Expr.ids (fun used e => Grammar.Expression form used e.withoutIds) x

theorem takeOperator_took {level : Level} {op : DyadicOp} {line : Nat} {c c' : Cursor}
    (h : takeOperator level c = .ok (some (op, line)) c') :
    ∃ t, Took c c' [t] [] ∧ level t.kind = some op ∧ line = t.line := by
  unfold takeOperator at h
  split at h
  · cases h
  · rename_i t rest hc
    split at h
    · rename_i op' hop
      cases h
      exact ⟨t, ⟨by simp [hc], .nil (Nat.le_refl _)⟩, hop, rfl⟩
    · cases h

theorem takeOperator_none {level : Level} {c c' : Cursor}
    (h : takeOperator level c = .ok none c') : c' = c := by
  unfold takeOperator at h
  split at h
  · cases h
    rfl
  · split at h
    · cases h
    · cases h
      rfl

theorem withoutIds_apply (op : DyadicOp) (line : Nat) (left right : Expr) :
    (op.apply line left right).withoutIds
      = op.apply line left.withoutIds right.withoutIds := by
  cases op <;> simp only [DyadicOp.apply, Expr.withoutIds]

theorem ids_apply (op : DyadicOp) (line : Nat) (left right : Expr) :
    (op.apply line left right).ids = left.ids ++ right.ids := by
  cases op <;> simp only [DyadicOp.apply, Expr.ids_binary, Expr.ids_logical]

/-- Reading further operands extends the operation read so far. -/
theorem operands_took {p : Precedence} {operand : Parser Expr} (hoperand : Reads p.operand operand)
    {fuel : Nat} {left e : Expr} {c₀ c c' : Cursor} {front : List Token}
    (hfront : Took c₀ c front left.ids) (hleft : Grammar.Expression (.level p) front left.withoutIds)
    (h : operands p.level operand fuel left c = .ok e c') :
    ∃ used, Took c₀ c' used e.ids ∧ Grammar.Expression (.level p) used e.withoutIds := by
  induction fuel generalizing left front c with
  | zero => cases h
  | succ fuel ih =>
    unfold operands at h
    obtain ⟨op?, c₁, hop, h⟩ := Action.bind_eq_ok.mp h
    cases op? with
    | none =>
      cases takeOperator_none hop
      cases h
      exact ⟨front, hfront, hleft⟩
    | some found =>
      obtain ⟨op, line⟩ := found
      obtain ⟨t, ht, hkind, rfl⟩ := takeOperator_took hop
      obtain ⟨right, c₂, hright, h⟩ := Action.bind_eq_ok.mp h
      obtain ⟨used, hused, hform⟩ := hoperand _ _ _ hright
      have hfront' : Took c₀ c₂ (front ++ t :: used) (op.apply t.line left right).ids := by
        rw [ids_apply]
        simpa using hfront.trans (ht.trans hused)
      refine ih hfront' ?_ h
      rw [withoutIds_apply]
      exact .operation hleft (Precedence.level_eq_some_iff.mp hkind) hform

theorem binaryLevel_reads {p : Precedence} {operand : Parser Expr} {fuel : Nat}
    (hoperand : Reads p.operand operand) : Reads (.level p) (binaryLevel fuel p.level operand) := by
  intro c e c' h
  obtain ⟨first, c₁, hfirst, h⟩ := Action.bind_eq_ok.mp h
  obtain ⟨front, hfront, hform⟩ := hoperand _ _ _ hfirst
  exact operands_took hoperand hfront (.operand hform) h

/-! ## Expressions -/

section
variable {ex : Parser Expr}

theorem literal_took {c c' : Cursor} {t : Token} {rest : List Token} {value : Literal} {e : Expr}
    (hrest : c.rest = t :: rest) (hvalue : Grammar.IsLiteral t.kind value)
    (h : (do skip; return Expr.literal value : Parser Expr) c = .ok e c') :
    ∃ used, Took c c' used e.ids ∧ Grammar.Expression .primary used e.withoutIds := by
  obtain ⟨_, c₁, hskip, h⟩ := Action.bind_eq_ok.mp h
  cases h
  exact ⟨[t], skip_took hrest hskip, .literal hvalue⟩

theorem primary_reads (hex : Reads .expression ex) : Reads .primary (primary ex) := by
  intro c e c' h
  unfold primary at h
  obtain ⟨here, c₁, hhere, h⟩ := Action.bind_eq_ok.mp h
  cases hhere
  cases hrest : c.rest with
  | nil =>
    simp only [hrest] at h
    cases h
  | cons t rest =>
    simp only [hrest] at h
    generalize hkind : t.kind = kind at h
    split at h
    · exact literal_took hrest (hkind ▸ .falseWord) h
    · exact literal_took hrest (hkind ▸ .trueWord) h
    · exact literal_took hrest (hkind ▸ .nilWord) h
    · exact literal_took hrest (hkind ▸ .number _) h
    · exact literal_took hrest (hkind ▸ .string _) h
    · obtain ⟨_, c₁, hskip, h⟩ := Action.bind_eq_ok.mp h
      obtain ⟨id, c₂, hid, h⟩ := Action.bind_eq_ok.mp h
      cases h
      exact ⟨[t], (skip_took hrest hskip).trans (freshId_took hid), .this hkind⟩
    · obtain ⟨_, c₁, hskip, h⟩ := Action.bind_eq_ok.mp h
      obtain ⟨id, c₂, hid, h⟩ := Action.bind_eq_ok.mp h
      cases h
      exact ⟨[t], (skip_took hrest hskip).trans (freshId_took hid), .name hkind⟩
    · obtain ⟨_, c₁, hskip, h⟩ := Action.bind_eq_ok.mp h
      obtain ⟨inner, c₂, hinner, h⟩ := Action.bind_eq_ok.mp h
      obtain ⟨paren, c₃, hparen, h⟩ := Action.bind_eq_ok.mp h
      cases h
      obtain ⟨used, hused, hform⟩ := hex _ _ _ hinner
      obtain ⟨hparen, hclose⟩ := expect_took hparen
      refine ⟨t :: (used ++ [paren]), ?_, .grouping hkind hform hclose⟩
      simpa using (skip_took hrest hskip).trans (hused.trans hparen)
    · cases h

/-- Reading calls and accesses extends the call read so far. -/
theorem suffixes_took (hex : Reads .expression ex) {fuel : Nat} {callee e : Expr}
    {c₀ c c' : Cursor} {front : List Token} (hfront : Took c₀ c front callee.ids)
    (hcallee : Grammar.Expression .call front callee.withoutIds)
    (h : suffixes ex fuel callee c = .ok e c') :
    ∃ used, Took c₀ c' used e.ids ∧ Grammar.Expression .call used e.withoutIds := by
  induction fuel generalizing callee front c with
  | zero => cases h
  | succ fuel ih =>
    unfold suffixes at h
    obtain ⟨kind?, c₁, hkind, h⟩ := Action.bind_eq_ok.mp h
    cases hkind
    generalize hnext : c.rest.head?.map (·.kind) = next at h
    split at h
    · obtain ⟨t, rest, hrest, hkind⟩ := cons_of_nextKind hnext
      obtain ⟨_, c₁, hskip, h⟩ := Action.bind_eq_ok.mp h
      obtain ⟨arguments, c₂, harguments, h⟩ := Action.bind_eq_ok.mp h
      obtain ⟨paren, c₃, hparen, h⟩ := Action.bind_eq_ok.mp h
      obtain ⟨parts, used, hused, rfl, hparts, hlisted, hlength⟩ :=
        separatedOrNone_took hex harguments
      obtain ⟨hparen, hclose⟩ := expect_took hparen
      have hfront' := hfront.trans ((skip_took hrest hskip).trans (hused.trans hparen))
      have htook : Took c₀ c₃ (front ++ t :: (used ++ [paren]))
          (Expr.call callee paren.line (parts.map (·.2))).ids := by
        simpa [Expr.allIds_eq_flatMap] using hfront'
      refine ih htook ?_ h
      let phrases : List Grammar.ExprPhrase := parts.map fun p => ⟨p.1, p.2.withoutIds⟩
      have hphrases : ∀ a ∈ phrases, Grammar.Expression .expression a.tokens a.expr :=
        List.forall_mem_map.mpr hparts
      have hlisted' : Grammar.Listed (phrases.map (·.tokens)) used := by
        simpa [phrases, Function.comp_def] using hlisted
      have hcall := Grammar.Expression.call hcallee hkind hphrases hlisted'
        (by simpa [phrases] using hlength) hclose
      rw [Expr.withoutIds, Expr.allWithoutIds_eq_map]
      simpa [phrases, Function.comp_def] using hcall
    · obtain ⟨t, rest, hrest, hkind⟩ := cons_of_nextKind hnext
      obtain ⟨_, c₁, hskip, h⟩ := Action.bind_eq_ok.mp h
      obtain ⟨name, c₂, hname, h⟩ := Action.bind_eq_ok.mp h
      obtain ⟨t', htook, hident, rfl⟩ := expectName_took hname
      have hfront' := hfront.trans ((skip_took hrest hskip).trans htook)
      have hget : Took c₀ c₂ (front ++ [t, t']) (Expr.get callee t'.identifier).ids := by
        simpa using hfront'
      exact ih hget (.get hcallee hkind hident) h
    · cases h
      exact ⟨front, hfront, hcallee⟩

theorem unary_reads (hex : Reads .expression ex) (fuel : Nat) : Reads .unary (unary ex fuel) := by
  induction fuel with
  | zero =>
    intro c e c' h
    cases h
  | succ fuel ih =>
    intro c e c' h
    unfold unary at h
    obtain ⟨sign?, c₁, hsign, h⟩ := Action.bind_eq_ok.mp h
    cases sign? with
    | some t =>
      obtain ⟨ht, hsign⟩ := takeIf_took hsign
      obtain ⟨operand, c₂, hoperand, h⟩ := Action.bind_eq_ok.mp h
      cases h
      obtain ⟨used, hused, hform⟩ := ih _ _ _ hoperand
      refine ⟨t :: used, ht.trans hused, ?_⟩
      refine .prefixed ?_ hform
      cases hbang : t.isSymbol .bang with
      | true =>
        rw [Token.isSymbol_iff.mp hbang]
        exact .not
      | false =>
        rw [hbang, Bool.false_or] at hsign
        rw [Token.isSymbol_iff.mp hsign]
        exact .negate
    | none =>
      cases (takeIf_none hsign).1
      obtain ⟨callee, c₂, hcallee, h⟩ := Action.bind_eq_ok.mp h
      obtain ⟨front, hfront, hform⟩ := primary_reads hex _ _ _ hcallee
      obtain ⟨used, hused, hform⟩ := suffixes_took hex hfront (.uncalled hform) h
      exact ⟨used, hused, .unprefixed hform⟩

theorem levels_read (hex : Reads .expression ex) (fuel : Nat) (p : Precedence) :
    Reads (.level p) (levelRule fuel ex p) := by
  have factor : Reads (.level .factor) (levelRule fuel ex .factor) := by
    rw [levelRule_eq]
    exact binaryLevel_reads (unary_reads hex fuel)
  have term : Reads (.level .term) (levelRule fuel ex .term) := by
    rw [levelRule_eq]
    exact binaryLevel_reads factor
  have comparison : Reads (.level .comparison) (levelRule fuel ex .comparison) := by
    rw [levelRule_eq]
    exact binaryLevel_reads term
  have equality : Reads (.level .equality) (levelRule fuel ex .equality) := by
    rw [levelRule_eq]
    exact binaryLevel_reads comparison
  have and : Reads (.level .and) (levelRule fuel ex .and) := by
    rw [levelRule_eq]
    exact binaryLevel_reads equality
  cases p with
  | or =>
    rw [levelRule_eq]
    exact binaryLevel_reads and
  | and => exact and
  | equality => exact equality
  | comparison => exact comparison
  | term => exact term
  | factor => exact factor

/-- What was read before an equals sign is a target just when it has the form of one. -/
theorem assignment_reads (hex : Reads .expression ex) (fuel : Nat) :
    Reads .expression (assignment ex fuel) := by
  intro c e c' h
  obtain ⟨target, c₁, htarget, h⟩ := Action.bind_eq_ok.mp h
  obtain ⟨front, hfront, hform⟩ := levels_read hex fuel .or _ _ _ htarget
  obtain ⟨here, c₂, hhere, h⟩ := Action.bind_eq_ok.mp h
  cases hhere
  obtain ⟨equal?, c₃, hequal, h⟩ := Action.bind_eq_ok.mp h
  cases equal? with
  | none =>
    cases accept_none hequal
    cases h
    exact ⟨front, hfront, .plain hform⟩
  | some equal =>
    obtain ⟨hequal, hkind⟩ := accept_took hequal
    obtain ⟨value, c₄, hvalue, h⟩ := Action.bind_eq_ok.mp h
    obtain ⟨used, hused, hright⟩ := hex _ _ _ hvalue
    split at h
    · obtain ⟨id, c₅, hid, h⟩ := Action.bind_eq_ok.mp h
      cases h
      obtain ⟨t, rfl, ht, rfl⟩ := hform.of_variable
      refine ⟨t :: equal :: used, ⟨?_, ?_⟩, .assign ht hkind hright⟩
      · rw [hfront.rest, hequal.rest, hused.rest, (freshId_took hid).rest]
        simp
      · have := hequal.fresh.append (hused.fresh.append (freshId_took hid).fresh)
        simpa using this.later hfront.fresh.le
    · cases h
      obtain ⟨front, dot, t, rfl, hobject, hdot, ht, rfl⟩ := hform.of_get
      refine ⟨front ++ dot :: t :: equal :: used, ?_, .set hobject hdot ht hkind hright⟩
      have := hfront.trans (hequal.trans hused)
      rw [Expr.ids_set]
      exact Took.perm (by simpa using this) List.perm_append_comm
    · cases h

end

theorem expression_reads (fuel : Nat) : Reads .expression (expression fuel) := by
  induction fuel with
  | zero =>
    intro c e c' h
    cases h
  | succ fuel ih => exact assignment_reads ih (fuel + 1)

/-! ## Statements -/

/-- What the rule gives is a statement of the given kind; behind one that ends with an `if` without
`else` there is no `else`. -/
def ReadsStatement (kind : Grammar.Kind) (x : Parser Stmt) : Prop :=
  ∀ c s c', x c = .ok s c' → ∃ dangling used, Took c c' used s.ids ∧
    Grammar.Statement kind dangling used s.withoutIds ∧ NoElse dangling c'.rest

/-- The phrase is a declaration, and the statement differs from it in identities only. -/
def IsDeclaration (d : Grammar.Phrase) (s : Stmt) : Prop :=
  Grammar.Statement .declaration d.dangling d.tokens d.stmt ∧ d.stmt = s.withoutIds

theorem ReadsStatement.gives {x : Parser Stmt} (h : ReadsStatement .declaration x) :
    Gives Grammar.Phrase.tokens Stmt.ids IsDeclaration x := by
  intro c s c' hs
  obtain ⟨dangling, used, hused, hform, -⟩ := h _ _ _ hs
  exact ⟨⟨used, s.withoutIds, dangling⟩, hused, hform, rfl⟩

/-- The phrases of a list of statements, as they stand in a block. -/
structure AreDeclarations (phrases : List Grammar.Phrase) (ss : List Stmt) : Prop where
  derived : ∀ d ∈ phrases, Grammar.Statement .declaration d.dangling d.tokens d.stmt
  stmts : phrases.map (·.stmt) = Stmt.allWithoutIds ss

theorem AreDeclarations.of_parts {parts : List (Grammar.Phrase × Stmt)}
    (h : ∀ p ∈ parts, IsDeclaration p.1 p.2) :
    AreDeclarations (parts.map (·.1)) (parts.map (·.2)) where
  derived := List.forall_mem_map.mpr fun p hp => (h p hp).1
  stmts := by
    rw [Stmt.allWithoutIds_eq_map, List.map_map, List.map_map]
    exact List.map_congr_left fun p hp => (h p hp).2

section
variable {nested : Nested} {fuel : Nat}

theorem blockBody_took (hnested : ReadsStatement .declaration nested.declaration) {c c' : Cursor}
    {body : List Stmt} (h : blockBody fuel nested c = .ok body c') :
    ∃ phrases closing, Took c c' (Grammar.tokensOf phrases ++ [closing]) (Stmt.allIds body) ∧
      AreDeclarations phrases body ∧ closing.kind = .symbol .rightBrace := by
  obtain ⟨found, c₁, hfound, h⟩ := Action.bind_eq_ok.mp h
  obtain ⟨closing, c₂, hclosing, h⟩ := Action.bind_eq_ok.mp h
  cases h
  obtain ⟨parts, hparts, rfl, hall⟩ := untilBrace_took hnested.gives hfound
  obtain ⟨hclosing, hkind⟩ := expect_took hclosing
  refine ⟨parts.map (·.1), closing, ?_, .of_parts hall, hkind⟩
  have := hparts.trans hclosing
  simpa [Grammar.tokensOf, List.flatMap_map, Stmt.allIds_eq_flatMap] using this

/-- What a function is read from. -/
def IsFunction (m : Grammar.Method) (f : FunctionDecl) : Prop :=
  ∃ body, AreDeclarations m.body body ∧
    Grammar.Function (Grammar.tokensOf m.body) (m.body.map (·.stmt)) m.tokens m.function ∧
    m.function = f.withoutIds

theorem function_gives (hnested : ReadsStatement .declaration nested.declaration)
    (kind : FunctionKind) :
    Gives Grammar.Method.tokens FunctionDecl.ids IsFunction (function fuel nested kind) := by
  intro c f c' h
  obtain ⟨name, c₁, hname, h⟩ := Action.bind_eq_ok.mp h
  obtain ⟨start, c₂, hstart, h⟩ := Action.bind_eq_ok.mp h
  obtain ⟨params, c₃, hparams, h⟩ := Action.bind_eq_ok.mp h
  obtain ⟨finish, c₄, hfinish, h⟩ := Action.bind_eq_ok.mp h
  obtain ⟨opening, c₅, hopening, h⟩ := Action.bind_eq_ok.mp h
  obtain ⟨body, c₆, hbody, h⟩ := Action.bind_eq_ok.mp h
  cases h
  obtain ⟨t, ht, htkind, rfl⟩ := expectName_took hname
  obtain ⟨hstart, hstartKind⟩ := expect_took hstart
  have hparam : Gives ([·]) (fun _ => []) (fun (t : Token) i => t.kind = .identifier ∧
      i = t.identifier) (expectName .parameterName) := by
    intro c i c' h
    obtain ⟨t, ht, hkind, hi⟩ := expectName_took h
    exact ⟨t, ht, hkind, hi⟩
  obtain ⟨parts, used, hused, rfl, hparts, hlisted, hlength⟩ := separatedOrNone_took hparam hparams
  obtain ⟨hfinish, hfinishKind⟩ := expect_took hfinish
  obtain ⟨hopening, hopeningKind⟩ := expect_took hopening
  obtain ⟨phrases, closing, hbody, hphrases, hclosing⟩ := blockBody_took hnested hbody
  have hnames : parts.map (·.2) = (parts.map (·.1)).map (·.identifier) := by
    rw [List.map_map]
    exact List.map_congr_left fun p hp => (hparts p hp).2
  refine ⟨⟨t :: start :: (used ++ finish :: opening :: (Grammar.tokensOf phrases ++ [closing])),
    .mk t.identifier (parts.map (·.2)) (phrases.map (·.stmt)), phrases⟩, ?_, body, hphrases,
    ?_, ?_⟩
  · have hnone : (parts.map (·.2)).flatMap (fun _ => ([] : List NodeId)) = [] :=
      List.flatMap_eq_nil_iff.mpr fun _ _ => rfl
    have := ht.trans (hstart.trans (hused.trans (hfinish.trans (hopening.trans hbody))))
    simpa [hnone] using this
  · rw [hnames]
    exact .mk htkind hstartKind (List.forall_mem_map.mpr fun p hp => (hparts p hp).1)
      (by simpa [Function.comp_def] using hlisted) (by simpa using hlength) hfinishKind
      hopeningKind hclosing
  · rw [FunctionDecl.withoutIds, hphrases.stmts]

theorem classDeclaration_took (hnested : ReadsStatement .declaration nested.declaration)
    {c₀ c c' : Cursor} {word : Token} {s : Stmt} (hword : Took c₀ c [word] [])
    (hkind : word.kind = .keyword .classWord) (h : classDeclaration fuel nested c = .ok s c') :
    ∃ used, Took c₀ c' used s.ids ∧
      Grammar.Statement .declaration false used s.withoutIds := by
  obtain ⟨name, c₁, hname, h⟩ := Action.bind_eq_ok.mp h
  obtain ⟨opening, c₂, hopening, h⟩ := Action.bind_eq_ok.mp h
  obtain ⟨methods, c₃, hmethods, h⟩ := Action.bind_eq_ok.mp h
  obtain ⟨closing, c₄, hclosing, h⟩ := Action.bind_eq_ok.mp h
  cases h
  obtain ⟨t, ht, htkind, rfl⟩ := expectName_took hname
  obtain ⟨hopening, hopeningKind⟩ := expect_took hopening
  obtain ⟨parts, hparts, rfl, hall⟩ := untilBrace_took (function_gives hnested .method) hmethods
  obtain ⟨hclosing, hclosingKind⟩ := expect_took hclosing
  refine ⟨word :: t :: opening :: ((parts.map (·.1)).flatMap (·.tokens) ++ [closing]), ?_, ?_⟩
  · have := hword.trans (ht.trans (hopening.trans (hparts.trans hclosing)))
    simpa [List.flatMap_map, FunctionDecl.allIds_eq_flatMap] using this
  · have hfunctions : FunctionDecl.allWithoutIds (parts.map (·.2))
        = (parts.map (·.1)).map (·.function) := by
      rw [FunctionDecl.allWithoutIds_eq_map, List.map_map, List.map_map]
      refine List.map_congr_left fun p hp => ?_
      obtain ⟨body, -, -, hf⟩ := hall p hp
      exact hf.symm
    rw [Stmt.withoutIds, hfunctions]
    refine .classDecl hkind htkind hopeningKind ?_ ?_ hclosingKind
    · refine List.forall_mem_map.mpr fun p hp => ?_
      obtain ⟨body, hbody, -, -⟩ := hall p hp
      exact hbody.derived
    · refine List.forall_mem_map.mpr fun p hp => ?_
      obtain ⟨body, -, hfunction, -⟩ := hall p hp
      exact hfunction

/-- An expression and a semicolon behind it. -/
theorem terminated_took {c c₁ c' : Cursor} {e : Expr} {semicolon : Token} {fault : SyntaxFault}
    (he : expression fuel c = .ok e c₁) (hsemicolon : expect .semicolon fault c₁ = .ok semicolon c') :
    ∃ used, Took c c' used e.ids ∧ Grammar.Terminated used e.withoutIds := by
  obtain ⟨used, hused, hform⟩ := expression_reads fuel _ _ _ he
  obtain ⟨hsemicolon, hkind⟩ := expect_took hsemicolon
  exact ⟨used ++ [semicolon], by simpa using hused.trans hsemicolon, .mk hform hkind⟩

theorem varDeclaration_took {c₀ c c' : Cursor} {word : Token} {s : Stmt}
    (hword : Took c₀ c [word] []) (hkind : word.kind = .keyword .varWord)
    (h : varDeclaration fuel c = .ok s c') :
    ∃ used, Took c₀ c' used s.ids ∧ Grammar.VarDeclaration used s.withoutIds := by
  obtain ⟨name, c₁, hname, h⟩ := Action.bind_eq_ok.mp h
  obtain ⟨t, ht, htkind, rfl⟩ := expectName_took hname
  obtain ⟨equal?, c₂, hequal, h⟩ := Action.bind_eq_ok.mp h
  cases equal? with
  | some equal =>
    obtain ⟨hequal, hequalKind⟩ := accept_took hequal
    obtain ⟨e, c₃, he, h⟩ := Action.bind_eq_ok.mp h
    obtain ⟨semicolon, c₄, hsemicolon, h⟩ := Action.bind_eq_ok.mp h
    cases h
    obtain ⟨used, hused, hform⟩ := terminated_took he hsemicolon
    exact ⟨word :: t :: equal :: used, hword.trans (ht.trans (hequal.trans hused)),
      .initialized hkind htkind hequalKind hform⟩
  | none =>
    cases accept_none hequal
    obtain ⟨semicolon, c₃, hsemicolon, h⟩ := Action.bind_eq_ok.mp h
    cases h
    obtain ⟨hsemicolon, hsemicolonKind⟩ := expect_took hsemicolon
    exact ⟨[word, t, semicolon], hword.trans (ht.trans hsemicolon),
      .bare hkind htkind hsemicolonKind⟩

theorem expressionStatement_took {c c' : Cursor} {s : Stmt}
    (h : expressionStatement fuel c = .ok s c') :
    ∃ e used, s = .expression e ∧ Took c c' used e.ids ∧ Grammar.Terminated used e.withoutIds := by
  obtain ⟨e, c₁, he, h⟩ := Action.bind_eq_ok.mp h
  obtain ⟨semicolon, c₂, hsemicolon, h⟩ := Action.bind_eq_ok.mp h
  cases h
  obtain ⟨used, hused, hform⟩ := terminated_took he hsemicolon
  exact ⟨e, used, rfl, hused, hform⟩

/-- A condition in parentheses, behind its keyword. -/
theorem condition_took {c₀ c c₁ c₂ c' : Cursor} {word start finish : Token} {e : Expr}
    {startFault finishFault : SyntaxFault} (hword : Took c₀ c [word] [])
    (hstart : expect .leftParen startFault c = .ok start c₁)
    (he : expression fuel c₁ = .ok e c₂)
    (hfinish : expect .rightParen finishFault c₂ = .ok finish c') :
    ∃ used, Took c₀ c' (word :: start :: (used ++ [finish])) e.ids ∧
      start.kind = .symbol .leftParen ∧ Grammar.Expression .expression used e.withoutIds ∧
      finish.kind = .symbol .rightParen := by
  obtain ⟨hstart, hstartKind⟩ := expect_took hstart
  obtain ⟨used, hused, hform⟩ := expression_reads fuel _ _ _ he
  obtain ⟨hfinish, hfinishKind⟩ := expect_took hfinish
  refine ⟨used, ?_, hstartKind, hform, hfinishKind⟩
  simpa using hword.trans (hstart.trans (hused.trans hfinish))

/-- An expression that may be missing. -/
def OptionTook (c c' : Cursor) (e : Option Expr) : Prop :=
  ∃ used, Took c c' used (e.elim [] Expr.ids) ∧
    Grammar.OptionalExpression used (e.map Expr.withoutIds)

theorem OptionTook.none {c : Cursor} : OptionTook c c none := ⟨[], .refl c, .none⟩

theorem OptionTook.some {c c' : Cursor} {e : Expr} (h : expression fuel c = .ok e c') :
    OptionTook c c' (some e) := by
  obtain ⟨used, hused, hform⟩ := expression_reads fuel _ _ _ h
  exact ⟨used, hused, .some hform⟩

theorem some_expression_took {c c' : Cursor} {e : Option Expr}
    (h : (some <$> expression fuel) c = .ok e c') : OptionTook c c' e := by
  obtain ⟨e, c₁, he, h⟩ := Action.bind_eq_ok.mp h
  cases h
  exact .some he

/-- What a rule reads behind its keyword. -/
abbrev BehindKeyword (kind : TokenKind) (x : Token → Parser Stmt) : Prop :=
  ∀ word : Token, word.kind = kind → ∀ c₀ c s c', Took c₀ c [word] [] → x word c = .ok s c' →
    ∃ dangling used, Took c₀ c' used s.ids ∧
      Grammar.Statement .statement dangling used s.withoutIds ∧ NoElse dangling c'.rest

theorem printStatement_took :
    BehindKeyword (.keyword .printWord) fun _ => printStatement fuel := by
  intro word hkind c₀ c s c' hword h
  obtain ⟨e, c₁, he, h⟩ := Action.bind_eq_ok.mp h
  obtain ⟨semicolon, c₂, hsemicolon, h⟩ := Action.bind_eq_ok.mp h
  cases h
  obtain ⟨used, hused, hform⟩ := terminated_took he hsemicolon
  exact ⟨false, word :: used, hword.trans hused, .print hkind hform, .closed⟩

theorem returnStatement_took :
    BehindKeyword (.keyword .returnWord) fun word => returnStatement fuel word.line := by
  intro word hkind c₀ c s c' hword h
  have hvalue : ∃ value c₁ semicolon, OptionTook c c₁ value ∧
      expect .semicolon .returnEnd c₁ = .ok semicolon c' ∧ s = .returnValue word.line value := by
    obtain ⟨atEnd, c₁, hnext, h⟩ := Action.bind_eq_ok.mp h
    cases isNext_ok hnext
    split at h
    · obtain ⟨value, c₂, hvalue, h⟩ := Action.bind_eq_ok.mp h
      obtain ⟨semicolon, c₃, hsemicolon, h⟩ := Action.bind_eq_ok.mp h
      cases h
      cases hvalue
      exact ⟨_, _, _, .none, hsemicolon, rfl⟩
    · obtain ⟨value, c₂, hvalue, h⟩ := Action.bind_eq_ok.mp h
      obtain ⟨semicolon, c₃, hsemicolon, h⟩ := Action.bind_eq_ok.mp h
      cases h
      exact ⟨_, _, _, some_expression_took hvalue, hsemicolon, rfl⟩
  obtain ⟨value, c₁, semicolon, ⟨used, hused, hform⟩, hsemicolon, rfl⟩ := hvalue
  obtain ⟨hsemicolon, hsemicolonKind⟩ := expect_took hsemicolon
  refine ⟨false, word :: (used ++ [semicolon]), ?_, ?_, .closed⟩
  · have := hword.trans (hused.trans hsemicolon)
    cases value <;> simpa using this
  · have := Grammar.Statement.returnValue hkind hform hsemicolonKind
    cases value <;> exact this

theorem breakStatement_took :
    BehindKeyword (.keyword .breakWord) fun word => breakStatement word.line := by
  intro word hkind c₀ c s c' hword h
  obtain ⟨semicolon, c₁, hsemicolon, h⟩ := Action.bind_eq_ok.mp h
  cases h
  obtain ⟨hsemicolon, hsemicolonKind⟩ := expect_took hsemicolon
  exact ⟨false, [word, semicolon], hword.trans hsemicolon, .breakLoop hkind hsemicolonKind,
    .closed⟩

theorem blockStatement_took (hnested : ReadsStatement .declaration nested.declaration) :
    BehindKeyword (.symbol .leftBrace) fun _ => do return .block (← blockBody fuel nested) := by
  intro word hkind c₀ c s c' hword h
  obtain ⟨body, c₁, hbody, h⟩ := Action.bind_eq_ok.mp h
  cases h
  obtain ⟨phrases, closing, hbody, hphrases, hclosing⟩ := blockBody_took hnested hbody
  refine ⟨false, word :: (Grammar.tokensOf phrases ++ [closing]), hword.trans hbody, ?_, .closed⟩
  rw [Stmt.withoutIds, ← hphrases.stmts]
  exact .block hkind hphrases.derived hclosing

theorem whileStatement_took (hnested : ReadsStatement .statement nested.statement) :
    BehindKeyword (.keyword .whileWord) fun _ => whileStatement fuel nested := by
  intro word hkind c₀ c s c' hword h
  obtain ⟨start, c₁, hstart, h⟩ := Action.bind_eq_ok.mp h
  obtain ⟨condition, c₂, hcondition, h⟩ := Action.bind_eq_ok.mp h
  obtain ⟨finish, c₃, hfinish, h⟩ := Action.bind_eq_ok.mp h
  obtain ⟨body, c₄, hbody, h⟩ := Action.bind_eq_ok.mp h
  cases h
  obtain ⟨used, hused, hstart, hcondition, hfinish⟩ := condition_took hword hstart hcondition hfinish
  obtain ⟨dangling, bodyTokens, hbodyTook, hbody, hnoElse⟩ := hnested _ _ _ hbody
  refine ⟨dangling, word :: start :: (used ++ finish :: bodyTokens), ?_,
    .whileLoop hkind hstart hcondition hfinish hbody, hnoElse⟩
  simpa using hused.trans hbodyTook

theorem ifStatement_took (hnested : ReadsStatement .statement nested.statement) :
    BehindKeyword (.keyword .ifWord) fun _ => ifStatement fuel nested := by
  intro word hkind c₀ c s c' hword h
  obtain ⟨start, c₁, hstart, h⟩ := Action.bind_eq_ok.mp h
  obtain ⟨condition, c₂, hcondition, h⟩ := Action.bind_eq_ok.mp h
  obtain ⟨finish, c₃, hfinish, h⟩ := Action.bind_eq_ok.mp h
  obtain ⟨thenBranch, c₄, hthenRead, h⟩ := Action.bind_eq_ok.mp h
  obtain ⟨else?, c₅, helse, h⟩ := Action.bind_eq_ok.mp h
  obtain ⟨used, hused, hstart, hcondition, hfinish⟩ := condition_took hword hstart hcondition hfinish
  obtain ⟨dangling, thenTokens, hthenTook, hthen, hnoElse⟩ := hnested _ _ _ hthenRead
  cases else? with
  | none =>
    cases h
    obtain ⟨rfl, hnone⟩ := takeIf_none helse
    refine ⟨true, word :: start :: (used ++ finish :: thenTokens), ?_,
      .ifThen hkind hstart hcondition hfinish hthen, fun _ => hnone⟩
    simpa using hused.trans hthenTook
  | some otherwise =>
    obtain ⟨helseTook, helseWord⟩ := takeIf_took helse
    obtain ⟨elseBranch, c₆, helseBranch, h⟩ := Action.bind_eq_ok.mp h
    cases h
    obtain ⟨dangling', elseTokens, helseBranchTook, helseBranch, hnoElse'⟩ :=
      hnested _ _ _ helseBranch
    -- The `else` would have gone to an `if` that ends the first branch.
    have hclosed : dangling = false := by
      cases dangling with
      | false => rfl
      | true =>
        have := hnoElse rfl otherwise (by simp [helseTook.rest])
        rw [helseWord] at this
        cases this
    cases hclosed
    refine ⟨dangling', word :: start :: (used ++ finish :: (thenTokens ++ otherwise :: elseTokens)),
      ?_, .ifElse hkind hstart hcondition hfinish hthen (Token.isKeyword_iff.mp helseWord)
        helseBranch, hnoElse'⟩
    simpa using hused.trans (hthenTook.trans (helseTook.trans helseBranchTook))

theorem withoutIds_desugarFor (initializer : Option Stmt) (condition : Expr)
    (increment : Option Expr) (body : Stmt) :
    (desugarFor initializer condition increment body).withoutIds
      = desugarFor (initializer.map Stmt.withoutIds) condition.withoutIds
          (increment.map Expr.withoutIds) body.withoutIds := by
  cases initializer <;> cases increment <;>
    simp only [desugarFor, Stmt.withoutIds, Stmt.allWithoutIds, Option.map_some, Option.map_none]

/-- The increment of a loop stands behind its body. -/
theorem ids_desugarFor (initializer : Option Stmt) (condition : Expr) (increment : Option Expr)
    (body : Stmt) :
    (desugarFor initializer condition increment body).ids
      = initializer.elim [] Stmt.ids ++ (condition.ids ++
          (body.ids ++ increment.elim [] Expr.ids)) := by
  cases initializer <;> cases increment <;> simp [desugarFor]

theorem forInitializer_took {c c' : Cursor} {initializer : Option Stmt}
    (h : forInitializer fuel c = .ok initializer c') :
    ∃ used, Took c c' used (initializer.elim [] Stmt.ids) ∧
      Grammar.ForStart used (initializer.map Stmt.withoutIds) := by
  obtain ⟨kind?, c₁, hkind, h⟩ := Action.bind_eq_ok.mp h
  cases hkind
  generalize hnext : c.rest.head?.map (·.kind) = next at h
  split at h
  · obtain ⟨t, rest, hrest, hkind⟩ := cons_of_nextKind hnext
    obtain ⟨_, c₁, hskip, h⟩ := Action.bind_eq_ok.mp h
    cases h
    exact ⟨[t], skip_took hrest hskip, .none hkind⟩
  · obtain ⟨t, rest, hrest, hkind⟩ := cons_of_nextKind hnext
    obtain ⟨_, c₁, hskip, h⟩ := Action.bind_eq_ok.mp h
    obtain ⟨s, c₂, hs, h⟩ := Action.bind_eq_ok.mp h
    cases h
    obtain ⟨used, hused, hform⟩ := varDeclaration_took (skip_took hrest hskip) hkind hs
    exact ⟨used, hused, .declaration hform⟩
  · obtain ⟨s, c₁, hs, h⟩ := Action.bind_eq_ok.mp h
    cases h
    obtain ⟨e, used, rfl, hused, hform⟩ := expressionStatement_took hs
    exact ⟨used, hused, .expression hform⟩

/-- The clauses of a `for`, each of them read or missing. -/
theorem forStatement_parts {c c' : Cursor} {s : Stmt}
    (h : forStatement fuel nested c = .ok s c') :
    ∃ start c₁ initializer c₂ condition c₃ semicolon c₄ increment c₅ finish c₆ body,
      expect .leftParen .forStart c = .ok start c₁ ∧
      forInitializer fuel c₁ = .ok initializer c₂ ∧
      OptionTook c₂ c₃ condition ∧
      expect .semicolon .forConditionEnd c₃ = .ok semicolon c₄ ∧
      OptionTook c₄ c₅ increment ∧
      expect .rightParen .forClausesEnd c₅ = .ok finish c₆ ∧
      nested.statement c₆ = .ok body c' ∧
      s = desugarFor initializer (condition.getD (.literal (.bool true))) increment body := by
  obtain ⟨start, c₁, hstart, h⟩ := Action.bind_eq_ok.mp h
  obtain ⟨initializer, c₂, hinitializer, h⟩ := Action.bind_eq_ok.mp h
  obtain ⟨atSemicolon, c₃, hnext, h⟩ := Action.bind_eq_ok.mp h
  cases isNext_ok hnext
  have hcondition : ∃ condition c₃, OptionTook c₂ c₃ condition ∧
      (do let _ ← expect .semicolon .forConditionEnd
          let increment ←
            if ← isNext .rightParen then pure none else some <$> expression fuel
          let _ ← expect .rightParen .forClausesEnd
          let body ← nested.statement
          return desugarFor initializer (condition.getD (.literal (.bool true))) increment body :
        Parser Stmt) c₃ = .ok s c' := by
    split at h
    · obtain ⟨condition, c₃, hcondition, h⟩ := Action.bind_eq_ok.mp h
      cases hcondition
      exact ⟨none, _, .none, h⟩
    · obtain ⟨condition, c₃, hcondition, h⟩ := Action.bind_eq_ok.mp h
      exact ⟨some condition, _, .some hcondition, h⟩
  obtain ⟨condition, c₃, hcondition, h⟩ := hcondition
  obtain ⟨semicolon, c₄, hsemicolon, h⟩ := Action.bind_eq_ok.mp h
  obtain ⟨atParen, c₅, hnext, h⟩ := Action.bind_eq_ok.mp h
  cases isNext_ok hnext
  split at h
  · obtain ⟨increment, c₅, hincrement, h⟩ := Action.bind_eq_ok.mp h
    obtain ⟨finish, c₆, hfinish, h⟩ := Action.bind_eq_ok.mp h
    obtain ⟨body, c₇, hbody, h⟩ := Action.bind_eq_ok.mp h
    cases h
    cases hincrement
    exact ⟨_, _, _, _, _, _, _, _, _, _, _, _, _, hstart, hinitializer, hcondition, hsemicolon,
      .none, hfinish, hbody, rfl⟩
  · obtain ⟨increment, c₅, hincrement, h⟩ := Action.bind_eq_ok.mp h
    obtain ⟨finish, c₆, hfinish, h⟩ := Action.bind_eq_ok.mp h
    obtain ⟨body, c₇, hbody, h⟩ := Action.bind_eq_ok.mp h
    cases h
    exact ⟨_, _, _, _, _, _, _, _, _, _, _, _, _, hstart, hinitializer, hcondition, hsemicolon,
      some_expression_took hincrement, hfinish, hbody, rfl⟩

theorem forStatement_took (hnested : ReadsStatement .statement nested.statement) :
    BehindKeyword (.keyword .forWord) fun _ => forStatement fuel nested := by
  intro word hkind c₀ c s c' hword h
  obtain ⟨start, c₁, initializer, c₂, condition, c₃, semicolon, c₄, increment, c₅, finish, c₆, body,
    hstart, hinitializer, ⟨second, hsecond, hcondition⟩, hsemicolon, ⟨third, hthird, hincrement⟩,
    hfinish, hbody, rfl⟩ := forStatement_parts h
  obtain ⟨hstart, hstartKind⟩ := expect_took hstart
  obtain ⟨first, hfirst, hinitializer⟩ := forInitializer_took hinitializer
  obtain ⟨hsemicolon, hsemicolonKind⟩ := expect_took hsemicolon
  obtain ⟨hfinish, hfinishKind⟩ := expect_took hfinish
  obtain ⟨dangling, bodyTokens, hbodyTook, hbody, hnoElse⟩ := hnested _ _ _ hbody
  refine ⟨dangling, word :: start :: (first ++ (second ++ semicolon :: (third ++
    finish :: bodyTokens))), ?_, ?_, hnoElse⟩
  · have htook := hword.trans (hstart.trans (hfirst.trans (hsecond.trans (hsemicolon.trans
      (hthird.trans (hfinish.trans hbodyTook))))))
    have hcond : (condition.getD (.literal (.bool true))).ids = condition.elim [] Expr.ids := by
      cases condition <;> rfl
    rw [ids_desugarFor, hcond]
    refine Took.perm (by simpa using htook) ?_
    exact .append_left _ (.append_left _ List.perm_append_comm)
  · have hcond : (condition.getD (.literal (.bool true))).withoutIds
        = (condition.map Expr.withoutIds).getD (.literal (.bool true)) := by
      cases condition <;> rfl
    rw [withoutIds_desugarFor, hcond]
    exact .forLoop hkind hstartKind hinitializer hcondition hsemicolonKind hincrement hfinishKind
      hbody

theorem skip_bind_took {kind : TokenKind} {x : Token → Parser Stmt} (hx : BehindKeyword kind x)
    {c c' : Cursor} {t : Token} {rest : List Token} {s : Stmt} (hrest : c.rest = t :: rest)
    (hkind : t.kind = kind) (h : (do skip; x t : Parser Stmt) c = .ok s c') :
    ∃ dangling used, Took c c' used s.ids ∧
      Grammar.Statement .statement dangling used s.withoutIds ∧ NoElse dangling c'.rest := by
  obtain ⟨_, c₁, hskip, h⟩ := Action.bind_eq_ok.mp h
  exact hx t hkind _ _ _ _ (skip_took hrest hskip) h

theorem statementWith_reads (hdeclaration : ReadsStatement .declaration nested.declaration)
    (hstatement : ReadsStatement .statement nested.statement) :
    ReadsStatement .statement (statementWith fuel nested) := by
  intro c s c' h
  have hexpression : expressionStatement fuel c = .ok s c' →
      ∃ dangling used, Took c c' used s.ids ∧
        Grammar.Statement .statement dangling used s.withoutIds ∧ NoElse dangling c'.rest := by
    intro h
    obtain ⟨e, used, rfl, hused, hform⟩ := expressionStatement_took h
    exact ⟨false, used, hused, .expression hform, .closed⟩
  obtain ⟨here, c₁, hhere, h⟩ := Action.bind_eq_ok.mp h
  cases hhere
  cases hrest : c.rest with
  | nil =>
    simp only [hrest] at h
    exact hexpression h
  | cons t rest =>
    simp only [hrest] at h
    generalize hkind : t.kind = kind at h
    split at h
    · exact skip_bind_took (forStatement_took hstatement) hrest hkind h
    · exact skip_bind_took (ifStatement_took hstatement) hrest hkind h
    · exact skip_bind_took (whileStatement_took hstatement) hrest hkind h
    · exact skip_bind_took returnStatement_took hrest hkind h
    · exact skip_bind_took breakStatement_took hrest hkind h
    · exact skip_bind_took printStatement_took hrest hkind h
    · exact skip_bind_took (blockStatement_took hdeclaration) hrest hkind h
    · exact hexpression h

theorem declarationWith_reads (hdeclaration : ReadsStatement .declaration nested.declaration)
    (hstatement : ReadsStatement .statement nested.statement) :
    ReadsStatement .declaration (declarationWith fuel nested) := by
  intro c s c' h
  obtain ⟨kind?, c₁, hkind, h⟩ := Action.bind_eq_ok.mp h
  cases hkind
  generalize hnext : c.rest.head?.map (·.kind) = next at h
  split at h
  · obtain ⟨t, rest, hrest, hkind⟩ := cons_of_nextKind hnext
    obtain ⟨_, c₁, hskip, h⟩ := Action.bind_eq_ok.mp h
    obtain ⟨used, hused, hform⟩ :=
      classDeclaration_took hdeclaration (skip_took hrest hskip) hkind h
    exact ⟨false, used, hused, hform, .closed⟩
  · obtain ⟨t, rest, hrest, hkind⟩ := cons_of_nextKind hnext
    obtain ⟨_, c₁, hskip, h⟩ := Action.bind_eq_ok.mp h
    obtain ⟨f, c₂, hf, h⟩ := Action.bind_eq_ok.mp h
    cases h
    obtain ⟨m, hm, body, hbody, hfunction, heq⟩ := function_gives hdeclaration .function _ _ _ hf
    refine ⟨false, t :: m.tokens, (skip_took hrest hskip).trans hm, ?_, .closed⟩
    rw [Stmt.withoutIds, ← heq]
    exact .funDecl hkind hbody.derived hfunction
  · obtain ⟨t, rest, hrest, hkind⟩ := cons_of_nextKind hnext
    obtain ⟨_, c₁, hskip, h⟩ := Action.bind_eq_ok.mp h
    obtain ⟨used, hused, hform⟩ := varDeclaration_took (skip_took hrest hskip) hkind h
    exact ⟨false, used, hused, .varDecl hform, .closed⟩
  · obtain ⟨dangling, used, hused, hform, hnoElse⟩ :=
      statementWith_reads hdeclaration hstatement _ _ _ h
    exact ⟨dangling, used, hused, .statement hform, hnoElse⟩

end

theorem statements_read (fuel : Nat) : ReadsStatement .declaration (declaration fuel) ∧
    ReadsStatement .statement (statement fuel) := by
  induction fuel with
  | zero =>
    constructor <;>
    · intro c s c' h
      cases h
  | succ fuel ih =>
    rw [declaration, statement]
    exact ⟨declarationWith_reads ih.1 ih.2, statementWith_reads ih.1 ih.2⟩

theorem declaration_reads (fuel : Nat) : ReadsStatement .declaration (declaration fuel) :=
  (statements_read fuel).1

theorem statement_reads (fuel : Nat) : ReadsStatement .statement (statement fuel) :=
  (statements_read fuel).2

/-- Reading to the end without a refusal. -/
theorem readAll_reads {fuel turns : Nat} {c : Cursor} {r : Reading}
    (h : readAll fuel turns c = some r) (hr : r.refusals = []) :
    ∃ phrases, c.rest = Grammar.tokensOf phrases ∧ AreDeclarations phrases r.statements ∧
      Fresh c.nextId r.nextId (Stmt.allIds r.statements) := by
  induction turns generalizing c r with
  | zero => cases h
  | succ turns ih =>
    unfold readAll at h
    split at h
    · rename_i hempty
      cases h
      exact ⟨[], List.isEmpty_iff.mp hempty, ⟨by simp, rfl⟩, .nil (Nat.le_refl _)⟩
    · split at h
      · rename_i s c' hs
        obtain ⟨rest, hrest, h⟩ := Option.bind_eq_some_iff.mp h
        cases h
        obtain ⟨phrases, hphrases, hall, hfresh⟩ := ih hrest hr
        obtain ⟨d, hd, hform, hstmt⟩ := (declaration_reads fuel).gives _ _ _ hs
        refine ⟨d :: phrases, ?_, ⟨List.forall_mem_cons.mpr ⟨hform, hall.derived⟩, ?_⟩, ?_⟩
        · rw [hd.rest, hphrases]
          rfl
        · rw [List.map_cons, hstmt, hall.stmts, Stmt.allWithoutIds]
        · rw [Stmt.allIds_cons]
          exact hd.fresh.append hfresh
      · obtain ⟨rest, -, h⟩ := Option.bind_eq_some_iff.mp h
        cases h
        cases hr
      · cases h

end Parsing

theorem source_of_parse {source : TokenStream} {nextId next : NodeId} {p : Program}
    (h : Program.parse source nextId = (.ok p, next)) :
    Grammar.Source source.tokens p.withoutIds ∧ Fresh nextId next (Stmt.allIds p) := by
  dsimp only [Program.parse] at h
  split at h
  · rename_i hread
    cases h
    obtain ⟨phrases, htokens, hall, hfresh⟩ := Parsing.readAll_reads hread rfl
    refine ⟨?_, hfresh⟩
    have htokens : source.tokens = _ := htokens
    rw [htokens, Program.withoutIds, ← hall.stmts]
    exact .mk hall.derived
  · cases h
  · cases h

/-- What is parsed as one expression is read with nothing left. -/
theorem Expr.read_of_parse {stream : TokenStream} {nextId next : NodeId} {e : Expr}
    (h : Expr.parse stream nextId = (.ok e, next)) :
    Parsing.expression (stream.tokens.length + 1) ⟨stream.tokens, nextId⟩ = .ok e ⟨[], next⟩ := by
  unfold Expr.parse at h
  split at h
  · rename_i e' c hwhole
    cases h
    obtain ⟨e'', c', he, hend⟩ := Action.bind_eq_ok.mp hwhole
    obtain ⟨here, c'', hhere, hend⟩ := Action.bind_eq_ok.mp hend
    cases hhere
    obtain ⟨rest, n'⟩ := c'
    cases rest with
    | nil =>
      cases hend
      exact he
    | cons t rest => cases hend
  · cases h
  · cases h

theorem expression_of_parse {source : TokenStream} {nextId next : NodeId} {e : Expr}
    (h : Expr.parse source nextId = (.ok e, next)) :
    Grammar.Expression .expression source.tokens e.withoutIds ∧ Fresh nextId next e.ids := by
  obtain ⟨used, htook, hgrammar⟩ := Parsing.expression_reads _ _ _ _ (Expr.read_of_parse h)
  have hused : source.tokens = used := by simpa using htook.rest
  rw [hused]
  exact ⟨hgrammar, htook.fresh⟩

end LoxLang
