import LoxLang.Proofs.Parsing.Grammar
import LoxLang.Proofs.Relabeling
import LoxLang.Proofs.Scanning

/-!
# The grammar on other lines

The grammar looks at the kinds of tokens only. So it goes on holding where the tokens stand on
other lines, and the lines in the tree change with them.

* `Expression.moved`, `Statement.moved`, `Source.moved`: phrases whose tokens are moved;
* `Source.append`: one program behind another.
-/

namespace LoxLang

namespace Grammar

open Parsing (DyadicOp)

variable (line : Nat → Nat)

/-- The change of lines in a tree. -/
abbrev lines : Relabeling := .ofLines line

theorem Separated.moved {items : List (List Token)} {tokens : List Token}
    (h : Separated items tokens) :
    Separated (items.map (List.map (Token.moved line))) (tokens.map (Token.moved line)) := by
  induction h with
  | one item => exact .one _
  | more hcomma _ ih =>
    simp only [List.map_append, List.map_cons]
    exact .more hcomma ih

theorem Listed.moved {items : List (List Token)} {tokens : List Token}
    (h : Listed items tokens) :
    Listed (items.map (List.map (Token.moved line))) (tokens.map (Token.moved line)) := by
  cases h with
  | none => exact .none
  | some h => exact .some (h.moved line)

/-- A phrase whose tokens are moved. -/
def ExprPhrase.moved (a : ExprPhrase) : ExprPhrase :=
  ⟨a.tokens.map (Token.moved line), a.expr.relabel (lines line)⟩

theorem apply_relabel (op : DyadicOp) (l : Nat) (left right : Expr) :
    (op.apply l left right).relabel (lines line)
      = op.apply (line l) (left.relabel (lines line)) (right.relabel (lines line)) := by
  cases op <;> rfl

theorem Expression.moved {form : Form} {tokens : List Token} {e : Expr}
    (h : Expression form tokens e) :
    Expression form (tokens.map (Token.moved line)) (e.relabel (lines line)) := by
  induction h with
  | assign hname hequal _ ih => exact .assign hname hequal ih
  | set _ hdot hname hequal _ ihobject ihvalue =>
    simp only [List.map_append, List.map_cons]
    exact .set ihobject hdot hname hequal ihvalue
  | plain _ ih => exact .plain ih
  | operand _ ih => exact .operand ih
  | operation _ hsign _ ihleft ihright =>
    simp only [List.map_append, List.map_cons]
    rw [apply_relabel]
    exact .operation ihleft hsign ihright
  | prefixed hsign _ ih => exact .prefixed hsign ih
  | unprefixed _ ih => exact .unprefixed ih
  | uncalled _ ih => exact .uncalled ih
  | @call _ _ _ _ _ arguments _ hstart _ hlisted hlength hfinish ihcallee iharguments =>
    have hlisted' := hlisted.moved line
    have htokens : (arguments.map (·.tokens)).map (List.map (Token.moved line))
        = (arguments.map (ExprPhrase.moved line)).map (·.tokens) := by
      rw [List.map_map, List.map_map]
      rfl
    have hexprs : Expr.allRelabel (lines line) (arguments.map (·.expr))
        = (arguments.map (ExprPhrase.moved line)).map (·.expr) := by
      rw [Expr.allRelabel_eq_map, List.map_map, List.map_map]
      rfl
    rw [htokens] at hlisted'
    simp only [List.map_append, List.map_cons, List.map_nil, Expr.relabel]
    rw [hexprs]
    exact .call ihcallee hstart (List.forall_mem_map.mpr iharguments) hlisted'
      (by rwa [List.length_map]) hfinish
  | get _ hdot hname ih =>
    simp only [List.map_append]
    exact .get ih hdot hname
  | literal hvalue => exact .literal hvalue
  | this ht => exact .this ht
  | name ht => exact .name ht
  | grouping hstart _ hfinish ih =>
    simp only [List.map_cons, List.map_append]
    exact .grouping hstart ih hfinish

theorem OptionalExpression.moved {tokens : List Token} {e : Option Expr}
    (h : OptionalExpression tokens e) :
    OptionalExpression (tokens.map (Token.moved line)) (e.map (Expr.relabel (lines line))) := by
  cases h with
  | none => exact .none
  | some h => exact .some (h.moved line)

theorem Terminated.moved {tokens : List Token} {e : Expr} (h : Terminated tokens e) :
    Terminated (tokens.map (Token.moved line)) (e.relabel (lines line)) := by
  obtain ⟨he, hsemicolon⟩ := h
  simp only [List.map_append]
  exact .mk (he.moved line) hsemicolon

theorem VarDeclaration.moved {tokens : List Token} {s : Stmt} (h : VarDeclaration tokens s) :
    VarDeclaration (tokens.map (Token.moved line)) (s.relabel (lines line)) := by
  cases h with
  | bare hword hname hsemicolon => exact .bare hword hname hsemicolon
  | initialized hword hname hequal he => exact .initialized hword hname hequal (he.moved line)

theorem ForStart.moved {tokens : List Token} {initializer : Option Stmt}
    (h : ForStart tokens initializer) :
    ForStart (tokens.map (Token.moved line)) (initializer.map (Stmt.relabel (lines line))) := by
  cases h with
  | none hsemicolon => exact .none hsemicolon
  | declaration h => exact .declaration (h.moved line)
  | expression h => exact .expression (h.moved line)

theorem Function.moved {body tokens : List Token} {statements : List Stmt} {f : FunctionDecl}
    (h : Function body statements tokens f) :
    Function (body.map (Token.moved line)) (Stmt.allRelabel (lines line) statements)
      (tokens.map (Token.moved line)) (f.relabel (lines line)) := by
  obtain ⟨hname, hstart, hparams, hlisted, hlength, hfinish, hopening, hclosing⟩ := h
  rename_i name start finish opening closing params tokens
  have hlisted' := hlisted.moved line
  have htokens : (params.map ([·])).map (List.map (Token.moved line))
      = (params.map (Token.moved line)).map ([·]) := by
    rw [List.map_map, List.map_map]
    rfl
  have hnames : (params.map (·.identifier)).map (Identifier.relabel (lines line))
      = (params.map (Token.moved line)).map (·.identifier) := by
    rw [List.map_map, List.map_map]
    rfl
  rw [htokens] at hlisted'
  simp only [List.map_append, List.map_cons, List.map_nil, FunctionDecl.relabel]
  rw [hnames]
  exact .mk hname hstart (List.forall_mem_map.mpr hparams) hlisted' (by rwa [List.length_map])
    hfinish hopening hclosing

/-- A declaration whose tokens are moved. -/
def Phrase.moved (d : Phrase) : Phrase :=
  ⟨d.tokens.map (Token.moved line), d.stmt.relabel (lines line), d.dangling⟩

/-- A method whose tokens are moved. -/
def Method.moved (m : Method) : Method :=
  ⟨m.tokens.map (Token.moved line), m.function.relabel (lines line), m.body.map (Phrase.moved line)⟩

theorem tokensOf_moved (body : List Phrase) :
    (tokensOf body).map (Token.moved line) = tokensOf (body.map (Phrase.moved line)) := by
  unfold tokensOf
  rw [List.map_flatMap, List.flatMap_map]
  rfl

theorem stmts_moved (body : List Phrase) :
    Stmt.allRelabel (lines line) (body.map (·.stmt))
      = (body.map (Phrase.moved line)).map (·.stmt) := by
  rw [Stmt.allRelabel_eq_map, List.map_map, List.map_map]
  rfl

theorem methods_moved (methods : List Method) :
    (methods.flatMap (·.tokens)).map (Token.moved line)
        = (methods.map (Method.moved line)).flatMap (·.tokens) ∧
      FunctionDecl.allRelabel (lines line) (methods.map (·.function))
        = (methods.map (Method.moved line)).map (·.function) := by
  constructor
  · rw [List.map_flatMap, List.flatMap_map]
    rfl
  · rw [FunctionDecl.allRelabel_eq_map, List.map_map, List.map_map]
    rfl

theorem desugarFor_relabel (initializer : Option Stmt) (condition increment : Option Expr)
    (body : Stmt) :
    (Parsing.desugarFor initializer (condition.getD (.literal (.bool true))) increment
        body).relabel (lines line)
      = Parsing.desugarFor (initializer.map (Stmt.relabel (lines line)))
        ((condition.map (Expr.relabel (lines line))).getD (.literal (.bool true)))
        (increment.map (Expr.relabel (lines line))) (body.relabel (lines line)) := by
  cases initializer <;> cases condition <;> cases increment <;> rfl

theorem Statement.moved {kind : Kind} {dangling : Bool} {tokens : List Token} {s : Stmt}
    (h : Statement kind dangling tokens s) :
    Statement kind dangling (tokens.map (Token.moved line)) (s.relabel (lines line)) := by
  induction h with
  | @classDecl _ _ _ _ methods hword hname hopening _ hfunctions hclosing ih =>
    obtain ⟨htokens, hmethods⟩ := methods_moved line methods
    simp only [List.map_append, List.map_cons, List.map_nil, Stmt.relabel] at htokens ⊢
    rw [htokens, hmethods]
    refine .classDecl hword hname hopening (List.forall_mem_map.mpr fun m hm => ?_)
      (List.forall_mem_map.mpr fun m hm => ?_) hclosing
    · exact List.forall_mem_map.mpr fun d hd => ih m hm d hd
    · have hfunction := (hfunctions m hm).moved line
      rw [tokensOf_moved, stmts_moved] at hfunction
      exact hfunction
  | @funDecl _ _ _ body hword _ hf ih =>
    have hfunction := hf.moved line
    rw [tokensOf_moved, stmts_moved] at hfunction
    exact .funDecl hword (List.forall_mem_map.mpr ih) hfunction
  | varDecl h => exact .varDecl (h.moved line)
  | statement _ ih => exact .statement ih
  | expression h => exact .expression (h.moved line)
  | print hword h => exact .print hword (h.moved line)
  | whileLoop hword hstart hcondition hfinish _ ih =>
    simp only [List.map_append, List.map_cons, Stmt.relabel]
    exact .whileLoop hword hstart (hcondition.moved line) hfinish ih
  | forLoop hword hstart hfirst hsecond hsemicolon hthird hfinish _ ih =>
    rw [desugarFor_relabel]
    simp only [List.map_append, List.map_cons]
    exact .forLoop hword hstart (hfirst.moved line) (hsecond.moved line) hsemicolon
      (hthird.moved line) hfinish ih
  | ifThen hword hstart hcondition hfinish _ ih =>
    simp only [List.map_append, List.map_cons, Stmt.relabel]
    exact .ifThen hword hstart (hcondition.moved line) hfinish ih
  | ifElse hword hstart hcondition hfinish _ hotherwise _ ihthen ihelse =>
    simp only [List.map_append, List.map_cons, Stmt.relabel]
    exact .ifElse hword hstart (hcondition.moved line) hfinish ihthen hotherwise ihelse
  | block hopening _ hclosing ih =>
    simp only [List.map_append, List.map_cons, List.map_nil, Stmt.relabel]
    rw [tokensOf_moved, stmts_moved]
    exact .block hopening (List.forall_mem_map.mpr ih) hclosing
  | @returnValue _ _ _ value hword hvalue hsemicolon =>
    have hvalue' := hvalue.moved line
    simp only [List.map_append, List.map_cons, List.map_nil]
    cases value with
    | none => exact .returnValue hword hvalue' hsemicolon
    | some e => exact .returnValue hword hvalue' hsemicolon
  | breakLoop hword hsemicolon => exact .breakLoop hword hsemicolon

/-- A program whose tokens are moved. -/
theorem Source.moved {tokens : List Token} {p : Program} (h : Source tokens p) :
    Source (tokens.map (Token.moved line)) (Stmt.allRelabel (lines line) p) := by
  obtain ⟨hbody⟩ := h
  rw [tokensOf_moved, stmts_moved]
  exact .mk (List.forall_mem_map.mpr fun d hd => (hbody d hd).moved line)

/-- Two programs in a row are a program. -/
theorem Source.append {tokens tokens' : List Token} {p p' : Program} (h : Source tokens p)
    (h' : Source tokens' p') : Source (tokens ++ tokens') (p ++ p') := by
  obtain ⟨hbody⟩ := h
  obtain ⟨hbody'⟩ := h'
  have hall := Source.mk (List.forall_mem_append.mpr ⟨hbody, hbody'⟩)
  rw [tokensOf, List.flatMap_append, List.map_append] at hall
  exact hall

end Grammar

end LoxLang
