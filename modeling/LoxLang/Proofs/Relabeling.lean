import Mathlib.Logic.Equiv.Basic
import LoxLang.Proofs.Program

/-!
# Other lines and identities in a tree

* `Relabeling`: a change of the lines and the node identities in a tree;
* `relabel`: the tree with both changed, its shape and its names as before;
* `relabel_relabel`, `ids_relabel`: one change after the other, and the identities after a change;
* `relabel_eq`: trees that differ in identities only are relabelings of each other;
* `exists_renaming`: a change of some identities is part of one that is one to one.
-/

namespace LoxLang

structure Relabeling where
  line : Nat → Nat
  node : NodeId → NodeId

namespace Relabeling

/-- One change after the other. -/
def comp (r' r : Relabeling) : Relabeling :=
  ⟨fun l => r'.line (r.line l), fun i => r'.node (r.node i)⟩

/-- A change of identities. -/
def ofIds (f : NodeId → NodeId) : Relabeling := ⟨fun l => l, f⟩

/-- A change of lines. -/
def ofLines (f : Nat → Nat) : Relabeling := ⟨f, fun i => i⟩

end Relabeling

def Identifier.relabel (r : Relabeling) (name : Identifier) : Identifier :=
  ⟨name.name, r.line name.line⟩

section
variable (r : Relabeling)

mutual

def Expr.relabel : Expr → Expr
  | .literal value => .literal value
  | .grouping inner => .grouping inner.relabel
  | .variable id name => .variable (r.node id) (name.relabel r)
  | .this id line => .this (r.node id) (r.line line)
  | .assign id name value => .assign (r.node id) (name.relabel r) value.relabel
  | .unary op line operand => .unary op (r.line line) operand.relabel
  | .binary op line left right => .binary op (r.line line) left.relabel right.relabel
  | .logical op left right => .logical op left.relabel right.relabel
  | .call callee line arguments =>
    .call callee.relabel (r.line line) (Expr.allRelabel arguments)
  | .get object name => .get object.relabel (name.relabel r)
  | .set object name value => .set object.relabel (name.relabel r) value.relabel

def Expr.allRelabel : List Expr → List Expr
  | [] => []
  | e :: rest => e.relabel :: Expr.allRelabel rest

end

mutual

def Stmt.relabel : Stmt → Stmt
  | .expression expr => .expression (expr.relabel r)
  | .print expr => .print (expr.relabel r)
  | .varDecl name initializer => .varDecl (name.relabel r) (initializer.relabel r)
  | .block body => .block (Stmt.allRelabel body)
  | .ifElse condition thenBranch none => .ifElse (condition.relabel r) thenBranch.relabel none
  | .ifElse condition thenBranch (some elseBranch) =>
    .ifElse (condition.relabel r) thenBranch.relabel (some elseBranch.relabel)
  | .whileLoop condition body => .whileLoop (condition.relabel r) body.relabel
  | .breakLoop line => .breakLoop (r.line line)
  | .funDecl function => .funDecl function.relabel
  | .returnValue line none => .returnValue (r.line line) none
  | .returnValue line (some value) => .returnValue (r.line line) (some (value.relabel r))
  | .classDecl name methods => .classDecl (name.relabel r) (FunctionDecl.allRelabel methods)

def Stmt.allRelabel : List Stmt → List Stmt
  | [] => []
  | s :: rest => s.relabel :: Stmt.allRelabel rest

def FunctionDecl.relabel : FunctionDecl → FunctionDecl
  | .mk name params body =>
    .mk (name.relabel r) (params.map (Identifier.relabel r)) (Stmt.allRelabel body)

def FunctionDecl.allRelabel : List FunctionDecl → List FunctionDecl
  | [] => []
  | f :: rest => f.relabel :: FunctionDecl.allRelabel rest

end

abbrev Program.relabel (p : Program) : Program := Stmt.allRelabel r p

theorem Expr.allRelabel_eq_map (es : List Expr) :
    Expr.allRelabel r es = es.map (Expr.relabel r) := by
  induction es with
  | nil => rfl
  | cons e rest ih => rw [Expr.allRelabel, ih, List.map_cons]

theorem Stmt.allRelabel_eq_map (ss : List Stmt) :
    Stmt.allRelabel r ss = ss.map (Stmt.relabel r) := by
  induction ss with
  | nil => rfl
  | cons s rest ih => rw [Stmt.allRelabel, ih, List.map_cons]

theorem FunctionDecl.allRelabel_eq_map (fs : List FunctionDecl) :
    FunctionDecl.allRelabel r fs = fs.map (FunctionDecl.relabel r) := by
  induction fs with
  | nil => rfl
  | cons f rest ih => rw [FunctionDecl.allRelabel, ih, List.map_cons]

theorem Stmt.allRelabel_append (ss ss' : List Stmt) :
    Stmt.allRelabel r (ss ++ ss') = Stmt.allRelabel r ss ++ Stmt.allRelabel r ss' := by
  simp only [allRelabel_eq_map, List.map_append]

@[simp] theorem Identifier.name_relabel (name : Identifier) : (name.relabel r).name = name.name :=
  rfl

@[simp] theorem FunctionDecl.name_relabel (f : FunctionDecl) :
    (f.relabel r).name = f.name.relabel r := by
  cases f
  rfl

@[simp] theorem FunctionDecl.params_relabel (f : FunctionDecl) :
    (f.relabel r).params = f.params.map (Identifier.relabel r) := by
  cases f
  rfl

@[simp] theorem FunctionDecl.body_relabel (f : FunctionDecl) :
    (f.relabel r).body = Stmt.allRelabel r f.body := by
  cases f
  rfl

@[simp] theorem FunctionDecl.isInitializer_relabel (f : FunctionDecl) :
    (f.relabel r).isInitializer = f.isInitializer := by
  simp [isInitializer]

end

/-! ## One change after the other -/

section
variable (r' r : Relabeling)

theorem Identifier.relabel_relabel (name : Identifier) :
    (name.relabel r).relabel r' = name.relabel (r'.comp r) := rfl

mutual

theorem Expr.relabel_relabel (e : Expr) : (e.relabel r).relabel r' = e.relabel (r'.comp r) := by
  match e with
  | .literal _ | .variable _ _ | .this _ _ => rfl
  | .grouping inner => simp only [relabel, relabel_relabel inner]
  | .assign _ _ value =>
    simp only [relabel, relabel_relabel value, Identifier.relabel_relabel]
    rfl
  | .unary _ _ operand =>
    simp only [relabel, relabel_relabel operand]
    rfl
  | .binary _ _ left right =>
    simp only [relabel, relabel_relabel left, relabel_relabel right]
    rfl
  | .logical _ left right => simp only [relabel, relabel_relabel left, relabel_relabel right]
  | .call callee _ arguments =>
    simp only [relabel, relabel_relabel callee, allRelabel_allRelabel arguments]
    rfl
  | .get object _ => simp only [relabel, relabel_relabel object, Identifier.relabel_relabel]
  | .set object _ value =>
    simp only [relabel, relabel_relabel object, relabel_relabel value, Identifier.relabel_relabel]

theorem Expr.allRelabel_allRelabel (es : List Expr) :
    Expr.allRelabel r' (Expr.allRelabel r es) = Expr.allRelabel (r'.comp r) es := by
  match es with
  | [] => rfl
  | e :: rest => simp only [allRelabel, relabel_relabel e, allRelabel_allRelabel rest]

end

mutual

theorem Stmt.relabel_relabel (s : Stmt) : (s.relabel r).relabel r' = s.relabel (r'.comp r) := by
  match s with
  | .expression e | .print e => simp only [Stmt.relabel, Expr.relabel_relabel]
  | .varDecl _ e => simp only [Stmt.relabel, Expr.relabel_relabel, Identifier.relabel_relabel]
  | .block body => simp only [Stmt.relabel, Stmt.allRelabel_allRelabel body]
  | .ifElse _ thenBranch none =>
    simp only [Stmt.relabel, Expr.relabel_relabel, Stmt.relabel_relabel thenBranch]
  | .ifElse _ thenBranch (some elseBranch) =>
    simp only [Stmt.relabel, Expr.relabel_relabel, Stmt.relabel_relabel thenBranch,
      Stmt.relabel_relabel elseBranch]
  | .whileLoop _ body => simp only [Stmt.relabel, Expr.relabel_relabel, Stmt.relabel_relabel body]
  | .breakLoop _ => rfl
  | .funDecl f => simp only [Stmt.relabel, FunctionDecl.relabel_relabel f]
  | .returnValue _ none => rfl
  | .returnValue _ (some e) =>
    simp only [Stmt.relabel, Expr.relabel_relabel]
    rfl
  | .classDecl _ methods =>
    simp only [Stmt.relabel, FunctionDecl.allRelabel_allRelabel methods, Identifier.relabel_relabel]

theorem Stmt.allRelabel_allRelabel (ss : List Stmt) :
    Stmt.allRelabel r' (Stmt.allRelabel r ss) = Stmt.allRelabel (r'.comp r) ss := by
  match ss with
  | [] => rfl
  | s :: rest =>
    simp only [Stmt.allRelabel, Stmt.relabel_relabel s, Stmt.allRelabel_allRelabel rest]

theorem FunctionDecl.relabel_relabel (f : FunctionDecl) :
    (f.relabel r).relabel r' = f.relabel (r'.comp r) := by
  match f with
  | .mk _ params body =>
    simp only [FunctionDecl.relabel, Stmt.allRelabel_allRelabel body, Identifier.relabel_relabel,
      List.map_map]
    rfl

theorem FunctionDecl.allRelabel_allRelabel (fs : List FunctionDecl) :
    FunctionDecl.allRelabel r' (FunctionDecl.allRelabel r fs)
      = FunctionDecl.allRelabel (r'.comp r) fs := by
  match fs with
  | [] => rfl
  | f :: rest =>
    simp only [FunctionDecl.allRelabel, FunctionDecl.relabel_relabel f,
      FunctionDecl.allRelabel_allRelabel rest]

end

end

/-! ## Identities -/

section
variable (r : Relabeling)

mutual

theorem Expr.ids_relabel (e : Expr) : (e.relabel r).ids = e.ids.map r.node := by
  match e with
  | .literal _ | .variable _ _ | .this _ _ => rfl
  | .grouping inner | .unary _ _ inner | .get inner _ => exact ids_relabel inner
  | .assign _ _ value => simp [relabel, ids_relabel value]
  | .binary _ _ left right | .logical _ left right | .set right _ left =>
    simp [relabel, ids_relabel left, ids_relabel right]
  | .call callee _ arguments => simp [relabel, ids_relabel callee, allIds_allRelabel arguments]

theorem Expr.allIds_allRelabel (es : List Expr) :
    Expr.allIds (Expr.allRelabel r es) = (Expr.allIds es).map r.node := by
  match es with
  | [] => rfl
  | e :: rest => simp [allRelabel, ids_relabel e, allIds_allRelabel rest]

end

mutual

theorem Stmt.ids_relabel (s : Stmt) : (s.relabel r).ids = s.ids.map r.node := by
  match s with
  | .expression e | .print e | .varDecl _ e => exact Expr.ids_relabel r e
  | .block body => exact Stmt.allIds_allRelabel body
  | .ifElse _ thenBranch none => simp [Stmt.relabel, Expr.ids_relabel, Stmt.ids_relabel thenBranch]
  | .ifElse _ thenBranch (some elseBranch) =>
    simp [Stmt.relabel, Expr.ids_relabel, Stmt.ids_relabel thenBranch, Stmt.ids_relabel elseBranch]
  | .whileLoop _ body => simp [Stmt.relabel, Expr.ids_relabel, Stmt.ids_relabel body]
  | .breakLoop _ | .returnValue _ none => rfl
  | .funDecl f => exact FunctionDecl.ids_relabel f
  | .returnValue _ (some e) => exact Expr.ids_relabel r e
  | .classDecl _ methods => exact FunctionDecl.allIds_allRelabel methods

theorem Stmt.allIds_allRelabel (ss : List Stmt) :
    Stmt.allIds (Stmt.allRelabel r ss) = (Stmt.allIds ss).map r.node := by
  match ss with
  | [] => rfl
  | s :: rest => simp [Stmt.allRelabel, Stmt.ids_relabel s, Stmt.allIds_allRelabel rest]

theorem FunctionDecl.ids_relabel (f : FunctionDecl) : (f.relabel r).ids = f.ids.map r.node := by
  match f with
  | .mk _ _ body => exact Stmt.allIds_allRelabel body

theorem FunctionDecl.allIds_allRelabel (fs : List FunctionDecl) :
    FunctionDecl.allIds (FunctionDecl.allRelabel r fs) = (FunctionDecl.allIds fs).map r.node := by
  match fs with
  | [] => rfl
  | f :: rest =>
    simp [FunctionDecl.allRelabel, FunctionDecl.ids_relabel f, FunctionDecl.allIds_allRelabel rest]

end

end

/-! ## Trees that differ in identities only -/

/-- Every identity is set to zero. -/
def Relabeling.zero : Relabeling := .ofIds fun _ => 0

mutual

theorem Expr.withoutIds_eq (e : Expr) : e.withoutIds = e.relabel .zero := by
  match e with
  | .literal _ | .variable _ _ | .this _ _ => rfl
  | .grouping inner => simp only [withoutIds, relabel, withoutIds_eq inner]
  | .assign _ _ value =>
    simp only [withoutIds, relabel, withoutIds_eq value]
    rfl
  | .unary _ _ operand =>
    simp only [withoutIds, relabel, withoutIds_eq operand]
    rfl
  | .binary _ _ left right =>
    simp only [withoutIds, relabel, withoutIds_eq left, withoutIds_eq right]
    rfl
  | .logical _ left right =>
    simp only [withoutIds, relabel, withoutIds_eq left, withoutIds_eq right]
  | .call callee _ arguments =>
    simp only [withoutIds, relabel, withoutIds_eq callee, allWithoutIds_eq arguments]
    rfl
  | .get object _ =>
    simp only [withoutIds, relabel, withoutIds_eq object]
    rfl
  | .set object _ value =>
    simp only [withoutIds, relabel, withoutIds_eq object, withoutIds_eq value]
    rfl

theorem Expr.allWithoutIds_eq (es : List Expr) :
    Expr.allWithoutIds es = Expr.allRelabel .zero es := by
  match es with
  | [] => rfl
  | e :: rest => simp only [allWithoutIds, allRelabel, withoutIds_eq e, allWithoutIds_eq rest]

end

mutual

theorem Stmt.withoutIds_eq (s : Stmt) : s.withoutIds = s.relabel .zero := by
  match s with
  | .expression e | .print e => simp only [Stmt.withoutIds, Stmt.relabel, Expr.withoutIds_eq]
  | .varDecl _ e =>
    simp only [Stmt.withoutIds, Stmt.relabel, Expr.withoutIds_eq]
    rfl
  | .block body => simp only [Stmt.withoutIds, Stmt.relabel, Stmt.allWithoutIds_eq body]
  | .ifElse _ thenBranch none =>
    simp only [Stmt.withoutIds, Stmt.relabel, Expr.withoutIds_eq, Stmt.withoutIds_eq thenBranch]
  | .ifElse _ thenBranch (some elseBranch) =>
    simp only [Stmt.withoutIds, Stmt.relabel, Expr.withoutIds_eq, Stmt.withoutIds_eq thenBranch,
      Stmt.withoutIds_eq elseBranch]
  | .whileLoop _ body =>
    simp only [Stmt.withoutIds, Stmt.relabel, Expr.withoutIds_eq, Stmt.withoutIds_eq body]
  | .breakLoop _ | .returnValue _ none => rfl
  | .funDecl f => simp only [Stmt.withoutIds, Stmt.relabel, FunctionDecl.withoutIds_eq f]
  | .returnValue _ (some e) =>
    simp only [Stmt.withoutIds, Stmt.relabel, Expr.withoutIds_eq]
    rfl
  | .classDecl _ methods =>
    simp only [Stmt.withoutIds, Stmt.relabel, FunctionDecl.allWithoutIds_eq methods]
    rfl

theorem Stmt.allWithoutIds_eq (ss : List Stmt) :
    Stmt.allWithoutIds ss = Stmt.allRelabel .zero ss := by
  match ss with
  | [] => rfl
  | s :: rest =>
    simp only [Stmt.allWithoutIds, Stmt.allRelabel, Stmt.withoutIds_eq s,
      Stmt.allWithoutIds_eq rest]

theorem FunctionDecl.withoutIds_eq (f : FunctionDecl) : f.withoutIds = f.relabel .zero := by
  match f with
  | .mk name params body =>
    have hparams : params.map (Identifier.relabel .zero) = params := List.map_id params
    simp only [FunctionDecl.withoutIds, FunctionDecl.relabel, Stmt.allWithoutIds_eq body, hparams]
    rfl

theorem FunctionDecl.allWithoutIds_eq (fs : List FunctionDecl) :
    FunctionDecl.allWithoutIds fs = FunctionDecl.allRelabel .zero fs := by
  match fs with
  | [] => rfl
  | f :: rest =>
    simp only [FunctionDecl.allWithoutIds, FunctionDecl.allRelabel, FunctionDecl.withoutIds_eq f,
      FunctionDecl.allWithoutIds_eq rest]

end

theorem Program.withoutIds_eq (p : Program) : p.withoutIds = p.relabel .zero :=
  Stmt.allWithoutIds_eq p

/-- Equal parts in front, since trees that differ in identities only have as many. -/
theorem map_append_inj {f : NodeId → NodeId} {a b a' b' : List NodeId}
    (hlength : a.length = a'.length) (h : (a ++ b).map f = a' ++ b') :
    a.map f = a' ∧ b.map f = b' := by
  rw [List.map_append] at h
  exact List.append_inj h (by rw [List.length_map, hlength])

theorem Expr.ids_length {e e' : Expr} (h : e.withoutIds = e'.withoutIds) :
    e.ids.length = e'.ids.length := by
  rw [withoutIds_eq, withoutIds_eq] at h
  simpa only [ids_relabel, List.length_map] using congrArg (fun t => t.ids.length) h

theorem Stmt.ids_length {s s' : Stmt} (h : s.withoutIds = s'.withoutIds) :
    s.ids.length = s'.ids.length := by
  rw [withoutIds_eq, withoutIds_eq] at h
  simpa only [ids_relabel, List.length_map] using congrArg (fun t => t.ids.length) h

theorem FunctionDecl.ids_length {f f' : FunctionDecl} (h : f.withoutIds = f'.withoutIds) :
    f.ids.length = f'.ids.length := by
  rw [withoutIds_eq, withoutIds_eq] at h
  simpa only [ids_relabel, List.length_map] using congrArg (fun t => t.ids.length) h

theorem Program.ids_length {p p' : Program} (h : p.withoutIds = p'.withoutIds) :
    (Stmt.allIds p).length = (Stmt.allIds p').length := by
  rw [withoutIds_eq, withoutIds_eq] at h
  simpa only [Stmt.allIds_allRelabel, List.length_map]
    using congrArg (fun ss => (Stmt.allIds ss).length) h

section
variable {f : NodeId → NodeId}

mutual

/-- An expression becomes another one of its shape with the identities of that. -/
theorem Expr.relabel_eq {e e' : Expr} (h : e.withoutIds = e'.withoutIds)
    (hids : e.ids.map f = e'.ids) : e.relabel (.ofIds f) = e' := by
  match e with
  | .literal _ =>
    cases e' with
    | literal _ => exact h
    | _ => cases h
  | .grouping inner =>
    cases e' with
    | grouping inner' => exact congrArg Expr.grouping (relabel_eq (Expr.grouping.inj h) hids)
    | _ => cases h
  | .variable id name =>
    cases e' with
    | «variable» id' name' =>
      obtain ⟨-, rfl⟩ := Expr.variable.inj h
      exact congrArg (Expr.variable · name) (List.cons.inj hids).1
    | _ => cases h
  | .this id line =>
    cases e' with
    | this id' line' =>
      obtain ⟨-, rfl⟩ := Expr.this.inj h
      exact congrArg (Expr.this · line) (List.cons.inj hids).1
    | _ => cases h
  | .assign id name value =>
    cases e' with
    | assign id' name' value' =>
      obtain ⟨-, rfl, hvalue⟩ := Expr.assign.inj h
      rw [ids_assign, ids_assign] at hids
      obtain ⟨hids, hid⟩ := map_append_inj (ids_length hvalue) hids
      rw [relabel, relabel_eq hvalue hids]
      exact congrArg (Expr.assign · name value') (List.cons.inj hid).1
    | _ => cases h
  | .unary op line operand =>
    cases e' with
    | unary op' line' operand' =>
      obtain ⟨rfl, rfl, hoperand⟩ := Expr.unary.inj h
      exact congrArg (Expr.unary op line) (relabel_eq hoperand hids)
    | _ => cases h
  | .binary op line left right =>
    cases e' with
    | binary op' line' left' right' =>
      obtain ⟨rfl, rfl, hleft, hright⟩ := Expr.binary.inj h
      rw [ids_binary, ids_binary] at hids
      obtain ⟨hids, hids'⟩ := map_append_inj (ids_length hleft) hids
      rw [relabel, relabel_eq hleft hids, relabel_eq hright hids']
      rfl
    | _ => cases h
  | .logical op left right =>
    cases e' with
    | logical op' left' right' =>
      obtain ⟨rfl, hleft, hright⟩ := Expr.logical.inj h
      rw [ids_logical, ids_logical] at hids
      obtain ⟨hids, hids'⟩ := map_append_inj (ids_length hleft) hids
      rw [relabel, relabel_eq hleft hids, relabel_eq hright hids']
    | _ => cases h
  | .call callee line arguments =>
    cases e' with
    | call callee' line' arguments' =>
      obtain ⟨hcallee, rfl, harguments⟩ := Expr.call.inj h
      rw [ids_call, ids_call] at hids
      obtain ⟨hids, hids'⟩ := map_append_inj (ids_length hcallee) hids
      rw [relabel, relabel_eq hcallee hids, allRelabel_eq harguments hids']
      rfl
    | _ => cases h
  | .get object name =>
    cases e' with
    | get object' name' =>
      obtain ⟨hobject, rfl⟩ := Expr.get.inj h
      exact congrArg (Expr.get · name) (relabel_eq hobject hids)
    | _ => cases h
  | .set object name value =>
    cases e' with
    | set object' name' value' =>
      obtain ⟨hobject, rfl, hvalue⟩ := Expr.set.inj h
      rw [ids_set, ids_set] at hids
      obtain ⟨hids, hids'⟩ := map_append_inj (ids_length hvalue) hids
      rw [relabel, relabel_eq hobject hids', relabel_eq hvalue hids]
      rfl
    | _ => cases h

theorem Expr.allRelabel_eq {es es' : List Expr} (h : Expr.allWithoutIds es = Expr.allWithoutIds es')
    (hids : (Expr.allIds es).map f = Expr.allIds es') : Expr.allRelabel (.ofIds f) es = es' := by
  match es with
  | [] =>
    cases es' with
    | nil => rfl
    | cons => cases h
  | e :: rest =>
    cases es' with
    | nil => cases h
    | cons e' rest' =>
      obtain ⟨he, hrest⟩ := List.cons.inj h
      rw [allIds_cons, allIds_cons] at hids
      obtain ⟨hids, hids'⟩ := map_append_inj (ids_length he) hids
      rw [allRelabel, relabel_eq he hids, allRelabel_eq hrest hids']

end

mutual

/-- A statement becomes another one of its shape with the identities of that. -/
theorem Stmt.relabel_eq {s s' : Stmt} (h : s.withoutIds = s'.withoutIds)
    (hids : s.ids.map f = s'.ids) : s.relabel (.ofIds f) = s' := by
  match s with
  | .expression e =>
    cases s' with
    | expression e' => exact congrArg Stmt.expression (Expr.relabel_eq (Stmt.expression.inj h) hids)
    | ifElse _ _ other => cases other <;> cases h
    | returnValue _ other => cases other <;> cases h
    | _ => cases h
  | .print e =>
    cases s' with
    | print e' => exact congrArg Stmt.print (Expr.relabel_eq (Stmt.print.inj h) hids)
    | ifElse _ _ other => cases other <;> cases h
    | returnValue _ other => cases other <;> cases h
    | _ => cases h
  | .varDecl name e =>
    cases s' with
    | varDecl name' e' =>
      obtain ⟨rfl, he⟩ := Stmt.varDecl.inj h
      exact congrArg (Stmt.varDecl name) (Expr.relabel_eq he hids)
    | ifElse _ _ other => cases other <;> cases h
    | returnValue _ other => cases other <;> cases h
    | _ => cases h
  | .block body =>
    cases s' with
    | block body' => exact congrArg Stmt.block (Stmt.allRelabel_eq (Stmt.block.inj h) hids)
    | ifElse _ _ other => cases other <;> cases h
    | returnValue _ other => cases other <;> cases h
    | _ => cases h
  | .ifElse condition thenBranch elseBranch =>
    cases s' with
    | ifElse condition' thenBranch' elseBranch' =>
      match elseBranch, elseBranch' with
      | none, none =>
        obtain ⟨hcondition, hthen, -⟩ := Stmt.ifElse.inj h
        rw [Stmt.ids_ifThen, Stmt.ids_ifThen] at hids
        obtain ⟨hids, hids'⟩ := map_append_inj (Expr.ids_length hcondition) hids
        rw [Stmt.relabel, Expr.relabel_eq hcondition hids, Stmt.relabel_eq hthen hids']
      | some elseBranch, some elseBranch' =>
        obtain ⟨hcondition, hthen, helse⟩ := Stmt.ifElse.inj h
        rw [Stmt.ids_ifElse, Stmt.ids_ifElse, List.append_assoc, List.append_assoc] at hids
        obtain ⟨hids, hids'⟩ := map_append_inj (Expr.ids_length hcondition) hids
        obtain ⟨hids', hids''⟩ := map_append_inj (Stmt.ids_length hthen) hids'
        rw [Stmt.relabel, Expr.relabel_eq hcondition hids, Stmt.relabel_eq hthen hids',
          Stmt.relabel_eq (Option.some.inj helse) hids'']
      | none, some _ | some _, none => exact nomatch (Stmt.ifElse.inj h).2.2
    | returnValue _ other => cases elseBranch <;> cases other <;> cases h
    | _ => cases elseBranch <;> cases h
  | .whileLoop condition body =>
    cases s' with
    | whileLoop condition' body' =>
      obtain ⟨hcondition, hbody⟩ := Stmt.whileLoop.inj h
      rw [Stmt.ids_whileLoop, Stmt.ids_whileLoop] at hids
      obtain ⟨hids, hids'⟩ := map_append_inj (Expr.ids_length hcondition) hids
      rw [Stmt.relabel, Expr.relabel_eq hcondition hids, Stmt.relabel_eq hbody hids']
    | ifElse _ _ other => cases other <;> cases h
    | returnValue _ other => cases other <;> cases h
    | _ => cases h
  | .breakLoop line =>
    cases s' with
    | breakLoop line' => exact h
    | ifElse _ _ other => cases other <;> cases h
    | returnValue _ other => cases other <;> cases h
    | _ => cases h
  | .funDecl g =>
    cases s' with
    | funDecl g' => exact congrArg Stmt.funDecl (FunctionDecl.relabel_eq (Stmt.funDecl.inj h) hids)
    | ifElse _ _ other => cases other <;> cases h
    | returnValue _ other => cases other <;> cases h
    | _ => cases h
  | .returnValue line value =>
    cases s' with
    | returnValue line' value' =>
      match value, value' with
      | none, none =>
        obtain ⟨rfl, -⟩ := Stmt.returnValue.inj h
        rfl
      | some e, some e' =>
        obtain ⟨rfl, he⟩ := Stmt.returnValue.inj h
        exact congrArg (fun e => Stmt.returnValue line (some e))
          (Expr.relabel_eq (Option.some.inj he) hids)
      | none, some _ | some _, none => exact nomatch (Stmt.returnValue.inj h).2
    | ifElse _ _ other => cases value <;> cases other <;> cases h
    | _ => cases value <;> cases h
  | .classDecl name methods =>
    cases s' with
    | classDecl name' methods' =>
      obtain ⟨rfl, hmethods⟩ := Stmt.classDecl.inj h
      exact congrArg (Stmt.classDecl name) (FunctionDecl.allRelabel_eq hmethods hids)
    | ifElse _ _ other => cases other <;> cases h
    | returnValue _ other => cases other <;> cases h
    | _ => cases h
termination_by structural s

theorem Stmt.allRelabel_eq {ss ss' : List Stmt} (h : Stmt.allWithoutIds ss = Stmt.allWithoutIds ss')
    (hids : (Stmt.allIds ss).map f = Stmt.allIds ss') : Stmt.allRelabel (.ofIds f) ss = ss' := by
  match ss with
  | [] =>
    cases ss' with
    | nil => rfl
    | cons => cases h
  | s :: rest =>
    cases ss' with
    | nil => cases h
    | cons s' rest' =>
      obtain ⟨hs, hrest⟩ := List.cons.inj h
      rw [Stmt.allIds_cons, Stmt.allIds_cons] at hids
      obtain ⟨hids, hids'⟩ := map_append_inj (Stmt.ids_length hs) hids
      rw [Stmt.allRelabel, Stmt.relabel_eq hs hids, Stmt.allRelabel_eq hrest hids']
termination_by structural ss

theorem FunctionDecl.relabel_eq {g g' : FunctionDecl} (h : g.withoutIds = g'.withoutIds)
    (hids : g.ids.map f = g'.ids) : g.relabel (.ofIds f) = g' := by
  match g, g' with
  | .mk name params body, .mk name' params' body' =>
    obtain ⟨rfl, rfl, hbody⟩ := FunctionDecl.mk.inj h
    have hparams : params.map (Identifier.relabel (.ofIds f)) = params := List.map_id params
    rw [FunctionDecl.relabel, hparams, Stmt.allRelabel_eq hbody hids]
    rfl
termination_by structural g

theorem FunctionDecl.allRelabel_eq {fs fs' : List FunctionDecl}
    (h : FunctionDecl.allWithoutIds fs = FunctionDecl.allWithoutIds fs')
    (hids : (FunctionDecl.allIds fs).map f = FunctionDecl.allIds fs') :
    FunctionDecl.allRelabel (.ofIds f) fs = fs' := by
  match fs with
  | [] =>
    cases fs' with
    | nil => rfl
    | cons => cases h
  | g :: rest =>
    cases fs' with
    | nil => cases h
    | cons g' rest' =>
      obtain ⟨hg, hrest⟩ := List.cons.inj h
      rw [FunctionDecl.allIds_cons, FunctionDecl.allIds_cons] at hids
      obtain ⟨hids, hids'⟩ := map_append_inj (FunctionDecl.ids_length hg) hids
      rw [FunctionDecl.allRelabel, FunctionDecl.relabel_eq hg hids,
        FunctionDecl.allRelabel_eq hrest hids']
termination_by structural fs

end

end

theorem Stmt.allWithoutIds_ofIds (f : NodeId → NodeId) (ss : List Stmt) :
    Stmt.allWithoutIds (Stmt.allRelabel (.ofIds f) ss) = Stmt.allWithoutIds ss := by
  rw [allWithoutIds_eq, allWithoutIds_eq, allRelabel_allRelabel]
  rfl

/-- Only what happens to the identities in a tree matters. -/
theorem Stmt.allRelabel_congr {r r' : Relabeling} {ss : List Stmt} (hline : r.line = r'.line)
    (hnode : ∀ id ∈ Stmt.allIds ss, r.node id = r'.node id) :
    Stmt.allRelabel r ss = Stmt.allRelabel r' ss := by
  have hids : Stmt.allRelabel (.ofIds r.node) ss = Stmt.allRelabel (.ofIds r'.node) ss := by
    refine allRelabel_eq (allWithoutIds_ofIds _ _).symm ?_
    rw [allIds_allRelabel]
    exact List.map_congr_left hnode
  have hr : r = (Relabeling.ofLines r.line).comp (.ofIds r.node) := rfl
  have hr' : r' = (Relabeling.ofLines r.line).comp (.ofIds r'.node) := by rw [hline]; rfl
  rw [hr, hr', ← allRelabel_allRelabel, hids, allRelabel_allRelabel]

theorem Expr.withoutIds_ofIds (f : NodeId → NodeId) (e : Expr) :
    (e.relabel (.ofIds f)).withoutIds = e.withoutIds := by
  rw [withoutIds_eq, withoutIds_eq, relabel_relabel]
  rfl

theorem Expr.relabel_congr {f g : NodeId → NodeId} {e : Expr} (h : ∀ id ∈ e.ids, f id = g id) :
    e.relabel (.ofIds f) = e.relabel (.ofIds g) := by
  refine relabel_eq (withoutIds_ofIds g e).symm ?_
  rw [ids_relabel]
  exact List.map_congr_left h

theorem Stmt.allRelabel_self {f : NodeId → NodeId} {ss : List Stmt}
    (h : ∀ id ∈ Stmt.allIds ss, f id = id) : Stmt.allRelabel (.ofIds f) ss = ss :=
  allRelabel_eq rfl ((List.map_congr_left h).trans (List.map_id _))

/-- Different identities from `n` on can be exchanged for others, one to one and without a change
below `n`. -/
theorem exists_renaming {n : NodeId} {ids ids' : List NodeId} (hlength : ids.length = ids'.length)
    (hnodup : ids.Nodup) (hnodup' : ids'.Nodup) (hids : ∀ i ∈ ids, n ≤ i)
    (hids' : ∀ i ∈ ids', n ≤ i) :
    ∃ f : NodeId → NodeId, Function.Injective f ∧ (∀ i, i < n → f i = i) ∧ ids.map f = ids' := by
  induction ids generalizing ids' with
  | nil =>
    cases ids' with
    | nil => exact ⟨fun i => i, fun _ _ h => h, fun _ _ => rfl, rfl⟩
    | cons => cases hlength
  | cons a rest ih =>
    cases ids' with
    | nil => cases hlength
    | cons a' rest' =>
      obtain ⟨ha, hrest⟩ := List.nodup_cons.mp hnodup
      obtain ⟨ha', hrest'⟩ := List.nodup_cons.mp hnodup'
      obtain ⟨hna, hnrest⟩ := List.forall_mem_cons.mp hids
      obtain ⟨hna', hnrest'⟩ := List.forall_mem_cons.mp hids'
      obtain ⟨g, hg, hbelow, hmap⟩ := ih (Nat.succ.inj hlength) hrest hrest' hnrest hnrest'
      have hga : n ≤ g a := by
        refine Nat.le_of_not_lt fun hlt => ?_
        rw [hg (hbelow (g a) hlt)] at hlt
        exact absurd hna (Nat.not_le_of_lt hlt)
      refine ⟨fun i => Equiv.swap (g a) a' (g i), fun i j h => hg ((Equiv.swap _ _).injective h),
        fun i hi => ?_, ?_⟩
      · dsimp only
        rw [hbelow i hi]
        exact Equiv.swap_apply_of_ne_of_ne (Nat.ne_of_lt (Nat.lt_of_lt_of_le hi hga))
          (Nat.ne_of_lt (Nat.lt_of_lt_of_le hi hna'))
      · have hothers : ∀ i ∈ rest, Equiv.swap (g a) a' (g i) = g i := fun i hi => by
          refine Equiv.swap_apply_of_ne_of_ne (fun h => ha (hg h ▸ hi)) fun h => ha' ?_
          rw [← hmap, ← h]
          exact List.mem_map_of_mem hi
        rw [List.map_cons, Equiv.swap_apply_left, List.map_congr_left hothers, hmap]

end LoxLang
