import LoxLang.Proofs.Program
import LoxLang.Proofs.Scoping.Rules

/-!
# The distances of a program

* `Distances.Along`: entries for some nodes, each once and in the order of the nodes;
* `resolveExpr_along`, `resolveStmt_along`: the distances that are found are along the nodes;
* `resolveExpr_within`, `resolveStmt_within`: so only nodes of the program get a distance;
* `Known`: a table that has the distances of some nodes; it can be split as they were resolved.
-/

namespace LoxLang

open Scoping

namespace Distances

theorem of?_append (d d' : Distances) (id : NodeId) :
    of? (d ++ d') id = (d.of? id).or (d'.of? id) := List.lookup_append

/-- No other node has a distance. -/
def Within (d : Distances) (ids : List NodeId) : Prop := ∀ id, id ∉ ids → d.of? id = none

variable {d d' : Distances} {ids ids' : List NodeId}

/-- The entries are for some of the nodes and in their order, the last node with the first entry. -/
def Along (d : Distances) (ids : List NodeId) : Prop := (d.map (·.1)).reverse.Sublist ids

theorem along_nil (ids : List NodeId) : Along [] ids := List.nil_sublist ids

theorem Along.append (h : Along d ids) (h' : Along d' ids') : Along (d' ++ d) (ids ++ ids') := by
  unfold Along
  rw [List.map_append, List.reverse_append]
  exact List.Sublist.append h h'

theorem along_entry (ctx : Context) (id : NodeId) (name : String) :
    Along (ctx.entry id name) [id] := by
  unfold Context.entry
  split
  · exact List.Sublist.refl _
  · exact along_nil _

theorem Along.mem (h : Along d ids) {e : NodeId × Nat} (he : e ∈ d) : e.1 ∈ ids :=
  h.subset (List.mem_reverse.mpr (List.mem_map_of_mem he))

theorem Along.within (h : Along d ids) : Within d ids := by
  intro id hid
  refine List.lookup_eq_none_iff.mpr fun e he => ?_
  have hne : id ≠ e.1 := fun heq => hid (heq ▸ h.mem he)
  simpa using hne

/-- Nodes with identities of their own have an entry each at most. -/
theorem Along.nodup (h : Along d ids) (hids : ids.Nodup) : (d.map (·.1)).Nodup :=
  (List.reverse_perm _).nodup_iff.mp (List.Sublist.nodup h hids)

/-- An entry counts if no other one is for the same node. -/
theorem of?_of_mem (hd : (d.map (·.1)).Nodup) {id : NodeId} {distance : Nat}
    (h : (id, distance) ∈ d) : d.of? id = some distance := by
  induction d with
  | nil => cases h
  | cons entry rest ih =>
    obtain ⟨node, k⟩ := entry
    obtain ⟨hnode, hrest⟩ := List.nodup_cons.mp hd
    rw [of?_cons]
    obtain heq | h := List.mem_cons.mp h
    · cases heq
      rw [if_pos rfl]
    · have hmem : id ∈ rest.map (·.1) := List.mem_map_of_mem h
      have hne : ¬node = id := fun heq => hnode (heq ▸ hmem)
      rw [if_neg hne]
      exact ih hrest h

end Distances

/-! ## Only nodes of the program have a distance, and each has one at most -/

mutual

theorem resolveExpr_along {ctx : Context} (e : Expr) {d : Distances}
    (h : resolveExpr ctx e = .ok d) : d.Along e.ids := by
  match e with
  | .literal _ =>
    cases h
    exact Distances.along_nil _
  | .grouping inner => exact resolveExpr_along inner h
  | .variable id name =>
    obtain ⟨-, rfl⟩ := resolveExpr_variable.mp h
    exact Distances.along_entry ctx id name.name
  | .this id line =>
    obtain ⟨-, rfl⟩ := resolveExpr_this.mp h
    exact Distances.along_entry ctx id "this"
  | .assign id name value =>
    obtain ⟨inside, hvalue, rfl⟩ := resolveExpr_assign.mp h
    rw [Expr.ids_assign]
    exact (resolveExpr_along value hvalue).append (Distances.along_entry ctx id name.name)
  | .unary _ _ operand => exact resolveExpr_along operand h
  | .binary _ _ left right =>
    obtain ⟨first, second, hleft, hright, rfl⟩ := resolveExpr_binary.mp h
    rw [Expr.ids_binary]
    exact (resolveExpr_along left hleft).append (resolveExpr_along right hright)
  | .logical _ left right =>
    obtain ⟨first, second, hleft, hright, rfl⟩ := resolveExpr_logical.mp h
    rw [Expr.ids_logical]
    exact (resolveExpr_along left hleft).append (resolveExpr_along right hright)
  | .call callee _ arguments =>
    obtain ⟨first, second, hcallee, harguments, rfl⟩ := resolveExpr_call.mp h
    rw [Expr.ids_call]
    exact (resolveExpr_along callee hcallee).append (resolveExprs_along arguments harguments)
  | .get object _ => exact resolveExpr_along object h
  | .set object _ value =>
    obtain ⟨first, second, hvalue, hobject, rfl⟩ := resolveExpr_set.mp h
    rw [Expr.ids_set]
    exact (resolveExpr_along value hvalue).append (resolveExpr_along object hobject)

theorem resolveExprs_along {ctx : Context} (es : List Expr) {d : Distances}
    (h : resolveExprs ctx es = .ok d) : d.Along (Expr.allIds es) := by
  match es with
  | [] =>
    cases h
    exact Distances.along_nil _
  | e :: rest =>
    obtain ⟨first, others, he, hrest, rfl⟩ := resolveExprs_cons.mp h
    rw [Expr.allIds_cons]
    exact (resolveExpr_along e he).append (resolveExprs_along rest hrest)

end

mutual

theorem resolveStmt_along {ctx behind : Context} (s : Stmt) {d : Distances}
    (h : resolveStmt ctx s = .ok (behind, d)) : d.Along s.ids := by
  match s with
  | .expression e =>
    obtain ⟨he, rfl⟩ := resolveStmt_expression.mp h
    exact resolveExpr_along e he
  | .print e =>
    obtain ⟨he, rfl⟩ := resolveStmt_print.mp h
    exact resolveExpr_along e he
  | .varDecl _ initializer =>
    obtain ⟨declared, -, he, rfl⟩ := resolveStmt_varDecl.mp h
    exact resolveExpr_along initializer he
  | .block body =>
    obtain ⟨⟨_, hbody⟩, rfl⟩ := resolveStmt_block.mp h
    exact resolveStmts_along body hbody
  | .ifElse condition thenBranch none =>
    obtain ⟨first, second, hcondition, hthen, rfl⟩ := resolveStmt_ifThen.mp h
    rw [Stmt.ids_ifThen]
    exact (resolveExpr_along condition hcondition).append (resolveStmt_along thenBranch hthen)
  | .ifElse condition thenBranch (some elseBranch) =>
    obtain ⟨first, _, second, third, hcondition, hthen, helse, rfl⟩ := resolveStmt_ifElse.mp h
    rw [Stmt.ids_ifElse]
    have hfirst := resolveExpr_along condition hcondition
    exact (hfirst.append (resolveStmt_along thenBranch hthen)).append
      (resolveStmt_along elseBranch helse)
  | .whileLoop condition body =>
    obtain ⟨first, _, second, hcondition, hbody, rfl, rfl⟩ := resolveStmt_whileLoop.mp h
    rw [Stmt.ids_whileLoop]
    exact (resolveExpr_along condition hcondition).append (resolveStmt_along body hbody)
  | .breakLoop _ =>
    obtain ⟨-, rfl, rfl⟩ := resolveStmt_breakLoop.mp h
    exact Distances.along_nil _
  | .funDecl f =>
    obtain ⟨-, hf⟩ := resolveStmt_funDecl.mp h
    exact resolveFunction_along f hf
  | .returnValue _ none =>
    obtain ⟨-, rfl, rfl⟩ := resolveStmt_return.mp h
    exact Distances.along_nil _
  | .returnValue _ (some value) =>
    obtain ⟨-, he, rfl⟩ := resolveStmt_returnValue.mp h
    exact resolveExpr_along value he
  | .classDecl _ methods =>
    obtain ⟨-, hmethods⟩ := resolveStmt_classDecl.mp h
    exact resolveMethods_along methods hmethods

theorem resolveStmts_along {ctx behind : Context} (ss : List Stmt) {d : Distances}
    (h : resolveStmts ctx ss = .ok (behind, d)) : d.Along (Stmt.allIds ss) := by
  match ss with
  | [] =>
    cases h
    exact Distances.along_nil _
  | s :: rest =>
    obtain ⟨_, first, others, hs, hrest, rfl⟩ := resolveStmts_cons.mp h
    rw [Stmt.allIds_cons]
    exact (resolveStmt_along s hs).append (resolveStmts_along rest hrest)

theorem resolveFunction_along {ctx : Context} (f : FunctionDecl) {d : Distances}
    (h : resolveFunction ctx f = .ok d) : d.Along f.ids := by
  match f with
  | .mk _ params body =>
    obtain ⟨inside, _, -, hbody⟩ := resolveFunction_mk.mp h
    exact resolveStmts_along body hbody

theorem resolveMethods_along {ctx : Context} (fs : List FunctionDecl) {d : Distances}
    (h : resolveMethods ctx fs = .ok d) : d.Along (FunctionDecl.allIds fs) := by
  match fs with
  | [] =>
    cases h
    exact Distances.along_nil _
  | f :: rest =>
    obtain ⟨first, others, hf, hrest, rfl⟩ := resolveMethods_cons.mp h
    rw [FunctionDecl.allIds_cons]
    exact (resolveFunction_along f hf).append (resolveMethods_along rest hrest)

end

theorem resolve_along {p : Program} {d : Distances} (h : Program.resolve p = .ok d) :
    d.Along (Stmt.allIds p) := by
  obtain ⟨_, hp⟩ := resolve_eq_ok.mp h
  exact resolveStmts_along p hp

section
variable {ctx behind : Context} {d : Distances}

theorem resolveExpr_within (e : Expr) (h : resolveExpr ctx e = .ok d) : d.Within e.ids :=
  (resolveExpr_along e h).within

theorem resolveExprs_within (es : List Expr) (h : resolveExprs ctx es = .ok d) :
    d.Within (Expr.allIds es) := (resolveExprs_along es h).within

theorem resolveStmt_within (s : Stmt) (h : resolveStmt ctx s = .ok (behind, d)) :
    d.Within s.ids := (resolveStmt_along s h).within

theorem resolveStmts_within (ss : List Stmt) (h : resolveStmts ctx ss = .ok (behind, d)) :
    d.Within (Stmt.allIds ss) := (resolveStmts_along ss h).within

theorem resolveFunction_within (f : FunctionDecl) (h : resolveFunction ctx f = .ok d) :
    d.Within f.ids := (resolveFunction_along f h).within

theorem resolveMethods_within (fs : List FunctionDecl) (h : resolveMethods ctx fs = .ok d) :
    d.Within (FunctionDecl.allIds fs) := (resolveMethods_along fs h).within

theorem resolve_within {p : Program} (h : Program.resolve p = .ok d) :
    d.Within (Stmt.allIds p) := (resolve_along h).within

end

/-! ## Tables -/

/-- Both tables have the distances of these nodes, which are different nodes below `n`. -/
structure Known (T D : NodeId → Option Nat) (n : NodeId) (d : Distances) (ids : List NodeId) :
    Prop where
  nodup : ids.Nodup
  below : ∀ id ∈ ids, id < n
  table : ∀ id ∈ ids, T id = d.of? id
  own : ∀ id ∈ ids, D id = d.of? id

/-- The nodes of two parts that were resolved one after the other. -/
theorem Known.split {T D : NodeId → Option Nat} {n : NodeId} {d d' : Distances}
    {ids ids' : List NodeId} (h : Known T D n (d' ++ d) (ids ++ ids')) (hd : d.Within ids)
    (hd' : d'.Within ids') : Known T D n d ids ∧ Known T D n d' ids' := by
  obtain ⟨hnodup, hbelow, htable, hown⟩ := h
  obtain ⟨hids, hids', hdisjoint⟩ := List.nodup_append.mp hnodup
  have hleft : ∀ id ∈ ids, (d' ++ d).of? id = d.of? id := by
    intro id hid
    have hother : id ∉ ids' := fun h => hdisjoint id hid id h rfl
    rw [Distances.of?_append, hd' id hother, Option.none_or]
  have hright : ∀ id ∈ ids', (d' ++ d).of? id = d'.of? id := by
    intro id hid
    have hother : id ∉ ids := fun h => hdisjoint id h id hid rfl
    rw [Distances.of?_append, hd id hother, Option.or_none]
  constructor
  · constructor
    · exact hids
    · exact fun id hid => hbelow id (List.mem_append_left _ hid)
    · exact fun id hid => (htable id (List.mem_append_left _ hid)).trans (hleft id hid)
    · exact fun id hid => (hown id (List.mem_append_left _ hid)).trans (hleft id hid)
  · constructor
    · exact hids'
    · exact fun id hid => hbelow id (List.mem_append_right _ hid)
    · exact fun id hid => (htable id (List.mem_append_right _ hid)).trans (hright id hid)
    · exact fun id hid => (hown id (List.mem_append_right _ hid)).trans (hright id hid)

end LoxLang
