import LoxLang.Proofs.Forms
import LoxLang.Proofs.Numerals
import LoxLang.Proofs.Parsing.Shape
import LoxLang.Proofs.Relabeling

/-!
# Programs in parentheses

The text of a tree in parentheses is that of a form, whose words are told apart and whose lists say
which kind of node they are. So the text of a program that is parsed says what the program is.

* `Expr.form`, `Stmt.form`: trees as forms, with `Expr.toList_parenthesized` and
  `Stmt.toList_parenthesized` for their texts;
* `Node.Legible`: a node that can be read, and whose literal is no string and not infinite;
* `Expr.Reading`: what a word is read as, which is one expression by `Expr.Reading.unique`;
* `Expr.form_legible`, `Stmt.form_legible`: legible trees have legible forms;
* `Expr.of_form_call` and its like: the node for each kind of list;
* `Expr.form_injective`, `Stmt.form_injective`: one tree for a form, by induction on the tree;
* `parenthesized_unambiguous`: programs with the same texts are the same.
-/

namespace LoxLang

/-! ## Trees as forms -/

mutual

def Expr.form : Expr → Form
  | .literal value => .word value.parenthesized
  | .grouping inner => .list [.word "group", inner.form]
  | .variable _ name => .word name.name
  | .this _ _ => .word "this"
  | .assign _ name value => .list [.word "=", .word name.name, value.form]
  | .unary op _ operand => .list [.word op.symbol, operand.form]
  | .binary op _ left right => .list [.word op.symbol, left.form, right.form]
  | .logical op left right => .list [.word op.symbol, left.form, right.form]
  | .call callee _ arguments => .list (.word "call" :: callee.form :: Expr.forms arguments)
  | .get object name => .list [.word ".", object.form, .word name.name]
  | .set object name value =>
    .list [.word "=", .list [.word ".", object.form, .word name.name], value.form]

def Expr.forms : List Expr → List Form
  | [] => []
  | e :: rest => e.form :: Expr.forms rest

end

mutual

def Stmt.form : Stmt → Form
  | .expression e => .list [.word ";", e.form]
  | .print e => .list [.word "print", e.form]
  | .varDecl name e => .list [.word "var", .word name.name, e.form]
  | .block body => .list (.word "block" :: Stmt.forms body)
  | .ifElse c s none => .list [.word "if", c.form, s.form]
  | .ifElse c s (some r) => .list [.word "if", c.form, s.form, r.form]
  | .whileLoop c s => .list [.word "while", c.form, s.form]
  | .breakLoop _ => .list [.word "break"]
  | .funDecl f => .list (.word "fun" :: f.tailForms)
  | .returnValue _ none => .list [.word "return"]
  | .returnValue _ (some e) => .list [.word "return", e.form]
  | .classDecl name methods =>
    .list (.word "class" :: .word name.name :: FunctionDecl.methodForms methods)

def Stmt.forms : List Stmt → List Form
  | [] => []
  | s :: rest => s.form :: Stmt.forms rest

/-- Name, parameters and body of a function. -/
def FunctionDecl.tailForms : FunctionDecl → List Form
  | .mk name params body =>
    .word name.name :: .list (params.map fun p => .word p.name) :: Stmt.forms body

def FunctionDecl.methodForms : List FunctionDecl → List Form
  | [] => []
  | f :: rest => .list (.word "method" :: f.tailForms) :: FunctionDecl.methodForms rest

end

/-! ## Forms as texts -/

mutual

/-- An expression in parentheses is the text of its form. -/
theorem Expr.toList_parenthesized (e : Expr) : e.parenthesized.toList = e.form.write := by
  match e with
  | .literal _ | .variable _ _ | .this _ _ => rfl
  | .grouping inner | .assign _ _ inner | .unary _ _ inner | .get inner _ =>
    simp [parenthesized, form, Form.write, Form.writeAll, Form.writeBehind,
      toList_parenthesized inner]
  | .binary _ _ left right | .logical _ left right | .set left _ right =>
    simp [parenthesized, form, Form.write, Form.writeAll, Form.writeBehind,
      toList_parenthesized left, toList_parenthesized right]
  | .call callee _ arguments =>
    simp [parenthesized, form, Form.write, Form.writeAll, Form.writeBehind,
      toList_parenthesized callee, toList_parenthesizedParts arguments]

theorem Expr.toList_parenthesizedParts (es : List Expr) :
    (Expr.parenthesizedParts es).toList = Form.writeBehind (Expr.forms es) := by
  match es with
  | [] => rfl
  | e :: rest =>
    simp [parenthesizedParts, forms, Form.writeBehind, toList_parenthesized e,
      toList_parenthesizedParts rest]

end

/-- Names with a space between each and the next. -/
theorem toList_intercalate_names (names : List Identifier) :
    (" ".intercalate (names.map (·.name))).toList
      = Form.writeAll (names.map fun p => .word p.name) := by
  induction names with
  | nil => rfl
  | cons first rest ih =>
    cases rest with
    | nil => simp [Form.writeAll, Form.writeBehind, Form.write]
    | cons next others =>
      rw [List.map_cons, List.map_cons, String.intercalate_cons_cons]
      simp only [List.map_cons, String.toList_append] at ih ⊢
      rw [ih]
      simp [Form.writeAll, Form.writeBehind, Form.write]

mutual

/-- A statement in parentheses is the text of its form. -/
theorem Stmt.toList_parenthesized (s : Stmt) : s.parenthesized.toList = s.form.write := by
  match s with
  | .expression e | .print e | .varDecl _ e | .returnValue _ (some e) =>
    simp [Stmt.parenthesized, Stmt.form, Form.write, Form.writeAll, Form.writeBehind,
      Expr.toList_parenthesized e]
  | .breakLoop _ | .returnValue _ none =>
    simp [Stmt.parenthesized, Stmt.form, Form.write, Form.writeAll, Form.writeBehind]
  | .block body =>
    simp [Stmt.parenthesized, Stmt.form, Form.write, Form.writeAll,
      Stmt.toList_parenthesizedParts body]
  | .ifElse c s none | .whileLoop c s =>
    simp [Stmt.parenthesized, Stmt.form, Form.write, Form.writeAll, Form.writeBehind,
      Expr.toList_parenthesized c, Stmt.toList_parenthesized s]
  | .ifElse c s (some r) =>
    simp [Stmt.parenthesized, Stmt.form, Form.write, Form.writeAll, Form.writeBehind,
      Expr.toList_parenthesized c, Stmt.toList_parenthesized s, Stmt.toList_parenthesized r]
  | .funDecl f =>
    simp [Stmt.parenthesized, Stmt.form, Form.write, Form.writeAll,
      FunctionDecl.toList_parenthesizedTail f]
  | .classDecl name methods =>
    simp [Stmt.parenthesized, Stmt.form, Form.write, Form.writeAll, Form.writeBehind,
      FunctionDecl.toList_parenthesizedMethods methods]

theorem Stmt.toList_parenthesizedParts (ss : List Stmt) :
    (Stmt.parenthesizedParts ss).toList = Form.writeBehind (Stmt.forms ss) := by
  match ss with
  | [] => rfl
  | s :: rest =>
    simp [Stmt.parenthesizedParts, Stmt.forms, Form.writeBehind, Stmt.toList_parenthesized s,
      Stmt.toList_parenthesizedParts rest]

/-- What follows the kind of a function, with the space in front of it. -/
theorem FunctionDecl.toList_parenthesizedTail (f : FunctionDecl) :
    ' ' :: f.parenthesizedTail.toList = Form.writeBehind f.tailForms := by
  match f with
  | .mk name params body =>
    simp [FunctionDecl.parenthesizedTail, FunctionDecl.tailForms, Form.write, Form.writeBehind,
      toList_intercalate_names params, Stmt.toList_parenthesizedParts body]

theorem FunctionDecl.toList_parenthesizedMethods (fs : List FunctionDecl) :
    (FunctionDecl.parenthesizedMethods fs).toList
      = Form.writeBehind (FunctionDecl.methodForms fs) := by
  match fs with
  | [] => rfl
  | f :: rest =>
    simp [FunctionDecl.parenthesizedMethods, FunctionDecl.methodForms, Form.write, Form.writeAll,
      Form.writeBehind, ← FunctionDecl.toList_parenthesizedTail f,
      FunctionDecl.toList_parenthesizedMethods rest]

end

/-! ## Words -/

/-- A literal that is written as the scanner could read it: no string, and no infinite number. -/
def Literal.Legible : Literal → Prop
  | .number value => IsFinite value
  | .string _ => False
  | .bool _ | .nil => True

/-- A node that can be read, with its literal legible if it is one. -/
structure Node.Legible (node : Node) : Prop where
  shaped : node.Shaped
  literal (value : Literal) : node = .expr (.literal value) → value.Legible

/-- What a word is read as by the scanner, and the expressions it is written for. -/
inductive Expr.Reading (text : String) : Expr → TokenKind → Prop
  | number {value read : Float} {numeral : List Char} (h : Numeral numeral value)
    (hfinite : IsFinite value) (htext : Literal.numberFormat.write value = text)
    (hread : Lexeme (.number read) text.toList) :
    Reading text (.literal (.number value)) (.number read)
  | trueWord (htext : text = "true") : Reading text (.literal (.bool true)) (.keyword .trueWord)
  | falseWord (htext : text = "false") : Reading text (.literal (.bool false)) (.keyword .falseWord)
  | nilWord (htext : text = "nil") : Reading text (.literal .nil) (.keyword .nilWord)
  | thisWord {id : NodeId} {line : Nat} (htext : text = "this") :
    Reading text (.this id line) (.keyword .thisWord)
  | name {id : NodeId} {name : Identifier} (h : IsName text) (htext : name.name = text) :
    Reading text (.variable id name) .identifier

/-- All identities and all lines are zero. -/
def Relabeling.blank : Relabeling := ⟨fun _ => 0, fun _ => 0⟩

@[simp] theorem Relabeling.line_blank (line : Nat) : Relabeling.blank.line line = 0 := rfl

@[simp] theorem Relabeling.node_blank (id : NodeId) : Relabeling.blank.node id = 0 := rfl

section
variable {text : String} {e e' : Expr} {kind kind' : TokenKind}

theorem Expr.Reading.lexeme (h : e.Reading text kind) : Lexeme kind text.toList := by
  cases h with
  | number _ _ _ hread => exact hread
  | trueWord h =>
    rw [h]
    exact .keyword .trueWord
  | falseWord h =>
    rw [h]
    exact .keyword .falseWord
  | nilWord h =>
    rw [h]
    exact .keyword .nilWord
  | thisWord h =>
    rw [h]
    exact .keyword .thisWord
  | name h _ => exact h

/-- A word is written for one expression. -/
theorem Expr.Reading.unique (h : e.Reading text kind) (h' : e'.Reading text kind') :
    e.relabel .blank = e'.relabel .blank := by
  obtain rfl := h.lexeme.unique h'.lexeme
  cases h with
  | number h hfinite htext _ =>
    cases h' with
    | number h' hfinite' htext' _ =>
      rw [write_injective h h' hfinite hfinite' (htext.trans htext'.symm)]
  | trueWord | falseWord | nilWord | thisWord =>
    cases h'
    rfl
  | name _ htext =>
    cases h' with
    | name _ htext' =>
      simp only [Expr.relabel, Identifier.relabel, htext, htext', Relabeling.blank]

theorem Expr.reading_of_form (h : e.form = .word text) (hlegible : (Node.expr e).Legible) :
    ∃ kind, e.Reading text kind := by
  cases e with
  | literal value =>
    have hvalue := hlegible.literal value rfl
    cases Form.word.inj h
    cases value with
    | number value =>
      obtain ⟨numeral, hnumeral⟩ := hlegible.shaped
      cases hnumeral with
      | number hnumeral =>
        obtain ⟨_, _, _, _, hpointed, _⟩ := write_pointed hnumeral hvalue
        obtain ⟨read, hread⟩ := hpointed.lexeme
        exact ⟨_, .number hnumeral hvalue rfl hread⟩
    | string => exact hvalue.elim
    | bool value =>
      cases value
      · exact ⟨_, .falseWord rfl⟩
      · exact ⟨_, .trueWord rfl⟩
    | nil => exact ⟨_, .nilWord rfl⟩
  | «variable» id name =>
    cases Form.word.inj h
    exact ⟨_, .name hlegible.shaped rfl⟩
  | this id line =>
    cases Form.word.inj h
    exact ⟨_, .thisWord rfl⟩
  | _ => cases h

end

/-! ## Legible forms -/

section
open Scanning Form

theorem isWordPart_of_isNamePart {c : Char} (h : isNamePart c = true) : isWordPart c = true := by
  by_contra hpart
  simp only [isWordPart, Bool.and_eq_true, bne_iff_ne, not_and_or, not_not] at hpart
  obtain (rfl | rfl) | rfl := hpart <;> exact absurd h (by decide)

theorem IsWord.isWordText {text : String} (h : IsWord text.toList) : IsWordText text where
  nonempty hnil := by
    rw [hnil] at h
    cases h
  parts := List.all_eq_true.mpr fun c hc => isWordPart_of_isNamePart (h.parts c hc)

theorem Numeral.isWordText {text : String} {value : Float} (h : Numeral text.toList value) :
    IsWordText text := by
  have hdigit (c : Char) (hc : c.isDigit = true) : isWordPart c = true :=
    isWordPart_of_isNamePart (by rw [isNamePart, isDigit_eq, hc, Bool.or_true])
  generalize htext : text.toList = chars at h
  constructor <;> rw [htext]
  · exact (Lexeme.number h).ne_nil
  · refine List.all_eq_true.mpr fun c hc => ?_
    cases h with
    | whole h => exact hdigit c (h.2 c hc)
    | decimal h hplaces =>
      obtain hc | hc := List.mem_append.mp hc
      · exact hdigit c (h.2 c hc)
      · obtain rfl | hc := List.mem_cons.mp hc
        · decide
        · exact hdigit c (hplaces.2 c hc)

theorem IsName.isWordText {x : String} (h : IsName x) : IsWordText x := by
  cases h with
  | identifier h _ => exact h.isWordText

theorem Expr.Reading.isWordText {text : String} {e : Expr} {kind : TokenKind}
    (h : e.Reading text kind) : IsWordText text := by
  cases h with
  | number _ _ _ hread =>
    cases hread with
    | number h => exact h.isWordText
  | trueWord h | falseWord h | nilWord h | thisWord h =>
    rw [h]
    exact ⟨by decide, by decide⟩
  | name h _ => exact h.isWordText

/-- A list whose first word is told apart. -/
theorem legible_list {head : String} {items : List Form} (hhead : IsWordText head)
    (h : ∀ f ∈ items, f.Legible) : (Form.list (.word head :: items)).Legible :=
  .list (List.forall_mem_cons.mpr ⟨.word hhead, h⟩)

theorem UnaryOp.isWordText (op : UnaryOp) : IsWordText op.symbol := by
  cases op <;> exact ⟨by decide, by decide⟩

theorem BinaryOp.isWordText (op : BinaryOp) : IsWordText op.symbol := by
  cases op <;> exact ⟨by decide, by decide⟩

theorem LogicalOp.isWordText (op : LogicalOp) : IsWordText op.symbol := by
  cases op <;> exact ⟨by decide, by decide⟩

mutual

theorem Expr.form_legible (e : Expr) (h : AllParts Node.Legible e.parts) : e.form.Legible := by
  match e with
  | .literal _ | .variable _ _ | .this _ _ =>
    obtain ⟨kind, hread⟩ := reading_of_form rfl (h _ (mem_parts_self _))
    exact .word hread.isWordText
  | .grouping inner =>
    simp only [parts, allParts_cons] at h
    refine legible_list ⟨by decide, by decide⟩ ?_
    simp [form_legible inner h.2]
  | .assign _ name value =>
    simp only [parts, allParts_cons] at h
    refine legible_list ⟨by decide, by decide⟩ ?_
    simp [form_legible value h.2, Legible.word (IsName.isWordText h.1.shaped)]
  | .unary op _ operand =>
    simp only [parts, allParts_cons] at h
    refine legible_list op.isWordText ?_
    simp [form_legible operand h.2]
  | .binary op _ left right =>
    simp only [parts, allParts_cons, allParts_append] at h
    refine legible_list op.isWordText ?_
    simp [form_legible left h.2.1, form_legible right h.2.2]
  | .logical op left right =>
    simp only [parts, allParts_cons, allParts_append] at h
    refine legible_list op.isWordText ?_
    simp [form_legible left h.2.1, form_legible right h.2.2]
  | .call callee _ arguments =>
    simp only [parts, allParts_cons, allParts_append] at h
    exact legible_list ⟨by decide, by decide⟩ (List.forall_mem_cons.mpr
      ⟨form_legible callee h.2.1, forms_legible arguments h.2.2⟩)
  | .get object name =>
    simp only [parts, allParts_cons] at h
    refine legible_list ⟨by decide, by decide⟩ ?_
    simp [form_legible object h.2, Legible.word (IsName.isWordText h.1.shaped)]
  | .set object name value =>
    simp only [parts, allParts_cons, allParts_append] at h
    have hplace : (Form.list [.word ".", object.form, .word name.name]).Legible := by
      refine legible_list ⟨by decide, by decide⟩ ?_
      simp [form_legible object h.2.2, Legible.word (IsName.isWordText h.1.shaped)]
    refine legible_list ⟨by decide, by decide⟩ ?_
    simp [hplace, form_legible value h.2.1]

theorem Expr.forms_legible (es : List Expr) (h : AllParts Node.Legible (Expr.allParts es)) :
    ∀ f ∈ Expr.forms es, f.Legible := by
  match es with
  | [] => exact fun _ h => nomatch h
  | e :: rest =>
    obtain ⟨he, hrest⟩ := allParts_append.mp h
    exact List.forall_mem_cons.mpr ⟨form_legible e he, forms_legible rest hrest⟩

end

mutual

theorem Stmt.form_legible {spot : Spot} (s : Stmt) (h : AllNodes Node.Legible (s.spotted spot)) :
    s.form.Legible := by
  match s with
  | .expression e | .print e | .returnValue _ (some e) =>
    simp only [Stmt.spotted, allNodes_cons, allNodes_expression] at h
    refine legible_list ⟨by decide, by decide⟩ ?_
    simp [e.form_legible h.2]
  | .varDecl name e =>
    simp only [Stmt.spotted, allNodes_cons, allNodes_expression] at h
    refine legible_list ⟨by decide, by decide⟩ ?_
    simp [e.form_legible h.2, Legible.word (IsName.isWordText h.1.shaped)]
  | .block body =>
    exact legible_list ⟨by decide, by decide⟩ (Stmt.forms_legible body (allNodes_cons.mp h).2)
  | .ifElse c s none | .whileLoop c s =>
    simp only [Stmt.spotted, allNodes_cons, allNodes_append, allNodes_expression] at h
    refine legible_list ⟨by decide, by decide⟩ ?_
    simp [c.form_legible h.2.1, Stmt.form_legible s h.2.2]
  | .ifElse c s (some r) =>
    simp only [Stmt.spotted, allNodes_cons, allNodes_append, allNodes_expression] at h
    refine legible_list ⟨by decide, by decide⟩ ?_
    simp [c.form_legible h.2.1.1, Stmt.form_legible s h.2.1.2, Stmt.form_legible r h.2.2]
  | .breakLoop _ | .returnValue _ none =>
    exact legible_list ⟨by decide, by decide⟩ fun _ h => nomatch h
  | .funDecl f =>
    simp only [Stmt.spotted, allNodes_cons] at h
    exact legible_list ⟨by decide, by decide⟩ (f.tailForms_legible h.1.shaped h.2)
  | .classDecl name methods =>
    simp only [Stmt.spotted, allNodes_cons] at h
    obtain ⟨hname, hheads⟩ := h.1.shaped
    exact legible_list ⟨by decide, by decide⟩ (List.forall_mem_cons.mpr
      ⟨.word hname.isWordText, FunctionDecl.methodForms_legible methods hheads h.2⟩)

theorem Stmt.forms_legible {spot : Spot} (ss : List Stmt)
    (h : AllNodes Node.Legible (Stmt.allSpotted spot ss)) : ∀ f ∈ Stmt.forms ss, f.Legible := by
  match ss with
  | [] => exact fun _ h => nomatch h
  | s :: rest =>
    obtain ⟨hs, hrest⟩ := allNodes_append.mp h
    exact List.forall_mem_cons.mpr ⟨Stmt.form_legible s hs, Stmt.forms_legible rest hrest⟩

theorem FunctionDecl.tailForms_legible {spot : Spot} {routine : Scoping.Routine}
    (f : FunctionDecl) (hhead : f.HasShapedHead)
    (h : AllNodes Node.Legible (f.spotted spot routine)) :
    ∀ form ∈ f.tailForms, form.Legible := by
  match f with
  | .mk name params body =>
    have hparams : (Form.list (params.map fun p => .word p.name)).Legible :=
      .list (List.forall_mem_map.mpr fun p hp => .word (hhead.params p hp).isWordText)
    exact List.forall_mem_cons.mpr ⟨.word hhead.name.isWordText,
      List.forall_mem_cons.mpr ⟨hparams, Stmt.forms_legible body h⟩⟩

theorem FunctionDecl.methodForms_legible {spot : Spot} (fs : List FunctionDecl)
    (hheads : ∀ f ∈ fs, f.HasShapedHead)
    (h : AllNodes Node.Legible (FunctionDecl.allSpotted spot fs)) :
    ∀ form ∈ FunctionDecl.methodForms fs, form.Legible := by
  match fs with
  | [] => exact fun _ h => nomatch h
  | f :: rest =>
    obtain ⟨hf, hrest⟩ := allNodes_append.mp h
    obtain ⟨hhead, hheads⟩ := List.forall_mem_cons.mp hheads
    exact List.forall_mem_cons.mpr
      ⟨legible_list ⟨by decide, by decide⟩ (f.tailForms_legible hhead hf),
        FunctionDecl.methodForms_legible rest hheads hrest⟩

end

end

/-! ## The first word of a list -/

theorem UnaryOp.symbol_ne (op : UnaryOp) :
    "group" ≠ op.symbol ∧ "=" ≠ op.symbol ∧ "call" ≠ op.symbol ∧ "." ≠ op.symbol := by
  cases op <;> decide

theorem BinaryOp.symbol_ne (op : BinaryOp) :
    "group" ≠ op.symbol ∧ "=" ≠ op.symbol ∧ "call" ≠ op.symbol ∧ "." ≠ op.symbol := by
  cases op <;> decide

theorem LogicalOp.symbol_ne (op : LogicalOp) :
    "group" ≠ op.symbol ∧ "=" ≠ op.symbol ∧ "call" ≠ op.symbol ∧ "." ≠ op.symbol := by
  cases op <;> decide

theorem UnaryOp.symbol_inj {op op' : UnaryOp} : op.symbol = op'.symbol ↔ op = op' := by
  cases op <;> cases op' <;> decide

theorem BinaryOp.symbol_inj {op op' : BinaryOp} : op.symbol = op'.symbol ↔ op = op' := by
  cases op <;> cases op' <;> decide

theorem LogicalOp.symbol_inj {op op' : LogicalOp} : op.symbol = op'.symbol ↔ op = op' := by
  cases op <;> cases op' <;> decide

theorem BinaryOp.symbol_ne_logical (op : BinaryOp) (op' : LogicalOp) : op.symbol ≠ op'.symbol := by
  cases op <;> cases op' <;> decide

section
variable {e : Expr} {f g : Form}

theorem Expr.of_form_grouping (h : .list [.word "group", f] = e.form) :
    ∃ inner, e = .grouping inner ∧ f = inner.form := by
  cases e <;> simp_all [form, UnaryOp.symbol_ne]

theorem Expr.of_form_assign {x : String} (h : .list [.word "=", .word x, f] = e.form) :
    ∃ id name value, e = .assign id name value ∧ x = name.name ∧ f = value.form := by
  cases e <;> simp_all [form, BinaryOp.symbol_ne, LogicalOp.symbol_ne]

theorem Expr.of_form_unary {op : UnaryOp} (h : e.form = .list [.word op.symbol, f]) :
    ∃ line operand, e = .unary op line operand ∧ f = operand.form := by
  cases e <;> simp_all [form, UnaryOp.symbol_inj, UnaryOp.symbol_ne]

theorem Expr.of_form_binary {op : BinaryOp} (h : e.form = .list [.word op.symbol, f, g]) :
    ∃ line left right, e = .binary op line left right ∧ f = left.form ∧ g = right.form := by
  cases e <;> simp_all [form, BinaryOp.symbol_inj, BinaryOp.symbol_ne,
    (BinaryOp.symbol_ne_logical _ _).symm]

theorem Expr.of_form_logical {op : LogicalOp} (h : e.form = .list [.word op.symbol, f, g]) :
    ∃ left right, e = .logical op left right ∧ f = left.form ∧ g = right.form := by
  cases e <;> simp_all [form, LogicalOp.symbol_inj, LogicalOp.symbol_ne,
    BinaryOp.symbol_ne_logical]

theorem Expr.of_form_call {items : List Form} (h : .list (.word "call" :: f :: items) = e.form) :
    ∃ callee line arguments, e = .call callee line arguments ∧ f = callee.form ∧
      items = Expr.forms arguments := by
  cases e <;> simp_all [form, UnaryOp.symbol_ne, BinaryOp.symbol_ne, LogicalOp.symbol_ne]

theorem Expr.of_form_get {x : String} (h : .list [.word ".", f, .word x] = e.form) :
    ∃ object name, e = .get object name ∧ f = object.form ∧ x = name.name := by
  cases e <;> simp_all [form, BinaryOp.symbol_ne, LogicalOp.symbol_ne]

theorem Expr.of_form_set {x : String}
    (h : .list [.word "=", .list [.word ".", f, .word x], g] = e.form) :
    ∃ object name value, e = .set object name value ∧ f = object.form ∧ x = name.name ∧
      g = value.form := by
  cases e <;> simp_all [form, BinaryOp.symbol_ne, LogicalOp.symbol_ne]

end

theorem Stmt.form_ifElse (c : Expr) (s : Stmt) (r : Option Stmt) : (Stmt.ifElse c s r).form
    = .list (.word "if" :: c.form :: s.form :: (r.map Stmt.form).toList) := by
  cases r <;> rfl

theorem Stmt.form_returnValue (line : Nat) (value : Option Expr) :
    (Stmt.returnValue line value).form
      = .list (.word "return" :: (value.map Expr.form).toList) := by
  cases value <;> rfl

section
variable {s : Stmt} {f g : Form} {items : List Form} {x : String}

theorem Stmt.of_form_expression (h : .list [.word ";", f] = s.form) :
    ∃ e, s = .expression e ∧ f = e.form := by
  cases s <;> simp_all [form, form_ifElse, form_returnValue]

theorem Stmt.of_form_print (h : .list [.word "print", f] = s.form) :
    ∃ e, s = .print e ∧ f = e.form := by
  cases s <;> simp_all [form, form_ifElse, form_returnValue]

theorem Stmt.of_form_varDecl (h : .list [.word "var", .word x, f] = s.form) :
    ∃ name e, s = .varDecl name e ∧ x = name.name ∧ f = e.form := by
  cases s <;> simp_all [form, form_ifElse, form_returnValue]

theorem Stmt.of_form_block (h : .list (.word "block" :: items) = s.form) :
    ∃ body, s = .block body ∧ items = Stmt.forms body := by
  cases s <;> simp_all [form, form_ifElse, form_returnValue]

theorem Stmt.of_form_ifElse (h : .list (.word "if" :: f :: g :: items) = s.form) :
    ∃ c t r, s = .ifElse c t r ∧ f = c.form ∧ g = t.form ∧ items = (r.map Stmt.form).toList := by
  cases s <;> simp_all [form, form_ifElse, form_returnValue]

theorem Stmt.of_form_whileLoop (h : .list [.word "while", f, g] = s.form) :
    ∃ c body, s = .whileLoop c body ∧ f = c.form ∧ g = body.form := by
  cases s <;> simp_all [form, form_ifElse, form_returnValue]

theorem Stmt.of_form_breakLoop (h : .list [.word "break"] = s.form) :
    ∃ line, s = .breakLoop line := by
  cases s <;> simp_all [form, form_ifElse, form_returnValue]

theorem Stmt.of_form_funDecl (h : .list (.word "fun" :: items) = s.form) :
    ∃ f, s = .funDecl f ∧ items = f.tailForms := by
  cases s <;> simp_all [form, form_ifElse, form_returnValue]

theorem Stmt.of_form_returnValue (h : .list (.word "return" :: items) = s.form) :
    ∃ line value, s = .returnValue line value ∧ items = (value.map Expr.form).toList := by
  cases s <;> simp_all [form, form_ifElse, form_returnValue]

theorem Stmt.of_form_classDecl (h : .list (.word "class" :: .word x :: items) = s.form) :
    ∃ name methods, s = .classDecl name methods ∧ x = name.name ∧
      items = FunctionDecl.methodForms methods := by
  cases s <;> simp_all [form, form_ifElse, form_returnValue]

end

/-! ## One tree for a form -/

theorem Identifier.relabel_blank {name name' : Identifier} (h : name.name = name'.name) :
    name.relabel .blank = name'.relabel .blank := by
  simp only [Identifier.relabel, h, Relabeling.blank]

mutual

/-- Legible expressions of one form are the same, apart from identities and lines. -/
theorem Expr.form_injective (e : Expr) {e' : Expr} (h : AllParts Node.Legible e.parts)
    (h' : AllParts Node.Legible e'.parts) (heq : e.form = e'.form) :
    e.relabel .blank = e'.relabel .blank := by
  match e with
  | .literal _ | .variable _ _ | .this _ _ =>
    obtain ⟨_, hread⟩ := reading_of_form rfl (h _ (mem_parts_self _))
    obtain ⟨_, hread'⟩ := reading_of_form heq.symm (h' _ (mem_parts_self _))
    exact hread.unique hread'
  | .grouping inner =>
    obtain ⟨inner', rfl, hinner⟩ := of_form_grouping heq
    have hinner := form_injective inner (allParts_cons.mp h).2 (allParts_cons.mp h').2 hinner
    simp only [relabel, hinner]
  | .assign _ name value =>
    obtain ⟨_, name', value', rfl, hname, hvalue⟩ := of_form_assign heq
    have hvalue := form_injective value (allParts_cons.mp h).2 (allParts_cons.mp h').2 hvalue
    simp only [relabel, Identifier.relabel_blank hname, hvalue,
      Relabeling.node_blank]
  | .unary op _ operand =>
    obtain ⟨_, operand', rfl, hoperand⟩ := of_form_unary heq.symm
    have hoperand := form_injective operand (allParts_cons.mp h).2 (allParts_cons.mp h').2
      hoperand
    simp only [relabel, hoperand, Relabeling.line_blank]
  | .binary op _ left right =>
    obtain ⟨_, left', right', rfl, hleft, hright⟩ := of_form_binary heq.symm
    simp only [parts, allParts_cons, allParts_append] at h h'
    have hleft := form_injective left h.2.1 h'.2.1 hleft
    have hright := form_injective right h.2.2 h'.2.2 hright
    simp only [relabel, hleft, hright, Relabeling.line_blank]
  | .logical op left right =>
    obtain ⟨left', right', rfl, hleft, hright⟩ := of_form_logical heq.symm
    simp only [parts, allParts_cons, allParts_append] at h h'
    have hleft := form_injective left h.2.1 h'.2.1 hleft
    have hright := form_injective right h.2.2 h'.2.2 hright
    simp only [relabel, hleft, hright]
  | .call callee _ arguments =>
    obtain ⟨callee', _, arguments', rfl, hcallee, harguments⟩ := of_form_call heq
    simp only [parts, allParts_cons, allParts_append] at h h'
    have hcallee := form_injective callee h.2.1 h'.2.1 hcallee
    have harguments := forms_injective arguments h.2.2 h'.2.2 harguments
    simp only [relabel, hcallee, harguments, Relabeling.line_blank]
  | .get object name =>
    obtain ⟨object', name', rfl, hobject, hname⟩ := of_form_get heq
    have hobject := form_injective object (allParts_cons.mp h).2 (allParts_cons.mp h').2 hobject
    simp only [relabel, hobject, Identifier.relabel_blank hname]
  | .set object name value =>
    obtain ⟨object', name', value', rfl, hobject, hname, hvalue⟩ := of_form_set heq
    simp only [parts, allParts_cons, allParts_append] at h h'
    have hvalue := form_injective value h.2.1 h'.2.1 hvalue
    have hobject := form_injective object h.2.2 h'.2.2 hobject
    simp only [relabel, hobject, Identifier.relabel_blank hname, hvalue]

theorem Expr.forms_injective (es : List Expr) {es' : List Expr}
    (h : AllParts Node.Legible (Expr.allParts es)) (h' : AllParts Node.Legible (Expr.allParts es'))
    (heq : Expr.forms es = Expr.forms es') :
    Expr.allRelabel .blank es = Expr.allRelabel .blank es' := by
  match es, es' with
  | [], [] => rfl
  | [], _ :: _ => cases heq
  | _ :: _, [] => cases heq
  | e :: rest, e' :: rest' =>
    obtain ⟨he, hrest⟩ := List.cons.inj heq
    obtain ⟨hlegible, hlegibles⟩ := allParts_append.mp h
    obtain ⟨hlegible', hlegibles'⟩ := allParts_append.mp h'
    have he := form_injective e hlegible hlegible' he
    have hrest := forms_injective rest hlegibles hlegibles' hrest
    simp only [allRelabel, he, hrest]

end

theorem params_relabel_blank {params params' : List Identifier}
    (h : params.map (fun p => Form.word p.name) = params'.map (fun p => Form.word p.name)) :
    params.map (Identifier.relabel .blank) = params'.map (Identifier.relabel .blank) := by
  induction params generalizing params' with
  | nil =>
    rw [List.map_eq_nil_iff.mp h.symm]
  | cons p rest ih =>
    obtain ⟨p', rest', rfl, hp, hrest⟩ := List.map_eq_cons_iff.mp h.symm
    rw [List.map_cons, List.map_cons, Identifier.relabel_blank (Form.word.inj hp).symm,
      ih hrest.symm]

mutual

/-- Legible statements of one form are the same, apart from identities and lines. -/
theorem Stmt.form_injective {spot spot' : Spot} (s : Stmt) {s' : Stmt}
    (h : AllNodes Node.Legible (s.spotted spot)) (h' : AllNodes Node.Legible (s'.spotted spot'))
    (heq : s.form = s'.form) : s.relabel .blank = s'.relabel .blank := by
  match s with
  | .expression e =>
    obtain ⟨e', rfl, he⟩ := Stmt.of_form_expression heq
    simp only [Stmt.spotted, allNodes_cons, allNodes_expression] at h h'
    simp only [Stmt.relabel, e.form_injective h.2 h'.2 he]
  | .print e =>
    obtain ⟨e', rfl, he⟩ := Stmt.of_form_print heq
    simp only [Stmt.spotted, allNodes_cons, allNodes_expression] at h h'
    simp only [Stmt.relabel, e.form_injective h.2 h'.2 he]
  | .varDecl name e =>
    obtain ⟨name', e', rfl, hname, he⟩ := Stmt.of_form_varDecl heq
    simp only [Stmt.spotted, allNodes_cons, allNodes_expression] at h h'
    simp only [Stmt.relabel, Identifier.relabel_blank hname, e.form_injective h.2 h'.2 he]
  | .block body =>
    obtain ⟨body', rfl, hbody⟩ := Stmt.of_form_block heq
    have hbody := Stmt.forms_injective body (allNodes_cons.mp h).2 (allNodes_cons.mp h').2 hbody
    simp only [Stmt.relabel, hbody]
  | .ifElse c t none =>
    obtain ⟨c', t', r', rfl, hc, ht, hr⟩ := Stmt.of_form_ifElse heq
    cases r' with
    | some _ => cases hr
    | none =>
      simp only [Stmt.spotted, allNodes_cons, allNodes_append, allNodes_expression] at h h'
      have ht := Stmt.form_injective t h.2.2 h'.2.2 ht
      simp only [Stmt.relabel, c.form_injective h.2.1 h'.2.1 hc, ht]
  | .ifElse c t (some r) =>
    obtain ⟨c', t', r', rfl, hc, ht, hr⟩ := Stmt.of_form_ifElse heq
    cases r' with
    | none => cases hr
    | some r' =>
      simp only [Stmt.spotted, allNodes_cons, allNodes_append, allNodes_expression] at h h'
      have ht := Stmt.form_injective t h.2.1.2 h'.2.1.2 ht
      have hr := Stmt.form_injective r h.2.2 h'.2.2 (List.cons.inj hr).1
      simp only [Stmt.relabel, c.form_injective h.2.1.1 h'.2.1.1 hc, ht, hr]
  | .whileLoop c body =>
    obtain ⟨c', body', rfl, hc, hbody⟩ := Stmt.of_form_whileLoop heq
    simp only [Stmt.spotted, allNodes_cons, allNodes_append, allNodes_expression] at h h'
    have hbody := Stmt.form_injective body h.2.2 h'.2.2 hbody
    simp only [Stmt.relabel, c.form_injective h.2.1 h'.2.1 hc, hbody]
  | .breakLoop _ =>
    obtain ⟨_, rfl⟩ := Stmt.of_form_breakLoop heq
    simp only [Stmt.relabel, Relabeling.line_blank]
  | .funDecl f =>
    obtain ⟨f', rfl, hf⟩ := Stmt.of_form_funDecl heq
    have hf := FunctionDecl.tailForms_injective f (allNodes_cons.mp h).2 (allNodes_cons.mp h').2 hf
    simp only [Stmt.relabel, hf]
  | .returnValue _ none =>
    obtain ⟨_, value', rfl, hvalue⟩ := Stmt.of_form_returnValue heq
    cases value' with
    | some _ => cases hvalue
    | none => simp only [Stmt.relabel, Relabeling.line_blank]
  | .returnValue _ (some e) =>
    obtain ⟨_, value', rfl, hvalue⟩ := Stmt.of_form_returnValue heq
    cases value' with
    | none => cases hvalue
    | some e' =>
      simp only [Stmt.spotted, allNodes_cons, allNodes_expression] at h h'
      have he := e.form_injective h.2 h'.2 (List.cons.inj hvalue).1
      simp only [Stmt.relabel, he, Relabeling.line_blank]
  | .classDecl name methods =>
    obtain ⟨name', methods', rfl, hname, hmethods⟩ := Stmt.of_form_classDecl heq
    have hmethods := FunctionDecl.methodForms_injective methods (allNodes_cons.mp h).2
      (allNodes_cons.mp h').2 hmethods
    simp only [Stmt.relabel, Identifier.relabel_blank hname, hmethods]
termination_by structural s

theorem Stmt.forms_injective {spot spot' : Spot} (ss : List Stmt) {ss' : List Stmt}
    (h : AllNodes Node.Legible (Stmt.allSpotted spot ss))
    (h' : AllNodes Node.Legible (Stmt.allSpotted spot' ss'))
    (heq : Stmt.forms ss = Stmt.forms ss') :
    Stmt.allRelabel .blank ss = Stmt.allRelabel .blank ss' := by
  match ss, ss' with
  | [], [] => rfl
  | [], _ :: _ => cases heq
  | _ :: _, [] => cases heq
  | s :: rest, s' :: rest' =>
    obtain ⟨hs, hrest⟩ := List.cons.inj heq
    obtain ⟨hlegible, hlegibles⟩ := allNodes_append.mp h
    obtain ⟨hlegible', hlegibles'⟩ := allNodes_append.mp h'
    have hs := Stmt.form_injective s hlegible hlegible' hs
    have hrest := Stmt.forms_injective rest hlegibles hlegibles' hrest
    simp only [Stmt.allRelabel, hs, hrest]
termination_by structural ss

theorem FunctionDecl.tailForms_injective {spot spot' : Spot} {routine routine' : Scoping.Routine}
    (f : FunctionDecl) {f' : FunctionDecl} (h : AllNodes Node.Legible (f.spotted spot routine))
    (h' : AllNodes Node.Legible (f'.spotted spot' routine')) (heq : f.tailForms = f'.tailForms) :
    f.relabel .blank = f'.relabel .blank := by
  match f, f' with
  | .mk name params body, .mk name' params' body' =>
    obtain ⟨hname, hrest⟩ := List.cons.inj heq
    obtain ⟨hparams, hbody⟩ := List.cons.inj hrest
    have hbody := Stmt.forms_injective body h h' hbody
    simp only [FunctionDecl.relabel, Identifier.relabel_blank (Form.word.inj hname),
      params_relabel_blank (Form.list.inj hparams), hbody]
termination_by structural f

theorem FunctionDecl.methodForms_injective {spot spot' : Spot} (fs : List FunctionDecl)
    {fs' : List FunctionDecl} (h : AllNodes Node.Legible (FunctionDecl.allSpotted spot fs))
    (h' : AllNodes Node.Legible (FunctionDecl.allSpotted spot' fs'))
    (heq : FunctionDecl.methodForms fs = FunctionDecl.methodForms fs') :
    FunctionDecl.allRelabel .blank fs = FunctionDecl.allRelabel .blank fs' := by
  match fs, fs' with
  | [], [] => rfl
  | [], _ :: _ => cases heq
  | _ :: _, [] => cases heq
  | f :: rest, f' :: rest' =>
    obtain ⟨hf, hrest⟩ := List.cons.inj heq
    obtain ⟨hlegible, hlegibles⟩ := allNodes_append.mp h
    obtain ⟨hlegible', hlegibles'⟩ := allNodes_append.mp h'
    have hf := FunctionDecl.tailForms_injective f hlegible hlegible'
      (List.cons.inj (Form.list.inj hf)).2
    have hrest := FunctionDecl.methodForms_injective rest hlegibles hlegibles' hrest
    simp only [FunctionDecl.allRelabel, hf, hrest]
termination_by structural fs

end

/-! ## Programs that are parsed -/

/-- The literals of a program are neither strings nor infinite numbers. -/
def Program.HasLegibleLiterals (p : Program) : Prop :=
  ∀ place ∈ p.spotted, ∀ value, place.2 = .expr (.literal value) → value.Legible

theorem allLegible_of_parseSource {source : String} {nextId next : NodeId} {p : Program}
    (h : parseSource source nextId = (.ok p, next)) (hliterals : p.HasLegibleLiterals) :
    AllNodes Node.Legible p.spotted := by
  obtain ⟨stream, hstream, hparse⟩ := parseSource_eq_ok.mp h
  have hshaped := allShaped_of_parse (tokens_are_lexemes hstream) hparse
  exact fun place hplace => ⟨hshaped place hplace, hliterals place hplace⟩

/-- The forms of statements are known from their texts. -/
theorem Stmt.forms_of_parenthesized {ss ss' : List Stmt}
    (h : ∀ f ∈ Stmt.forms ss, f.Legible) (h' : ∀ f ∈ Stmt.forms ss', f.Legible)
    (heq : ss.map Stmt.parenthesized = ss'.map Stmt.parenthesized) :
    Stmt.forms ss = Stmt.forms ss' := by
  induction ss generalizing ss' with
  | nil => rw [List.map_eq_nil_iff.mp heq.symm]
  | cons s rest ih =>
    obtain ⟨s', rest', rfl, hs, hrest⟩ := List.map_eq_cons_iff.mp heq.symm
    obtain ⟨hs₁, hrest₁⟩ := List.forall_mem_cons.mp h
    obtain ⟨hs₂, hrest₂⟩ := List.forall_mem_cons.mp h'
    have htext := congrArg String.toList hs.symm
    rw [Stmt.toList_parenthesized, Stmt.toList_parenthesized] at htext
    rw [Stmt.forms, Stmt.forms, hs₁.write_injective hs₂ htext, ih hrest₁ hrest₂ hrest.symm]

/-- **Programs in parentheses are unambiguous.** If two sources are parsed to programs whose
literals are neither strings nor infinite numbers, and the statements of both have the same texts
in parentheses, then the programs are the same apart from their identities and lines. -/
theorem parenthesized_unambiguous {source source' : String} {nextId nextId' next next' : NodeId}
    {p p' : Program} (hp : parseSource source nextId = (.ok p, next))
    (hp' : parseSource source' nextId' = (.ok p', next'))
    (hliterals : p.HasLegibleLiterals) (hliterals' : p'.HasLegibleLiterals)
    (h : p.map Stmt.parenthesized = p'.map Stmt.parenthesized) :
    p.relabel .blank = p'.relabel .blank := by
  have hlegible := allLegible_of_parseSource hp hliterals
  have hlegible' := allLegible_of_parseSource hp' hliterals'
  have hforms := Stmt.forms_of_parenthesized (Stmt.forms_legible p hlegible)
    (Stmt.forms_legible p' hlegible') h
  exact Stmt.forms_injective p hlegible hlegible' hforms

/-- A call on one line and on two, where both have one text. -/
theorem negated_argument_unambiguous :
    let p (id line : Nat) : Program := [.expression (.call (.variable id ⟨"a", 1⟩) line
      [.literal .nil, .unary .negate line (.variable (id + 1) ⟨"b", line⟩)])]
    parseSource "a(nil, -b);" 0 = (.ok (p 0 1), 2) ∧
    parseSource "a(nil,\n- b ) ;" 7 = (.ok (p 7 2), 9) ∧
    (p 0 1).map Stmt.parenthesized = ["(; (call a nil (- b)))"] ∧
    (p 7 2).map Stmt.parenthesized = ["(; (call a nil (- b)))"] ∧
    (p 0 1).relabel .blank = (p 7 2).relabel .blank := by
  intro p
  have hp : parseSource "a(nil, -b);" 0 = (.ok (p 0 1), 2) := by cbv
  have hp' : parseSource "a(nil,\n- b ) ;" 7 = (.ok (p 7 2), 9) := by cbv
  have htext : (p 0 1).map Stmt.parenthesized = ["(; (call a nil (- b)))"] := by cbv
  have htext' : (p 7 2).map Stmt.parenthesized = ["(; (call a nil (- b)))"] := by cbv
  have hliterals (id line : Nat) : (p id line).HasLegibleLiterals := by
    intro place hplace value hvalue
    simp only [Program.spotted, Stmt.allSpotted, Stmt.spotted, Expr.spotted, Expr.parts,
      Expr.allParts, p, List.map_cons, List.map_nil, List.cons_append, List.nil_append,
      List.mem_cons, List.not_mem_nil, or_false] at hplace
    obtain rfl | rfl | rfl | rfl | rfl | rfl := hplace <;> cases hvalue
    trivial
  exact ⟨hp, hp', htext, htext', parenthesized_unambiguous hp hp' (hliterals 0 1) (hliterals 7 2)
    (htext.trans htext'.symm)⟩

end LoxLang
