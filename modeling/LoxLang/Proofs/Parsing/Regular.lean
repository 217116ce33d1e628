import LoxLang.Proofs.Checking
import LoxLang.Proofs.Parsing.Soundness

/-!
# Regular programs

What the parser makes of a source is regular: a branch of an `if` or the body of a loop declares
nothing, and no variable has the name of the object in a method.

* `scan_identifier`: an identifier of a source is no reserved word;
* `Stmt.Regular`, `parseSource_regular`: every program that is read is regular, and its nodes have
  identities of their own.
-/

namespace LoxLang

/-! ## Identifiers of a source -/

namespace Scanning

theorem cutString_kind {body : List Char} {kind : TokenKind}
    (h : (cutString body).matter = .token kind) : kind ≠ .identifier := by
  unfold cutString at h
  split at h <;> cases h
  simp

theorem cutNumber_kind {text : List Char} {kind : TokenKind}
    (h : (cutNumber text).matter = .token kind) : kind ≠ .identifier := by
  unfold cutNumber at h
  split at h
  · split at h <;> cases h <;> simp
  · cases h
    simp

theorem cutSymbol_kind {c : Char} {rest : List Char} {kind : TokenKind}
    (h : (cutSymbol c rest).matter = .token kind) : kind ≠ .identifier := by
  unfold cutSymbol at h
  split at h
  · cases h
    simp
  · split at h <;> cases h
    simp

theorem cutWord_identifier {text : List Char}
    (h : (cutWord text).matter = .token .identifier) :
    Keyword.ofSpelling? (String.ofList (cutWord text).text) = none := by
  have hkind : wordKind (text.takeWhile isNamePart) = .identifier := by
    simpa [cutWord] using h
  unfold wordKind at hkind
  split at hkind
  · cases hkind
  · assumption

theorem cut_identifier {c : Char} {rest : List Char}
    (h : (cut c rest).matter = .token .identifier) :
    Keyword.ofSpelling? (String.ofList (cut c rest).text) = none := by
  unfold cut at h ⊢
  split at h
  · cases h
  · rename_i hblank
    rw [if_neg hblank]
    split at h
    · cases h
    · rename_i hcomment
      rw [if_neg hcomment]
      split at h
      · exact absurd rfl (cutString_kind h)
      · rename_i hquote
        rw [if_neg hquote]
        split at h
        · exact absurd rfl (cutNumber_kind h)
        · rename_i hdigit
          rw [if_neg hdigit]
          split at h
          · rename_i hname
            rw [if_pos hname]
            exact cutWord_identifier h
          · exact absurd rfl (cutSymbol_kind h)

theorem pieces_identifier {line : Nat} {text : List Char} {p : Piece} (hp : p ∈ pieces line text)
    (h : p.matter = .token .identifier) :
    Keyword.ofSpelling? (String.ofList p.text) = none := by
  fun_induction pieces line text with
  | case1 => cases hp
  | case2 line c rest first line' ih =>
    obtain rfl | hp := List.mem_cons.mp hp
    · exact cut_identifier h
    · exact ih hp

end Scanning

theorem Scan.mem_sort {t : Token} {items : List Item} (h : t ∈ (Scan.sort items).1) :
    .token t ∈ items := by
  induction items with
  | nil => cases h
  | cons item rest ih =>
    cases item with
    | fault e => exact List.mem_cons_of_mem _ (ih h)
    | token t' =>
      obtain rfl | h := List.mem_cons.mp h
      · exact List.mem_cons_self
      · exact List.mem_cons_of_mem _ (ih h)

/-- An identifier of a source is no reserved word. -/
theorem scan_identifier {source : String} {stream : TokenStream} {t : Token}
    (hstream : (scan source).tokens? = .ok stream) (ht : t ∈ stream.tokens)
    (hkind : t.kind = .identifier) : Keyword.ofSpelling? t.lexeme = none := by
  have hmem : t ∈ (Scan.sort (scan source).items).1 := by
    unfold Scan.tokens? at hstream
    split at hstream
    · rename_i tokens hsort
      cases hstream
      rw [hsort]
      exact ht
    · cases hstream
  obtain ⟨p, hp, hitem⟩ := List.mem_filterMap.mp (Scan.mem_sort hmem)
  unfold Scanning.Piece.item? at hitem
  split at hitem
  · cases hitem
  · rename_i kind hmatter
    cases hitem
    have hkind : kind = .identifier := hkind
    exact Scanning.pieces_identifier hp (hmatter.trans (by rw [hkind]))
  · cases hitem

/-! ## Regular trees -/

mutual

def Stmt.Regular : Stmt → Prop
  | .varDecl name _ => name.name ≠ "this"
  | .block body => Stmt.AllRegular body
  | .ifElse _ thenBranch none => thenBranch.declaredName? = none ∧ thenBranch.Regular
  | .ifElse _ thenBranch (some elseBranch) =>
    (thenBranch.declaredName? = none ∧ thenBranch.Regular) ∧
      elseBranch.declaredName? = none ∧ elseBranch.Regular
  | .whileLoop _ body => body.declaredName? = none ∧ body.Regular
  | .funDecl f => f.Regular
  | .classDecl _ methods => FunctionDecl.AllRegular methods
  | .expression _ | .print _ | .breakLoop _ | .returnValue _ _ => True

def Stmt.AllRegular : List Stmt → Prop
  | [] => True
  | s :: rest => s.Regular ∧ Stmt.AllRegular rest

def FunctionDecl.Regular : FunctionDecl → Prop
  | .mk _ params body => (∀ p ∈ params, p.name ≠ "this") ∧ Stmt.AllRegular body

def FunctionDecl.AllRegular : List FunctionDecl → Prop
  | [] => True
  | f :: rest => f.Regular ∧ FunctionDecl.AllRegular rest

end

theorem Stmt.allRegular_iff {ss : List Stmt} :
    Stmt.AllRegular ss ↔ ∀ s ∈ ss, s.Regular := by
  induction ss with
  | nil => simp [Stmt.AllRegular]
  | cons s rest ih => simp [Stmt.AllRegular, ih]

theorem FunctionDecl.allRegular_iff {fs : List FunctionDecl} :
    FunctionDecl.AllRegular fs ↔ ∀ f ∈ fs, f.Regular := by
  induction fs with
  | nil => simp [FunctionDecl.AllRegular]
  | cons f rest ih => simp [FunctionDecl.AllRegular, ih]

mutual

theorem Stmt.regular_withoutIds (s : Stmt) : s.withoutIds.Regular ↔ s.Regular := by
  match s with
  | .ifElse _ thenBranch none =>
    simp only [Stmt.withoutIds, Stmt.Regular, Stmt.declaredName?_withoutIds,
      Stmt.regular_withoutIds thenBranch]
  | .ifElse _ thenBranch (some elseBranch) =>
    simp only [Stmt.withoutIds, Stmt.Regular, Stmt.declaredName?_withoutIds,
      Stmt.regular_withoutIds thenBranch, Stmt.regular_withoutIds elseBranch]
  | .whileLoop _ body =>
    simp only [Stmt.withoutIds, Stmt.Regular, Stmt.declaredName?_withoutIds,
      Stmt.regular_withoutIds body]
  | .block body => simp only [Stmt.withoutIds, Stmt.Regular, Stmt.allRegular_withoutIds body]
  | .funDecl f => simp only [Stmt.withoutIds, Stmt.Regular, FunctionDecl.regular_withoutIds f]
  | .classDecl _ methods =>
    simp only [Stmt.withoutIds, Stmt.Regular, FunctionDecl.allRegular_withoutIds methods]
  | .varDecl _ _ | .expression _ | .print _ | .breakLoop _ | .returnValue _ none
  | .returnValue _ (some _) => simp only [Stmt.withoutIds, Stmt.Regular]

theorem Stmt.allRegular_withoutIds (ss : List Stmt) :
    Stmt.AllRegular (Stmt.allWithoutIds ss) ↔ Stmt.AllRegular ss := by
  match ss with
  | [] => simp only [Stmt.allWithoutIds]
  | s :: rest =>
    simp only [Stmt.allWithoutIds, Stmt.AllRegular, Stmt.regular_withoutIds s,
      Stmt.allRegular_withoutIds rest]

theorem FunctionDecl.regular_withoutIds (f : FunctionDecl) :
    f.withoutIds.Regular ↔ f.Regular := by
  match f with
  | .mk _ _ body =>
    simp only [FunctionDecl.withoutIds, FunctionDecl.Regular, Stmt.allRegular_withoutIds body]

theorem FunctionDecl.allRegular_withoutIds (fs : List FunctionDecl) :
    FunctionDecl.AllRegular (FunctionDecl.allWithoutIds fs) ↔ FunctionDecl.AllRegular fs := by
  match fs with
  | [] => simp only [FunctionDecl.allWithoutIds]
  | f :: rest =>
    simp only [FunctionDecl.allWithoutIds, FunctionDecl.AllRegular,
      FunctionDecl.regular_withoutIds f, FunctionDecl.allRegular_withoutIds rest]

end

namespace Grammar

/-- The identifiers among tokens do not have the name of the object in a method. -/
def Unreserved (tokens : List Token) : Prop :=
  ∀ t ∈ tokens, t.kind = .identifier → t.lexeme ≠ "this"

theorem unreserved_append {front rest : List Token} :
    Unreserved (front ++ rest) ↔ Unreserved front ∧ Unreserved rest := List.forall_mem_append

theorem unreserved_cons {t : Token} {rest : List Token} : Unreserved (t :: rest) ↔
    (t.kind = .identifier → t.lexeme ≠ "this") ∧ Unreserved rest := List.forall_mem_cons

theorem Unreserved.of_flatMap {α : Type} {parts : List α} {tokens : α → List Token}
    (h : Unreserved (parts.flatMap tokens)) {part : α} (hpart : part ∈ parts) :
    Unreserved (tokens part) :=
  fun t ht => h t (List.mem_flatMap.mpr ⟨part, hpart, ht⟩)

theorem VarDeclaration.regular {tokens : List Token} {s : Stmt} (h : VarDeclaration tokens s)
    (hnames : Unreserved tokens) : s.Regular := by
  cases h with
  | bare _ hname _ =>
    simp only [unreserved_cons] at hnames
    exact hnames.2.1 hname
  | initialized _ hname _ _ =>
    simp only [unreserved_cons] at hnames
    exact hnames.2.1 hname

theorem Separated.mem {items : List (List Token)} {used : List Token} (h : Separated items used)
    {item : List Token} (hitem : item ∈ items) {t : Token} (ht : t ∈ item) : t ∈ used := by
  induction h with
  | one first =>
    rw [List.mem_singleton.mp hitem] at ht
    exact ht
  | more _ _ ih =>
    obtain rfl | hitem := List.mem_cons.mp hitem
    · exact List.mem_append_left _ ht
    · exact List.mem_append_right _ (List.mem_cons_of_mem _ (ih hitem))

theorem Listed.mem {items : List (List Token)} {used : List Token} (h : Listed items used)
    {item : List Token} (hitem : item ∈ items) {t : Token} (ht : t ∈ item) : t ∈ used := by
  cases h with
  | none => cases hitem
  | some h => exact h.mem hitem ht

theorem Function.regular {body tokens : List Token} {statements : List Stmt} {f : FunctionDecl}
    (h : Function body statements tokens f) (hnames : Unreserved tokens)
    (hbody : Unreserved body → ∀ s ∈ statements, s.Regular) : f.Regular := by
  obtain ⟨_, _, hparams, hlisted, _, _, _, _⟩ := h
  simp only [unreserved_cons, unreserved_append] at hnames
  obtain ⟨-, -, hused, -, -, hinside, -⟩ := hnames
  refine ⟨fun p hp => ?_, Stmt.allRegular_iff.mpr (hbody hinside)⟩
  obtain ⟨t, ht, rfl⟩ := List.mem_map.mp hp
  have hmem : t ∈ _ := hlisted.mem (List.mem_map_of_mem ht) (List.mem_singleton_self t)
  exact hused t hmem (hparams t ht)

theorem desugarFor_regular {initializer : Option Stmt} (condition : Expr) (increment : Option Expr)
    {body : Stmt} (hinitializer : ∀ s ∈ initializer, s.Regular) (hbody : body.Regular)
    (hdeclared : body.declaredName? = none) :
    (Parsing.desugarFor initializer condition increment body).Regular ∧
      (Parsing.desugarFor initializer condition increment body).declaredName? = none := by
  have hloop : ∀ body : Stmt, body.Regular → body.declaredName? = none →
      (Stmt.whileLoop condition body).Regular := fun _ hbody hdeclared => ⟨hdeclared, hbody⟩
  have hblock : ∀ e, (Stmt.block [body, .expression e]).Regular :=
    fun _ => ⟨hbody, trivial, trivial⟩
  cases initializer with
  | none =>
    cases increment with
    | none => exact ⟨hloop _ hbody hdeclared, rfl⟩
    | some e => exact ⟨hloop _ (hblock e) rfl, rfl⟩
  | some s =>
    cases increment with
    | none => exact ⟨⟨hinitializer s rfl, hloop _ hbody hdeclared, trivial⟩, rfl⟩
    | some e => exact ⟨⟨hinitializer s rfl, hloop _ (hblock e) rfl, trivial⟩, rfl⟩

theorem ForStart.regular {tokens : List Token} {initializer : Option Stmt}
    (h : ForStart tokens initializer) (hnames : Unreserved tokens) :
    ∀ s ∈ initializer, s.Regular := by
  intro s hs
  cases h with
  | none => cases hs
  | declaration h =>
    cases hs
    exact h.regular hnames
  | expression _ =>
    cases hs
    trivial

/-- A statement that is no declaration declares nothing. -/
theorem Statement.declaredName?_eq_none {dangling : Bool} {tokens : List Token} {s : Stmt}
    (h : Statement .statement dangling tokens s) : s.declaredName? = none := by
  generalize hkind : Kind.statement = kind at h
  cases h with
  | forLoop =>
    rename_i initializer _ increment _ _ _ _ _ _ _ _ _
    cases initializer <;> cases increment <;> rfl
  | classDecl | funDecl | varDecl | statement => cases hkind
  | _ => rfl

theorem Statement.regular {kind : Kind} {dangling : Bool} {tokens : List Token} {s : Stmt}
    (h : Statement kind dangling tokens s) (hnames : Unreserved tokens) :
    s.Regular ∧ (kind = .statement → s.declaredName? = none) := by
  induction h with
  | classDecl _ _ _ _ hfunctions _ ih =>
    simp only [unreserved_cons, unreserved_append] at hnames
    refine ⟨?_, fun h => nomatch h⟩
    refine FunctionDecl.allRegular_iff.mpr fun f hf => ?_
    obtain ⟨m, hm, rfl⟩ := List.mem_map.mp hf
    refine (hfunctions m hm).regular (hnames.2.2.2.1.of_flatMap hm) fun hbody s hs => ?_
    obtain ⟨d, hd, rfl⟩ := List.mem_map.mp hs
    exact (ih m hm d hd (hbody.of_flatMap hd)).1
  | funDecl _ _ hf ih =>
    simp only [unreserved_cons] at hnames
    refine ⟨?_, fun h => nomatch h⟩
    refine hf.regular hnames.2 fun hbody s hs => ?_
    obtain ⟨d, hd, rfl⟩ := List.mem_map.mp hs
    exact (ih d hd (hbody.of_flatMap hd)).1
  | varDecl h => exact ⟨h.regular hnames, fun h => nomatch h⟩
  | statement _ ih => exact ⟨(ih hnames).1, fun h => nomatch h⟩
  | whileLoop _ _ _ _ _ ih =>
    simp only [unreserved_cons, unreserved_append] at hnames
    obtain ⟨hbody, hdeclared⟩ := ih hnames.2.2.2.2
    exact ⟨⟨hdeclared rfl, hbody⟩, fun _ => rfl⟩
  | forLoop _ _ hstart _ _ _ _ _ ih =>
    simp only [unreserved_cons, unreserved_append] at hnames
    obtain ⟨-, -, hfirst, -, -, -, -, hrest⟩ := hnames
    obtain ⟨hbody, hdeclared⟩ := ih hrest
    obtain ⟨hregular, hnone⟩ := desugarFor_regular _ _ (hstart.regular hfirst) hbody (hdeclared rfl)
    exact ⟨hregular, fun _ => hnone⟩
  | ifThen _ _ _ _ _ ih =>
    simp only [unreserved_cons, unreserved_append] at hnames
    obtain ⟨hthen, hdeclared⟩ := ih hnames.2.2.2.2
    exact ⟨⟨hdeclared rfl, hthen⟩, fun _ => rfl⟩
  | ifElse _ _ _ _ _ _ _ ihthen ihelse =>
    simp only [unreserved_cons, unreserved_append] at hnames
    obtain ⟨-, -, -, -, hthen, -, helse⟩ := hnames
    obtain ⟨hthen, hdeclared⟩ := ihthen hthen
    obtain ⟨helse, hdeclared'⟩ := ihelse helse
    exact ⟨⟨⟨hdeclared rfl, hthen⟩, hdeclared' rfl, helse⟩, fun _ => rfl⟩
  | block _ _ _ ih =>
    simp only [unreserved_cons, unreserved_append] at hnames
    refine ⟨Stmt.allRegular_iff.mpr fun s hs => ?_, fun _ => rfl⟩
    obtain ⟨d, hd, rfl⟩ := List.mem_map.mp hs
    exact (ih d hd (hnames.2.1.of_flatMap hd)).1
  | expression _ | print _ _ | returnValue _ _ _ | breakLoop _ _ => exact ⟨trivial, fun _ => rfl⟩

theorem Source.regular {tokens : List Token} {p : Program} (h : Source tokens p)
    (hnames : Unreserved tokens) : Stmt.AllRegular p := by
  obtain ⟨hbody⟩ := h
  refine Stmt.allRegular_iff.mpr fun s hs => ?_
  obtain ⟨d, hd, rfl⟩ := List.mem_map.mp hs
  exact ((hbody d hd).regular (hnames.of_flatMap hd)).1

end Grammar

/-- **What the parser makes of a source is regular**, and each of its nodes has its own identity. -/
theorem parseSource_regular {source : String} {nextId next : NodeId} {p : Program}
    (h : parseSource source nextId = (.ok p, next)) :
    Stmt.AllRegular p ∧ Fresh nextId next (Stmt.allIds p) := by
  obtain ⟨stream, hstream, hparse⟩ := parseSource_eq_ok.mp h
  obtain ⟨hsource, hfresh⟩ := source_of_parse hparse
  refine ⟨?_, hfresh⟩
  rw [← Stmt.allRegular_withoutIds]
  refine hsource.regular fun t ht hkind hthis => ?_
  have hreserved := scan_identifier hstream ht hkind
  rw [hthis] at hreserved
  revert hreserved
  decide

end LoxLang
