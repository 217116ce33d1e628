import LoxLang.Proofs.Parsing.Grammar

/-!
# What a step takes

* `Fresh`: identities given out between two moments, each once;
* `Took`: the tokens between two places of a token list, and the identities given out there;
* `Gives`: what holds of the tokens a rule takes and of what it gives for them;
* `Accepts`: the tokens a rule takes when what follows lets it, and what it gives for them;
* for each step of the grammar rules what it takes when it succeeds, and when it does succeed.
-/

namespace LoxLang

/-- Identities given out after `first` was the next one and before `next` was. -/
structure Fresh (first next : Nat) (ids : List Nat) : Prop where
  le : first ≤ next
  nodup : ids.Nodup
  within : ∀ i ∈ ids, first ≤ i ∧ i < next

namespace Fresh

variable {a b c : Nat} {i j : List Nat}

theorem nil (h : a ≤ b) : Fresh a b [] := ⟨h, List.nodup_nil, by simp⟩

theorem one : Fresh a (a + 1) [a] := ⟨by omega, by simp, by simp⟩

theorem append (hi : Fresh a b i) (hj : Fresh b c j) : Fresh a c (i ++ j) where
  le := Nat.le_trans hi.le hj.le
  nodup := by
    rw [List.nodup_append]
    refine ⟨hi.nodup, hj.nodup, fun x hx y hy => ?_⟩
    have := hi.within x hx
    have := hj.within y hy
    omega
  within x hx := by
    have := hi.le
    have := hj.le
    rcases List.mem_append.mp hx with h | h
    · have := hi.within x h
      omega
    · have := hj.within x h
      omega

theorem perm (h : Fresh a b i) (hp : i.Perm j) : Fresh a b j :=
  ⟨h.le, hp.nodup_iff.mp h.nodup, fun x hx => h.within x (hp.mem_iff.mpr hx)⟩

/-- Identities that were given out and not used do not matter. -/
theorem later (h : Fresh b c i) (hab : a ≤ b) : Fresh a c i :=
  (nil hab).append h

end Fresh

namespace Parsing

/-- The tokens `used` stand between two places, and the identities `ids` were given out. -/
structure Took (c c' : Cursor) (used : List Token) (ids : List NodeId) : Prop where
  rest : c.rest = used ++ c'.rest
  fresh : Fresh c.nextId c'.nextId ids

namespace Took

variable {c c' c'' : Cursor} {used more : List Token} {i j : List NodeId}

theorem refl (c : Cursor) : Took c c [] [] := ⟨rfl, .nil (Nat.le_refl _)⟩

theorem trans (h : Took c c' used i) (h' : Took c' c'' more j) :
    Took c c'' (used ++ more) (i ++ j) :=
  ⟨by rw [h.rest, h'.rest, List.append_assoc], h.fresh.append h'.fresh⟩

theorem perm (h : Took c c' used i) (hp : i.Perm j) : Took c c' used j :=
  ⟨h.rest, h.fresh.perm hp⟩

end Took

/-- When the rule succeeds, the tokens it took belong to something that stands in the relation to
what it gives. -/
def Gives {α ω : Type} (tokens : ω → List Token) (ids : α → List NodeId) (P : ω → α → Prop)
    (x : Parser α) : Prop :=
  ∀ c a c', x c = .ok a c' → ∃ w, Took c c' (tokens w) (ids a) ∧ P w a

/-- No `else` follows a statement that ends with an `if` without one. -/
def NoElse (dangling : Bool) (rest : List Token) : Prop :=
  dangling = true → ∀ t ∈ rest.head?, t.isKeyword .elseWord = false

theorem NoElse.closed {rest : List Token} : NoElse false rest := fun h => nomatch h

theorem NoElse.weaken {dangling : Bool} {rest : List Token} (h : NoElse true rest) :
    NoElse dangling rest := fun _ => h rfl

/-! ## Steps that succeeded -/

section
variable {c c' : Cursor}

theorem skip_took {t : Token} {rest : List Token} (hc : c.rest = t :: rest)
    (h : skip c = .ok () c') : Took c c' [t] [] := by
  cases h
  exact ⟨by simp [hc], .nil (Nat.le_refl _)⟩

/-- A kind that is next is that of a token. -/
theorem cons_of_nextKind {kind : TokenKind} (h : c.rest.head?.map (·.kind) = some kind) :
    ∃ t rest, c.rest = t :: rest ∧ t.kind = kind := by
  cases hrest : c.rest with
  | nil => simp [hrest] at h
  | cons t rest => exact ⟨t, rest, rfl, by simpa [hrest] using h⟩

theorem takeIf_took {test : Token → Bool} {t : Token} (h : takeIf test c = .ok (some t) c') :
    Took c c' [t] [] ∧ test t = true := by
  unfold takeIf at h
  split at h
  · cases h
  · rename_i t' rest hc
    split at h
    · rename_i ht
      cases h
      exact ⟨⟨by simp [hc], .nil (Nat.le_refl _)⟩, ht⟩
    · cases h

theorem takeIf_none {test : Token → Bool} (h : takeIf test c = .ok none c') :
    c' = c ∧ ∀ t ∈ c.rest.head?, test t = false := by
  unfold takeIf at h
  split at h
  · rename_i hc
    cases h
    simp [hc]
  · rename_i t' rest hc
    split at h
    · cases h
    · rename_i ht
      cases h
      simpa [hc] using ht

theorem accept_took {s : Symbol} {t : Token} (h : accept s c = .ok (some t) c') :
    Took c c' [t] [] ∧ t.kind = .symbol s := by
  obtain ⟨htook, ht⟩ := takeIf_took h
  exact ⟨htook, Token.isSymbol_iff.mp ht⟩

theorem accept_none {s : Symbol} (h : accept s c = .ok none c') : c' = c :=
  (takeIf_none h).1

theorem expectIf_took {test : Token → Bool} {fault : SyntaxFault} {t : Token}
    (h : expectIf test fault c = .ok t c') : Took c c' [t] [] ∧ test t = true := by
  unfold expectIf at h
  split at h
  · cases h
  · rename_i t' rest hc
    split at h
    · rename_i ht
      cases h
      exact ⟨⟨by simp [hc], .nil (Nat.le_refl _)⟩, ht⟩
    · cases h

theorem expect_took {s : Symbol} {fault : SyntaxFault} {t : Token}
    (h : expect s fault c = .ok t c') : Took c c' [t] [] ∧ t.kind = .symbol s := by
  obtain ⟨htook, ht⟩ := expectIf_took h
  exact ⟨htook, Token.isSymbol_iff.mp ht⟩

theorem expectName_took {fault : SyntaxFault} {name : Identifier}
    (h : expectName fault c = .ok name c') :
    ∃ t, Took c c' [t] [] ∧ t.kind = .identifier ∧ name = t.identifier := by
  obtain ⟨t, c₁, ht, hp⟩ := Action.bind_eq_ok.mp h
  cases hp
  obtain ⟨htook, hkind⟩ := expectIf_took ht
  refine ⟨t, htook, ?_, rfl⟩
  cases hk : t.kind <;> simp [hk] at hkind ⊢

theorem freshId_took {i : NodeId} (h : freshId c = .ok i c') : Took c c' [] [i] := by
  cases h
  exact ⟨rfl, .one⟩

theorem isNext_ok {s : Symbol} {b : Bool} (h : isNext s c = .ok b c') : c' = c := by
  cases h
  rfl

/-- Items with commas between them, of which `count` were read before. -/
theorem separated_took {α ω : Type} {tokens : ω → List Token} {ids : α → List NodeId}
    {P : ω → α → Prop} {item : Parser α} (hitem : Gives tokens ids P item)
    {tooMany : SyntaxFault} {fuel count : Nat} {c c' : Cursor} {found : List α}
    (h : separated tooMany item fuel count c = .ok found c') :
    ∃ (parts : List (ω × α)) (used : List Token),
      Took c c' used (found.flatMap ids) ∧ found = parts.map (·.2) ∧
      (∀ p ∈ parts, P p.1 p.2) ∧ Grammar.Separated (parts.map (tokens ·.1)) used ∧
      count + parts.length ≤ 255 := by
  induction fuel generalizing c count found with
  | zero => cases h
  | succ fuel ih =>
    unfold separated at h
    split at h
    · cases h
    · rename_i hcount
      have hcount : count + 1 ≤ 255 := Nat.lt_of_not_le hcount
      obtain ⟨first, c₁, hfirst, h⟩ := Action.bind_eq_ok.mp h
      obtain ⟨w, htook, hP⟩ := hitem _ _ _ hfirst
      obtain ⟨comma?, c₂, hcomma, h⟩ := Action.bind_eq_ok.mp h
      cases comma? with
      | none =>
        cases accept_none hcomma
        cases h
        exact ⟨[(w, first)], tokens w, by simpa using htook, rfl, by simpa using hP, .one _,
          hcount⟩
      | some comma =>
        obtain ⟨hcommaTook, hcommaKind⟩ := accept_took hcomma
        obtain ⟨others, c₃, hothers, h⟩ := Action.bind_eq_ok.mp h
        cases h
        obtain ⟨parts, more, hmore, rfl, hparts, hsep, hlen⟩ := ih hothers
        refine ⟨(w, first) :: parts, tokens w ++ comma :: more, ?_, rfl, ?_, ?_, ?_⟩
        · simpa using htook.trans (hcommaTook.trans hmore)
        · exact List.forall_mem_cons.mpr ⟨hP, hparts⟩
        · exact .more hcommaKind hsep
        · simp only [List.length_cons]
          omega

theorem separatedOrNone_took {α ω : Type} {tokens : ω → List Token} {ids : α → List NodeId}
    {P : ω → α → Prop} {item : Parser α} (hitem : Gives tokens ids P item)
    {tooMany : SyntaxFault} {fuel : Nat} {c c' : Cursor} {found : List α}
    (h : separatedOrNone tooMany item fuel c = .ok found c') :
    ∃ (parts : List (ω × α)) (used : List Token),
      Took c c' used (found.flatMap ids) ∧ found = parts.map (·.2) ∧
      (∀ p ∈ parts, P p.1 p.2) ∧ Grammar.Listed (parts.map (tokens ·.1)) used ∧
      parts.length ≤ 255 := by
  obtain ⟨atEnd, c₁, hnext, h⟩ := Action.bind_eq_ok.mp h
  cases isNext_ok hnext
  split at h
  · cases h
    exact ⟨[], [], .refl _, rfl, by simp, .none, by simp⟩
  · obtain ⟨parts, used, htook, hfound, hparts, hsep, hlen⟩ := separated_took hitem h
    exact ⟨parts, used, htook, hfound, hparts, .some hsep, by omega⟩

/-- Items up to a brace or the end of the source. -/
theorem untilBrace_took {α ω : Type} {tokens : ω → List Token} {ids : α → List NodeId}
    {P : ω → α → Prop} {item : Parser α} (hitem : Gives tokens ids P item) {fuel : Nat}
    {c c' : Cursor} {found : List α} (h : untilBrace item fuel c = .ok found c') :
    ∃ parts : List (ω × α), Took c c' (parts.flatMap (tokens ·.1)) (found.flatMap ids) ∧
      found = parts.map (·.2) ∧ ∀ p ∈ parts, P p.1 p.2 := by
  induction fuel generalizing c found with
  | zero => cases h
  | succ fuel ih =>
    obtain ⟨more, c₁, hmore, h⟩ := Action.bind_eq_ok.mp h
    cases hmore
    split at h
    · obtain ⟨first, c₂, hfirst, h⟩ := Action.bind_eq_ok.mp h
      obtain ⟨others, c₃, hothers, h⟩ := Action.bind_eq_ok.mp h
      cases h
      obtain ⟨w, hw, hP⟩ := hitem _ _ _ hfirst
      obtain ⟨parts, hparts, rfl, hall⟩ := ih hothers
      exact ⟨(w, first) :: parts, hw.trans hparts, rfl, List.forall_mem_cons.mpr ⟨hP, hall⟩⟩
    · cases h
      exact ⟨[], .refl _, rfl, by simp⟩

end

/-! ## Steps that succeed -/

/-- The rule takes the tokens at the start of a list shorter than the bound, if what follows is as
it should be. `b` is what can be seen of what it gives. -/
def Accepts {α β : Type} (view : α → β) (x : Parser α) (bound : Nat)
    (follow : List Token → Prop) (tokens : List Token) (b : β) : Prop :=
  ∀ rest n, tokens.length + rest.length < bound → follow rest →
    ∃ a n', x ⟨tokens ++ rest, n⟩ = .ok a ⟨rest, n'⟩ ∧ view a = b

section
variable {t : Token} {rest : List Token} {n : NodeId}

theorem skip_cons : skip ⟨t :: rest, n⟩ = .ok () ⟨rest, n⟩ := rfl

theorem takeIf_cons {test : Token → Bool} (h : test t = true) :
    takeIf test ⟨t :: rest, n⟩ = .ok (some t) ⟨rest, n⟩ := by
  simp only [takeIf, h, if_true]

theorem takeIf_stop {test : Token → Bool} (h : ∀ t ∈ rest.head?, test t = false) :
    takeIf test ⟨rest, n⟩ = .ok none ⟨rest, n⟩ := by
  cases rest with
  | nil => rfl
  | cons t rest => simp [takeIf, h t rfl]

theorem accept_cons {s : Symbol} (h : t.kind = .symbol s) :
    accept s ⟨t :: rest, n⟩ = .ok (some t) ⟨rest, n⟩ :=
  takeIf_cons (Token.isSymbol_iff.mpr h)

theorem accept_stop {s : Symbol} (h : ∀ t ∈ rest.head?, t.kind ≠ .symbol s) :
    accept s ⟨rest, n⟩ = .ok none ⟨rest, n⟩ :=
  takeIf_stop fun t ht => Bool.eq_false_iff.mpr fun hs => h t ht (Token.isSymbol_iff.mp hs)

theorem expect_cons {s : Symbol} {fault : SyntaxFault} (h : t.kind = .symbol s) :
    expect s fault ⟨t :: rest, n⟩ = .ok t ⟨rest, n⟩ := by
  simp only [expect, expectIf, Token.isSymbol_iff.mpr h, if_true]

theorem expectName_cons {fault : SyntaxFault} (h : t.kind = .identifier) :
    expectName fault ⟨t :: rest, n⟩ = .ok t.identifier ⟨rest, n⟩ := by
  refine Action.bind_of_ok (a := t) ?_
  simp only [expectIf, h, if_true]

theorem isNext_cons {s : Symbol} {b : Bool} (h : t.isSymbol s = b) :
    isNext s ⟨t :: rest, n⟩ = .ok b ⟨t :: rest, n⟩ := by
  simp only [isNext, List.head?_cons, Option.any_some, h]

theorem nextKind_cons : nextKind ⟨t :: rest, n⟩ = .ok (some t.kind) ⟨t :: rest, n⟩ := rfl

/-- A symbol is not another one. -/
theorem isSymbol_of_kind {s s' : Symbol} (h : t.kind = .symbol s) :
    t.isSymbol s' = (s == s') := by
  simp only [Token.isSymbol, h]

end

section
variable {α β ω : Type} {tokens : ω → List Token} {view : α → β} {item : Parser α}
  {bound : Nat} {result : ω → β}

/-- What may stand behind an item between parentheses. -/
def EndsItem (rest : List Token) : Prop :=
  ∃ t, rest.head? = some t ∧ (t.kind = .symbol .comma ∨ t.kind = .symbol .rightParen)

theorem separated_accepts (tooMany : SyntaxFault) (fuel count : Nat) {parts : List ω}
    {used : List Token}
    (hitems : ∀ w ∈ parts, Accepts view item bound EndsItem (tokens w) (result w))
    (hsep : Grammar.Separated (parts.map tokens) used) (hcount : count + parts.length ≤ 255)
    (hfuel : parts.length ≤ fuel) :
    Accepts (List.map view) (separated tooMany item fuel count) bound
      (fun rest => ∃ t, rest.head? = some t ∧ t.kind = .symbol .rightParen) used
      (parts.map result) := by
  induction fuel generalizing count parts used with
  | zero =>
    cases parts with
    | nil => cases hsep
    | cons w rest => simp at hfuel
  | succ fuel ih =>
    intro rest n hlen hrest
    obtain ⟨paren, hparen, hkind⟩ := hrest
    cases parts with
    | nil => cases hsep
    | cons w others =>
      simp only [List.length_cons] at hcount hfuel
      have hmore : ¬maxArguments ≤ count := by
        simp only [maxArguments]
        omega
      obtain ⟨hw, hothers⟩ := List.forall_mem_cons.mp hitems
      unfold separated
      rw [if_neg hmore]
      generalize hnames : List.map tokens (w :: others) = names at hsep
      cases hsep with
      | one item =>
        simp only [List.map_cons, List.cons.injEq, List.map_eq_nil_iff] at hnames
        obtain ⟨rfl, rfl⟩ := hnames
        obtain ⟨first, n', hfirst, hview⟩ := hw rest n hlen ⟨paren, hparen, .inr hkind⟩
        refine ⟨[first], n', ?_, by simp [hview]⟩
        refine (Action.bind_of_ok hfirst).trans ?_
        have hcomma : ∀ t ∈ rest.head?, t.kind ≠ .symbol .comma := by
          simp [hparen, hkind]
        exact Action.bind_of_ok (accept_stop hcomma)
      | @more item used' items comma hcomma hsep =>
        simp only [List.map_cons, List.cons.injEq] at hnames
        obtain ⟨rfl, rfl⟩ := hnames
        simp only [List.length_append, List.length_cons] at hlen
        obtain ⟨first, n', hfirst, hview⟩ := hw (comma :: (used' ++ rest)) n
          (by simp only [List.length_cons, List.length_append]; omega) ⟨comma, rfl, .inl hcomma⟩
        obtain ⟨found, n'', hfound, hviews⟩ := ih (count + 1) hothers hsep (by omega)
          (by omega) rest n' (by omega) ⟨paren, hparen, hkind⟩
        refine ⟨first :: found, n'', ?_, by simp [hview, hviews]⟩
        rw [List.append_assoc, List.cons_append]
        refine (Action.bind_of_ok hfirst).trans ((Action.bind_of_ok (accept_cons hcomma)).trans ?_)
        exact Action.bind_of_ok hfound

theorem separatedOrNone_accepts (tooMany : SyntaxFault) (fuel : Nat) {parts : List ω}
    {used : List Token}
    (hitems : ∀ w ∈ parts, Accepts view item bound EndsItem (tokens w) (result w))
    (hfirst : ∀ w ∈ parts, ∃ t more, tokens w = t :: more ∧ t.isSymbol .rightParen = false)
    (hlisted : Grammar.Listed (parts.map tokens) used) (hcount : parts.length ≤ 255)
    (hfuel : used.length < fuel) :
    Accepts (List.map view) (separatedOrNone tooMany item fuel) bound
      (fun rest => ∃ t, rest.head? = some t ∧ t.kind = .symbol .rightParen) used
      (parts.map result) := by
  intro rest n hlen hrest
  generalize hnames : parts.map tokens = names at hlisted
  cases hlisted with
  | none =>
    obtain rfl := List.map_eq_nil_iff.mp hnames
    obtain ⟨paren, hparen, hkind⟩ := hrest
    obtain ⟨rest, rfl⟩ := List.head?_eq_some_iff.mp hparen
    exact ⟨[], n, Action.bind_of_ok (isNext_cons (isSymbol_of_kind hkind)), rfl⟩
  | some hsep =>
    subst hnames
    obtain ⟨t, more, rfl, ht⟩ : ∃ t more, used = t :: more ∧ t.isSymbol .rightParen = false := by
      cases parts with
      | nil => cases hsep
      | cons w others =>
        obtain ⟨t, more, hw, ht⟩ := hfirst w (by simp)
        obtain ⟨more', rfl⟩ := hsep.starts
        exact ⟨t, more ++ more', by rw [hw, List.cons_append], ht⟩
    have hlength := hsep.length_le
    simp only [List.length_map] at hlength
    obtain ⟨found, n', hfound, hview⟩ := separated_accepts tooMany fuel 0 hitems hsep (by omega)
      (by omega) rest n hlen hrest
    exact ⟨found, n', (Action.bind_of_ok (isNext_cons ht)).trans hfound, hview⟩

/-- Items that do not start with a brace, up to a brace. -/
theorem untilBrace_accepts (fuel : Nat) {parts : List ω} {follow : List Token → Prop}
    (hitems : ∀ w ∈ parts, Accepts view item bound follow (tokens w) (result w))
    (hfirst : ∀ w ∈ parts, ∃ t more, tokens w = t :: more ∧ t.isSymbol .rightBrace = false ∧
      ∀ rest, follow (tokens w ++ rest))
    (hbrace : ∀ t rest, t.kind = .symbol .rightBrace → follow (t :: rest))
    (hfuel : (parts.flatMap tokens).length < fuel) :
    Accepts (List.map view) (untilBrace item fuel) bound
      (fun rest => ∃ t, rest.head? = some t ∧ t.kind = .symbol .rightBrace)
      (parts.flatMap tokens) (parts.map result) := by
  induction fuel generalizing parts with
  | zero => omega
  | succ fuel ih =>
    intro rest n hlen hrest
    have ⟨brace, hhead, hkind⟩ := hrest
    obtain ⟨rest, rfl⟩ := List.head?_eq_some_iff.mp hhead
    unfold untilBrace
    cases parts with
    | nil =>
      refine ⟨[], n, Action.bind_of_ok (a := false) ?_, rfl⟩
      simp [goesOn, isSymbol_of_kind hkind]
    | cons w others =>
      obtain ⟨hw, hothers⟩ := List.forall_mem_cons.mp hitems
      obtain ⟨⟨t, more, hwt, ht, -⟩, hfirsts⟩ := List.forall_mem_cons.mp hfirst
      simp only [List.flatMap_cons, List.length_append] at hlen hfuel ⊢
      have hfollow : follow (others.flatMap tokens ++ brace :: rest) := by
        cases others with
        | nil => exact hbrace _ _ hkind
        | cons w' others =>
          obtain ⟨_, _, _, _, hfollow⟩ := hfirsts w' (by simp)
          rw [List.flatMap_cons, List.append_assoc]
          exact hfollow _
      obtain ⟨first, n', hfirst, hview⟩ := hw (others.flatMap tokens ++ brace :: rest) n
        (by simp only [List.length_append]; omega) hfollow
      have hpositive : 0 < (tokens w).length := by
        rw [hwt]
        simp
      obtain ⟨found, n'', hfound, hviews⟩ := ih hothers hfirsts (by omega) (brace :: rest) n'
        (by omega) hrest
      refine ⟨first :: found, n'', ?_, by simp [hview, hviews]⟩
      rw [List.append_assoc]
      have hon : goesOn ⟨tokens w ++ (others.flatMap tokens ++ brace :: rest), n⟩
          = .ok true ⟨tokens w ++ (others.flatMap tokens ++ brace :: rest), n⟩ := by
        simp [goesOn, hwt, ht]
      exact (Action.bind_of_ok hon).trans
        ((Action.bind_of_ok hfirst).trans (Action.bind_of_ok hfound))

end

end Parsing

end LoxLang
