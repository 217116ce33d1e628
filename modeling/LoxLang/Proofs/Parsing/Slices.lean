import LoxLang.Parsing.Indexed
import LoxLang.Proofs.Parsing.Lines
import Mathlib.Data.List.Forall2

/-!
# Steps over a slice

A rule over a slice goes through the same tokens as one over a list of tokens. The tokens of the
slice may stand on other lines.

* `Slice`, `Points`: a slice that ends in its only mark, and where both rules stand;
* `Reported`: the entry that an objection is reported at, against the tokens of a refusal;
* `Mirrors`: one rule ends over the slice as another one does over the tokens, so it is never
  outside the slice;
* `Mirrors.bind`, `Mirrors.firstOf`: for two rules in a row, and for alternatives.
-/

namespace LoxLang

namespace Parsing

namespace Indexed

/-! ## Where rules stand -/

/-- A slice that ends in its only mark, and the change of the lines of its tokens. -/
structure Slice where
  entries : List Entry
  endLexeme : String
  endLine : Nat
  line : Nat → Nat

namespace Slice

/-- The last entries of the slice, from the first of these tokens on. -/
def holding (S : Slice) (tokens : List Token) : List Entry :=
  tokens.map (fun t => .token (t.moved S.line)) ++ [.ending S.endLexeme S.endLine]

/-- The first of these tokens, or the mark. -/
def next (S : Slice) : List Token → Entry
  | [] => .ending S.endLexeme S.endLine
  | t :: _ => .token (t.moved S.line)

abbrev lines (S : Slice) : Relabeling := .ofLines S.line

end Slice

/-- The entry that is looked at is the next token to read, or the mark behind the last one. -/
structure Points (S : Slice) (c : Cursor) (s : SliceParser) : Prop where
  entries : s.entries = S.entries
  rest : S.entries.drop s.current = S.holding c.rest
  nextId : s.nextId = c.nextId

/-- The entry before the one that is looked at is this token. -/
structure Behind (S : Slice) (t : Token) (c : Cursor) (s : SliceParser) : Prop extends
    Points S c s where
  before : ∃ i, s.current = i + 1 ∧ S.entries[i]? = some (.token (t.moved S.line))

/-- The objection is to the first of the tokens of a refusal, or to the mark if there is none. -/
structure Refers (S : Slice) (r : Refusal) (o : Objection) : Prop where
  fault : o.fault = r.fault
  place : S.entries.drop o.index = S.holding r.place
  lexeme : o.lexeme = (S.next r.place).lexeme
  line : o.line = (S.next r.place).line

/-- It is reported at the entry that was looked at last, or at the equals sign behind a target. -/
structure Reported (S : Slice) (r : Refusal) (stopped : Nat) (o : Objection) : Prop extends
    Refers S r o where
  looked : o.fault ≠ .assignmentTarget → o.index = stopped
  equals : o.fault = .assignmentTarget → (S.next r.place).passes (·.isSymbol .equal) = true

section
variable {S : Slice} {c : Cursor} {s : SliceParser} {t : Token} {rest : List Token}
  {sign : Sign}

theorem Slice.getElem?_of_drop {i : Nat} {tokens : List Token}
    (h : S.entries.drop i = S.holding tokens) : S.entries[i]? = some (S.next tokens) := by
  have hhead := congrArg List.head? h
  rw [List.head?_drop] at hhead
  rw [hhead]
  cases tokens <;> rfl

theorem Slice.drop_succ {i : Nat} (h : S.entries.drop i = S.holding (t :: rest)) :
    S.entries.drop (i + 1) = S.holding rest := by
  rw [← List.tail_drop, h]
  rfl

@[simp] theorem Sign.isOf_moved (sign : Sign) (line : Nat → Nat) (t : Token) :
    sign.isOf (t.moved line) = sign.isOf t := by
  cases sign <;> rfl

namespace Points

theorem entryAt_eq (h : Points S c s) {i : Nat} {tokens : List Token}
    (hrest : S.entries.drop i = S.holding tokens) : entryAt i s = .ok (S.next tokens) s := by
  unfold entryAt
  rw [h.entries, Slice.getElem?_of_drop hrest]

theorem peek_eq (h : Points S c s) : peek s = .ok (S.next c.rest) s := h.entryAt_eq h.rest

theorem isAtEnd_eq (h : Points S c s) : isAtEnd s = .ok c.rest.isEmpty s := by
  unfold isAtEnd
  rw [Action.bind_of_ok h.peek_eq]
  cases c.rest <;> rfl

theorem check_eq (h : Points S c s) (sign : Sign) :
    check sign s = .ok (c.rest.head?.any sign.isOf) s := by
  unfold check
  rw [Action.bind_of_ok h.isAtEnd_eq]
  cases hrest : c.rest with
  | nil => rfl
  | cons t rest =>
    refine (Action.bind_of_ok h.peek_eq).trans ?_
    rw [hrest]
    exact congrArg (Outcome.ok · s) (sign.isOf_moved S.line t)

/-- What follows a look at the next token. -/
theorem check_bind {α : Type} (h : Points S c s) (sign : Sign) (x y : Reads α) :
    (check sign >>= fun b => if b then x else y) s
      = if c.rest.head?.any sign.isOf then x s else y s := by
  rw [Action.bind_of_ok (h.check_eq sign)]
  split <;> rfl

theorem goesOn_eq (h : Points S c s) :
    goesOn s = .ok (c.rest.head?.any fun t => !t.isSymbol .rightBrace) s := by
  have hend : (isAtEnd >>= fun atEnd => pure !atEnd : Reads Bool) s = .ok (!c.rest.isEmpty) s :=
    Action.bind_of_ok h.isAtEnd_eq
  refine (h.check_bind _ _ _).trans ?_
  rw [hend]
  cases c.rest with
  | nil => rfl
  | cons t rest =>
    rw [List.head?_cons, Option.any_some, Option.any_some]
    change (if t.isSymbol .rightBrace = true then _ else _) = _
    cases t.isSymbol .rightBrace <;> rfl

/-- Behind the next token. -/
theorem past (h : Points S c s) (hrest : c.rest = t :: rest) :
    Behind S t { c with rest } { s with current := s.current + 1 } where
  entries := h.entries
  rest := by
    have hdrop := h.rest
    rw [hrest] at hdrop
    exact Slice.drop_succ hdrop
  nextId := h.nextId
  before := by
    have hdrop := h.rest
    rw [hrest] at hdrop
    exact ⟨s.current, rfl, Slice.getElem?_of_drop hdrop⟩

end Points

theorem Behind.previous_eq (h : Behind S t c s) :
    previous s = .ok (.token (t.moved S.line)) s := by
  obtain ⟨i, hcurrent, hentry⟩ := h.before
  unfold previous entryAt
  rw [hcurrent, Nat.add_sub_cancel, h.entries, hentry]

theorem Behind.drop_eq (h : Behind S t c s) :
    S.entries.drop (s.current - 1) = S.holding (t :: c.rest) := by
  obtain ⟨i, hcurrent, hentry⟩ := h.before
  obtain ⟨hi, hentry⟩ := List.getElem?_eq_some_iff.mp hentry
  have hrest := h.rest
  rw [hcurrent] at hrest
  rw [hcurrent, Nat.add_sub_cancel, List.drop_eq_getElem_cons hi, hentry, hrest]
  rfl

theorem Points.advance_eq (h : Points S c s) (hrest : c.rest = t :: rest) :
    advance s = .ok (.token (t.moved S.line)) { s with current := s.current + 1 } := by
  unfold advance
  rw [Action.bind_of_ok h.isAtEnd_eq, hrest]
  exact (h.past hrest).previous_eq

theorem Points.accept_of_pos (h : Points S c s) (hrest : c.rest = t :: rest)
    (ht : sign.isOf t = true) : accept sign s = .ok true { s with current := s.current + 1 } := by
  refine (h.check_bind sign _ _).trans ?_
  rw [hrest, List.head?_cons, Option.any_some, if_pos ht]
  exact Action.bind_of_ok (h.advance_eq hrest)

theorem Points.accept_of_neg (h : Points S c s) (hnone : ¬c.rest.head?.any sign.isOf = true) :
    accept sign s = .ok false s := by
  refine (h.check_bind sign _ _).trans ?_
  rw [if_neg hnone]
  rfl

/-- Behind the last token nothing is left to go on to. -/
theorem Points.advance_end (h : Points S c s) (hrest : c.rest = []) :
    ∃ e, advance s = .ok e s := by
  have hinside : s.current - 1 < S.entries.length := by
    have hlength := congrArg List.length h.rest
    rw [List.length_drop, Slice.holding, List.length_append, List.length_singleton] at hlength
    omega
  refine ⟨S.entries[s.current - 1], ?_⟩
  unfold advance
  rw [Action.bind_of_ok h.isAtEnd_eq, hrest]
  change entryAt (s.current - 1) s = _
  unfold entryAt
  rw [h.entries, List.getElem?_eq_getElem hinside]

end

/-! ## Rules that end alike -/

section
variable {α β γ δ : Type}

/-- How a rule ends over a slice when one over tokens ends in the given way. -/
inductive Agree (S : Slice) (φ : α → β) :
    Outcome Refusal Cursor α → Outcome Halt SliceParser β → Prop
  | ok {a : α} {b : β} {c : Cursor} {s : SliceParser} (hvalue : b = φ a) (h : Points S c s) :
    Agree S φ (.ok a c) (.ok b s)
  | error {r : Refusal} {o : Objection} {c : Cursor} {s : SliceParser}
    (hreport : Reported S r s.current o) (h : Points S c s) :
    Agree S φ (.error r c) (.error (.objection o) s)
  | outOfFuel : Agree S φ .outOfFuel .outOfFuel

/-- Over the slice the second rule does what the first one does over tokens. -/
def Mirrors (S : Slice) (φ : α → β) (x : Parser α) (y : Reads β) : Prop :=
  ∀ c s, Points S c s → Agree S φ (x c) (y s)

/-- The second rule does so behind this token. -/
def MirrorsBehind (S : Slice) (t : Token) (φ : α → β) (x : Parser α) (y : Reads β) : Prop :=
  ∀ c s, Behind S t c s → Agree S φ (x c) (y s)

variable {S : Slice} {φ : α → β} {ψ : γ → δ}

theorem Agree.of_eq {x : Outcome Refusal Cursor α} {y y' : Outcome Halt SliceParser β}
    (h : y = y') (hagree : Agree S φ x y') : Agree S φ x y := h ▸ hagree

theorem Agree.bind {x : Parser α} {y : Reads β} {f : α → Parser γ} {g : β → Reads δ} {c : Cursor}
    {s : SliceParser} (h : Agree S φ (x c) (y s))
    (hf : ∀ a c s, Points S c s → Agree S ψ (f a c) (g (φ a) s)) :
    Agree S ψ ((x >>= f) c) ((y >>= g) s) := by
  generalize hx : x c = o at h
  generalize hy : y s = o' at h
  cases h with
  | ok hvalue hpoints =>
    rw [Action.bind_of_ok hx, Action.bind_of_ok hy, hvalue]
    exact hf _ _ _ hpoints
  | error hreport hpoints =>
    rw [Action.bind_of_error hx, Action.bind_of_error hy]
    exact .error hreport hpoints
  | outOfFuel =>
    rw [Action.bind_of_outOfFuel hx, Action.bind_of_outOfFuel hy]
    exact .outOfFuel

namespace Mirrors

theorem behind {x : Parser α} {y : Reads β} (h : Mirrors S φ x y) (t : Token) :
    MirrorsBehind S t φ x y := fun c s hs => h c s hs.toPoints

theorem pure {a : α} {b : β} (h : b = φ a) :
    Mirrors S φ (Pure.pure a : Parser α) (Pure.pure b) := fun _ _ hs => .ok h hs

theorem outOfFuel : Mirrors S φ (Action.outOfFuel : Parser α) Action.outOfFuel :=
  fun _ _ _ => .outOfFuel

theorem bind {x : Parser α} {y : Reads β} {f : α → Parser γ} {g : β → Reads δ}
    (h : Mirrors S φ x y) (hf : ∀ a, Mirrors S ψ (f a) (g (φ a))) :
    Mirrors S ψ (x >>= f) (y >>= g) := fun c s hs => (h c s hs).bind hf

theorem map {f : α → γ} {g : β → δ} {x : Parser α} {y : Reads β} (h : Mirrors S φ x y)
    (hf : ∀ a, g (φ a) = ψ (f a)) : Mirrors S ψ (f <$> x) (g <$> y) :=
  h.bind fun a => pure (hf a)

/-- A rule that goes on in the one or in the other way. -/
theorem ite {p : Prop} [Decidable p] {x x' : Parser α} {y y' : Reads β} (h : Mirrors S φ x y)
    (h' : Mirrors S φ x' y') : Mirrors S φ (if p then x else x') (if p then y else y') := by
  by_cases hp : p
  · rw [if_pos hp, if_pos hp]
    exact h
  · rw [if_neg hp, if_neg hp]
    exact h'

/-- One of two rules, and what is read behind it. -/
theorem orElse {p : Prop} [Decidable p] {x x' : Parser α} {y y' : Reads β} {f : α → Parser γ}
    {g : β → Reads δ} (h : Mirrors S φ x y) (h' : Mirrors S φ x' y')
    (hf : ∀ a, Mirrors S ψ (f a) (g (φ a))) :
    Mirrors S ψ (if p then x >>= f else x' >>= f) (if p then y >>= g else y' >>= g) :=
  .ite (h.bind hf) (h'.bind hf)

end Mirrors

end

/-! ## Steps -/

section
variable {S : Slice} {α β γ δ : Type} {φ : α → β} {ψ : γ → δ} {sign : Sign}

theorem peek_mirrors : Mirrors S S.next remaining peek := by
  intro c s hs
  rw [hs.peek_eq]
  exact .ok rfl hs

theorem isAtEnd_mirrors : Mirrors S List.isEmpty remaining isAtEnd := by
  intro c s hs
  rw [hs.isAtEnd_eq]
  exact .ok rfl hs

theorem freshId_mirrors : Mirrors S (fun id => id) Parsing.freshId freshId := by
  intro c s hs
  exact .ok hs.nextId ⟨hs.entries, hs.rest, congrArg (· + 1) hs.nextId⟩

theorem object_mirrors (fault : SyntaxFault) (hfault : fault ≠ .assignmentTarget) :
    Mirrors S φ (refuse fault) (object fault) := by
  intro c s hs
  have hobject : (object fault : Reads β) s = .error (.objection
      ⟨fault, s.current, (S.next c.rest).lexeme, (S.next c.rest).line⟩) s :=
    Action.bind_of_ok hs.peek_eq
  rw [hobject]
  exact .error ⟨⟨rfl, hs.rest, rfl, rfl⟩, fun _ => rfl, fun h => absurd h hfault⟩ hs

theorem check_mirrors (sign : Sign) :
    Mirrors S (fun b => b) (fun c => .ok (c.rest.head?.any sign.isOf) c) (check sign) := by
  intro c s hs
  rw [hs.check_eq sign]
  exact .ok rfl hs

/-- A token that is known to be there is skipped, and so is the end. -/
theorem advance_mirrors {f : Unit → Parser γ} {g : Entry → Reads δ}
    (hf : ∀ e, Mirrors S ψ (f ()) (g e)) : Mirrors S ψ (skip >>= f) (advance >>= g) := by
  rintro ⟨tokens, nextId⟩ s hs
  cases tokens with
  | nil =>
    obtain ⟨e, hadvance⟩ := hs.advance_end rfl
    rw [Action.bind_of_ok hadvance]
    exact hf e _ s hs
  | cons t rest =>
    rw [Action.bind_of_ok (hs.advance_eq rfl)]
    exact hf _ _ _ (hs.past rfl).toPoints

theorem accept_mirrors (sign : Sign) :
    Mirrors S Option.isSome (takeIf sign.isOf) (accept sign) := by
  rintro ⟨tokens, nextId⟩ s hs
  cases tokens with
  | nil =>
    rw [hs.accept_of_neg Bool.false_ne_true]
    exact .ok rfl hs
  | cons t rest =>
    unfold takeIf
    dsimp only
    split
    · rename_i ht
      rw [hs.accept_of_pos rfl ht]
      exact .ok rfl (hs.past rfl).toPoints
    · rename_i ht
      rw [hs.accept_of_neg ht]
      exact .ok rfl hs

theorem consume_mirrors (sign : Sign) (fault : SyntaxFault) (hfault : fault ≠ .assignmentTarget) :
    Mirrors S (fun t => .token (t.moved S.line)) (expectIf sign.isOf fault)
      (consume sign fault) := by
  rintro ⟨tokens, nextId⟩ s hs
  unfold consume
  rw [hs.check_bind sign]
  cases tokens with
  | nil => exact object_mirrors fault hfault _ s hs
  | cons t rest =>
    rw [List.head?_cons, Option.any_some]
    unfold expectIf
    dsimp only
    by_cases ht : sign.isOf t = true
    · rw [if_pos ht, if_pos ht, hs.advance_eq rfl]
      exact .ok rfl (hs.past rfl).toPoints
    · rw [if_neg ht, if_neg ht]
      exact object_mirrors fault hfault _ s hs

theorem consumeSymbol_mirrors {symbol : Symbol} (fault : SyntaxFault)
    (hfault : fault ≠ .assignmentTarget) :
    Mirrors S (fun t => .token (t.moved S.line)) (expect symbol fault)
      (consumeSymbol symbol fault) :=
  consume_mirrors (.symbol symbol) fault hfault

theorem consumeName_mirrors (fault : SyntaxFault) (hfault : fault ≠ .assignmentTarget) :
    Mirrors S (Identifier.relabel S.lines) (expectName fault) (consumeName fault) :=
  (consume_mirrors .identifier fault hfault).bind fun _ => .pure rfl

theorem goesOn_mirrors : Mirrors S (fun b => b) Parsing.goesOn goesOn := by
  intro c s hs
  rw [hs.goesOn_eq]
  exact .ok rfl hs

/-! ## Alternatives -/

/-- The alternatives of a rule over tokens. -/
def choose (otherwise : Parser α) : List (Sign × (Token → Parser α)) → Parser α
  | [] => otherwise
  | (sign, rule) :: others => fun c =>
    match c.rest with
    | [] => choose otherwise others c
    | t :: rest =>
      if sign.isOf t then rule t { c with rest } else choose otherwise others c

/-- An alternative that does over the slice what another one does over tokens. -/
structure BranchMirrors (S : Slice) (φ : α → β) (b : Sign × (Token → Parser α))
    (b' : Branch β) : Prop where
  sign : b'.1 = b.1
  rule : ∀ t, b.1.isOf t = true → MirrorsBehind S t φ (b.2 t) b'.2

/-- An alternative that does not look at the token before it. -/
theorem BranchMirrors.plain {sign : Sign} {x : Parser α} {y : Reads β} (h : Mirrors S φ x y) :
    BranchMirrors S φ (sign, fun _ => x) (sign, y) :=
  ⟨rfl, fun t _ => h.behind t⟩

theorem firstOf_mirrors {otherwise : Parser α} {otherwise' : Reads β}
    {branches : List (Sign × (Token → Parser α))} {branches' : List (Branch β)}
    (hotherwise : Mirrors S φ otherwise otherwise')
    (h : List.Forall₂ (BranchMirrors S φ) branches branches') :
    Mirrors S φ (choose otherwise branches) (firstOf otherwise' branches') := by
  induction h with
  | nil => exact hotherwise
  | @cons b b' others others' hb _ ih =>
    obtain ⟨sign, rule⟩ := b
    obtain ⟨sign', rule'⟩ := b'
    obtain ⟨rfl, hrule⟩ := hb
    rintro ⟨tokens, nextId⟩ s hs
    unfold firstOf
    cases tokens with
    | nil =>
      rw [Action.bind_of_ok (hs.accept_of_neg Bool.false_ne_true)]
      exact ih _ _ hs
    | cons t rest =>
      unfold choose
      dsimp only
      split
      · rename_i ht
        rw [Action.bind_of_ok (hs.accept_of_pos rfl ht)]
        exact hrule t ht _ _ (hs.past rfl)
      · rename_i ht
        rw [Action.bind_of_ok (hs.accept_of_neg ht)]
        exact ih _ _ hs

end

end Indexed

end Parsing

end LoxLang
