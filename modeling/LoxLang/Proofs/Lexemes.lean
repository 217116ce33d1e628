import Mathlib
import LoxLang.Proofs.Lossless

/-!
# Lexemes

Which texts are tokens is said without the loops that read them. Each of these texts is read back
where it stands alone, so it has one kind.

* `Lexeme`: the texts that are tokens, each with its kind;
* `Lexeme.opens`: the first character of a lexeme fixes its class;
* `Lexeme.cut`: a lexeme with the end or blank space behind it is read back;
* `Lexeme.unique`, `Longest.unique`: the kind of a text, and the longest lexeme that it starts with.
-/

namespace LoxLang

open Scanning Utf8

/-! ## Lexemes -/

/-- Digits and nothing else. -/
def IsDigits (text : List Char) : Prop := text ≠ [] ∧ ∀ c ∈ text, c.isDigit = true

/-- The number that a text stands for: digits, perhaps with a point and more digits behind them. -/
inductive Numeral : List Char → Float → Prop
  | whole {digits : List Char} (h : IsDigits digits) :
    Numeral digits (nearestDouble (digitsValue digits) 0)
  | decimal {digits places : List Char} (h : IsDigits digits) (hplaces : IsDigits places) :
    Numeral (digits ++ '.' :: places)
      (nearestDouble (digitsValue (digits ++ places)) places.length)

/-- A letter or an underscore, and then letters, digits and underscores. -/
inductive IsWord : List Char → Prop
  | mk {first : Char} {others : List Char} (hfirst : first.isAlpha = true ∨ first = '_')
    (hothers : ∀ c ∈ others, c.isAlphanum = true ∨ c = '_') : IsWord (first :: others)

/-- The texts that are tokens. A word that is not reserved is an identifier, and a string goes on
to the next quote. -/
inductive Lexeme : TokenKind → List Char → Prop
  | symbol (s : Symbol) : Lexeme (.symbol s) s.spelling.toList
  | number {text : List Char} {value : Float} (h : Numeral text value) :
    Lexeme (.number value) text
  | keyword (k : Keyword) : Lexeme (.keyword k) k.spelling.toList
  | identifier {text : List Char} (h : IsWord text)
    (hfree : ∀ k : Keyword, text ≠ k.spelling.toList) : Lexeme .identifier text
  | string {body : List Char} (h : '"' ∉ body) :
    Lexeme (.string (String.ofList body)) ('"' :: (body ++ ['"']))

/-- The longest lexeme that a source starts with. -/
structure Longest (kind : TokenKind) (text source : List Char) : Prop where
  lexeme : Lexeme kind text
  starts : text <+: source
  longest : ∀ kind' text', Lexeme kind' text' → text' <+: source → text'.length ≤ text.length

/-! ## Classes of characters -/

section
variable {c : Char} {s : Symbol}

theorem isDigit_eq (c : Char) : isDigit c = c.isDigit := rfl

theorem isNameStart_iff : isNameStart c = true ↔ c.isAlpha = true ∨ c = '_' := by
  have hupper : c.isUpper = (decide ('A' ≤ c) && decide (c ≤ 'Z')) := by
    simp [Char.isUpper, Char.le_def]
  have hlower : c.isLower = (decide ('a' ≤ c) && decide (c ≤ 'z')) := by
    simp [Char.isLower, Char.le_def]
  rw [isNameStart, Char.isAlpha, hupper, hlower]
  simp [or_comm]

theorem isNamePart_iff : isNamePart c = true ↔ c.isAlphanum = true ∨ c = '_' := by
  have h := isNameStart_iff (c := c)
  rw [isNamePart, Char.isAlphanum, Bool.or_eq_true, Bool.or_eq_true, h, isDigit_eq]
  exact or_right_comm

/-- A character that is a symbol starts nothing else. -/
theorem single?_excludes (h : single? c = some s) :
    isBlank c = false ∧ c ≠ '"' ∧ isDigit c = false ∧ isNameStart c = false := by
  unfold single? at h
  split at h <;> first | decide | cases h

theorem withEqual?_excludes (h : withEqual? c = some s) :
    isBlank c = false ∧ c ≠ '"' ∧ isDigit c = false ∧ isNameStart c = false := by
  unfold withEqual? at h
  split at h <;> first | decide | cases h

theorem withEqual?_of_single? (h : single? c = none) : withEqual? c = none := by
  unfold withEqual?
  split <;> first | rfl | cases h

theorem isDigit_excludes (h : isDigit c = true) :
    isBlank c = false ∧ c ≠ '"' ∧ isNameStart c = false := by
  have hle : '0' ≤ c ∧ c ≤ '9' := by simpa [isDigit] using h
  refine ⟨?_, by rintro rfl; exact absurd h (by decide), ?_⟩
  · rw [← Bool.not_eq_true, isBlank]
    simp only [Bool.or_eq_true, beq_iff_eq]
    rintro (((rfl | rfl) | rfl) | rfl) <;> exact absurd h (by decide)
  · rw [← Bool.not_eq_true, isNameStart]
    simp only [Bool.or_eq_true, Bool.and_eq_true, decide_eq_true_eq, beq_iff_eq]
    rintro ((hletter | hletter) | rfl)
    · exact absurd (Char.le_trans hletter.1 hle.2) (by decide)
    · exact absurd (Char.le_trans hletter.1 hle.2) (by decide)
    · exact absurd h (by decide)

theorem isNameStart_excludes (h : isNameStart c = true) : isBlank c = false ∧ c ≠ '"' := by
  constructor
  · rw [← Bool.not_eq_true, isBlank]
    simp only [Bool.or_eq_true, beq_iff_eq]
    rintro (((rfl | rfl) | rfl) | rfl) <;> exact absurd h (by decide)
  · rintro rfl
    exact absurd h (by decide)

end

/-! ## The first character of a lexeme -/

section
variable {c : Char} {kind kind' : TokenKind} {text text' rest others source : List Char}

theorem IsDigits.all (h : IsDigits text) : ∀ c ∈ text, isDigit c = true := h.2

theorem Numeral.head_isDigit {value : Float} (h : Numeral (c :: text) value) :
    isDigit c = true := by
  generalize htext : c :: text = whole at h
  cases h with
  | whole h =>
    subst htext
    exact h.2 c List.mem_cons_self
  | @decimal digits places h _ =>
    obtain ⟨d, digits, rfl⟩ := List.exists_cons_of_ne_nil h.1
    cases htext
    exact h.2 c List.mem_cons_self

theorem IsWord.parts (h : IsWord text) : ∀ c ∈ text, isNamePart c = true := by
  obtain ⟨hfirst, hothers⟩ := h
  refine List.forall_mem_cons.mpr ⟨?_, fun c hc => isNamePart_iff.mpr (hothers c hc)⟩
  rw [isNamePart, isNameStart_iff.mpr hfirst, Bool.true_or]

theorem IsWord.head_isNameStart (h : IsWord (c :: text)) : isNameStart c = true := by
  cases h with
  | mk hfirst _ => exact isNameStart_iff.mpr hfirst

theorem IsWord.of_isNamePart (hc : isNameStart c = true) (h : ∀ d ∈ text, isNamePart d = true) :
    IsWord (c :: text) :=
  .mk (isNameStart_iff.mp hc) fun d hd => isNamePart_iff.mp (h d hd)

theorem Keyword.isWord (k : Keyword) : IsWord k.spelling.toList := by
  cases k <;> exact .of_isNamePart (by decide) (List.all_eq_true.mp (by decide))

theorem ofSpelling?_spelling (k : Keyword) : Keyword.ofSpelling? k.spelling = some k := by
  cases k <;> decide

theorem spelling_of_ofSpelling? {word : String} {k : Keyword}
    (h : Keyword.ofSpelling? word = some k) : k.spelling = word := by
  unfold Keyword.ofSpelling? at h
  simpa using List.find?_some h

theorem wordKind_spelling (k : Keyword) : wordKind k.spelling.toList = .keyword k := by
  unfold wordKind
  rw [String.ofList_toList, ofSpelling?_spelling]

/-- A word that is not reserved. -/
theorem wordKind_free (h : ∀ k : Keyword, text ≠ k.spelling.toList) :
    wordKind text = .identifier := by
  unfold wordKind
  cases hk : Keyword.ofSpelling? (String.ofList text) with
  | none => rfl
  | some k =>
    have hspelling := spelling_of_ofSpelling? hk
    exact absurd (by rw [hspelling, String.toList_ofList]) (h k)

/-- A word is the lexeme of one kind. -/
theorem IsWord.lexeme (h : IsWord text) : Lexeme (wordKind text) text := by
  by_cases hfree : ∀ k : Keyword, text ≠ k.spelling.toList
  · rw [wordKind_free hfree]
    exact .identifier h hfree
  · obtain ⟨k, hk⟩ := not_forall.mp hfree
    rw [not_not.mp hk, wordKind_spelling]
    exact .keyword k

/-- The class of a lexeme, by its first character. -/
inductive Opens (c : Char) (text : List Char) : TokenKind → Prop
  | single {s : Symbol} (hs : single? c = some s) (h : text = []) : Opens c text (.symbol s)
  | double {s : Symbol} (hs : withEqual? c = some s) (h : text = ['=']) : Opens c text (.symbol s)
  | number {value : Float} (h : Numeral (c :: text) value) : Opens c text (.number value)
  | word (h : IsWord (c :: text)) : Opens c text (wordKind (c :: text))
  | string {body : List Char} (hc : c = '"') (h : '"' ∉ body) (htext : text = body ++ ['"']) :
    Opens c text (.string (String.ofList body))

theorem Lexeme.opens (h : Lexeme kind (c :: text)) : Opens c text kind := by
  generalize htext : c :: text = whole at h
  cases h with
  | symbol s => cases s <;> cases htext <;> first | exact .single rfl rfl | exact .double rfl rfl
  | number h =>
    subst htext
    exact .number h
  | keyword k =>
    have hword := k.isWord
    rw [← wordKind_spelling k, ← htext]
    rw [← htext] at hword
    exact .word hword
  | identifier h hfree =>
    rw [← wordKind_free hfree, ← htext]
    rw [← htext] at h
    exact .word h
  | string h =>
    cases htext
    exact .string rfl h rfl

/-! ## A lexeme with blank space behind it -/

/-- Nothing, or blank space and more. -/
def Apart (behind : List Char) : Prop := ∀ b ∈ behind.head?, isBlank b = true

theorem Apart.nil : Apart [] := fun _ hb => by cases hb

theorem run_append {p : Char → Bool} {run behind : List Char} (hrun : ∀ c ∈ run, p c = true)
    (hstop : ∀ b ∈ behind.head?, p b = false) :
    (run ++ behind).takeWhile p = run ∧ (run ++ behind).dropWhile p = behind := by
  rw [List.takeWhile_append_of_pos hrun, List.dropWhile_append_of_pos hrun]
  cases behind with
  | nil => simp
  | cons b rest =>
    have hb := hstop b rfl
    simp [hb]

variable {behind : List Char}

theorem Apart.stops {p : Char → Bool} (h : Apart behind)
    (hp : ∀ b, isBlank b = true → p b = false) : ∀ b ∈ behind.head?, p b = false :=
  fun b hb => hp b (h b hb)

theorem isBlank_excludes (h : isBlank c = true) :
    isDigit c = false ∧ isNamePart c = false ∧ c ≠ '.' ∧ c ≠ '=' ∧ c ≠ '/' := by
  simp only [isBlank, Bool.or_eq_true, beq_iff_eq] at h
  obtain ((rfl | rfl) | rfl) | rfl := h <;> decide

/-- What is neither blank nor part of a comment. -/
theorem cut_of_visible (hblank : isBlank c = false)
    (hcomment : ¬(c = '/' ∧ rest.head? = some '/')) :
    cut c rest =
      if c == '"' then cutString rest
      else if isDigit c then cutNumber (c :: rest)
      else if isNameStart c then cutWord (c :: rest)
      else cutSymbol c rest := by
  have hslashes : (c == '/' && rest.head? == some '/') = false := by
    rw [← Bool.not_eq_true, Bool.and_eq_true, beq_iff_eq, beq_iff_eq]
    exact hcomment
  unfold cut
  rw [hblank, hslashes]
  rfl

/-- Digits with a point and a digit behind them. -/
theorem cutNumber_point {digits : List Char} {d : Char} (h : IsDigits digits)
    (hd : isDigit d = true) (rest : List Char) :
    let places := (d :: rest).takeWhile isDigit
    cutNumber (digits ++ '.' :: d :: rest)
      = ⟨.token (.number (nearestDouble (digitsValue (digits ++ places)) places.length)),
          digits ++ '.' :: places, (d :: rest).dropWhile isDigit⟩ := by
  have hpoint : ∀ b ∈ ('.' :: d :: rest).head?, isDigit b = false := by
    rintro b ⟨⟩
    decide
  obtain ⟨htake, hdrop⟩ := run_append h.all hpoint
  unfold cutNumber
  rw [htake, hdrop]
  simp only [hd, if_true]

theorem Numeral.cut {value : Float} (h : Numeral text value) (hbehind : Apart behind) :
    cutNumber (text ++ behind) = ⟨.token (.number value), text, behind⟩ := by
  have hstop := hbehind.stops fun b hb => (isBlank_excludes hb).1
  cases h with
  | whole h =>
    have hpoint : ∀ d rest, behind ≠ '.' :: d :: rest := by
      rintro d rest rfl
      exact absurd (hbehind '.' rfl) (by decide)
    obtain ⟨htake, hdrop⟩ := run_append h.all hstop
    unfold cutNumber
    rw [htake, hdrop]
    split
    · exact absurd rfl (hpoint _ _)
    · rfl
  | @decimal digits places h hplaces =>
    obtain ⟨htake, hdrop⟩ := run_append hplaces.all hstop
    obtain ⟨d, more, rfl⟩ := List.exists_cons_of_ne_nil hplaces.1
    have hpoint := cutNumber_point h (hplaces.2 d List.mem_cons_self) (more ++ behind)
    rw [List.cons_append] at htake hdrop
    rw [htake, hdrop] at hpoint
    rw [List.append_assoc]
    exact hpoint

theorem IsWord.cut (h : IsWord text) (hbehind : Apart behind) :
    cutWord (text ++ behind) = ⟨.token (wordKind text), text, behind⟩ := by
  obtain ⟨htake, hdrop⟩ :=
    run_append h.parts (hbehind.stops fun b hb => (isBlank_excludes hb).2.1)
  unfold cutWord
  rw [htake, hdrop]

theorem bne_of_not_mem {a : Char} (h : a ∉ text) : ∀ c ∈ text, (c != a) = true := by
  intro c hc
  rw [bne_iff_ne]
  rintro rfl
  exact h hc

theorem cutString_closed {body : List Char} (h : '"' ∉ body) (behind : List Char) :
    cutString (body ++ '"' :: behind)
      = ⟨.token (.string (String.ofList body)), '"' :: (body ++ ['"']), behind⟩ := by
  have hquote : ∀ b ∈ ('"' :: behind).head?, (b != '"') = false := by
    rintro b ⟨⟩
    decide
  obtain ⟨htake, hdrop⟩ := run_append (bne_of_not_mem h) hquote
  unfold cutString
  rw [htake, hdrop]

/-- **A lexeme is read back**, with the end or blank space behind it. -/
theorem Lexeme.cut (h : Lexeme kind (c :: text)) (hbehind : Apart behind) :
    cut c (text ++ behind) = ⟨.token kind, c :: text, behind⟩ := by
  cases h.opens with
  | @single s hs htext =>
    subst htext
    obtain ⟨hblank, hquote, hdigit, hname⟩ := single?_excludes hs
    have hne {d : Char} (hd : isBlank d = false) : behind.head? ≠ some d := fun hhead => by
      rw [hbehind d hhead] at hd
      cases hd
    rw [List.nil_append, cut_of_visible hblank fun ⟨_, hslash⟩ => hne (by decide) hslash]
    simp only [beq_eq_false_iff_ne.mpr hquote, hdigit, hname, Bool.false_eq_true, if_false]
    rw [ByteScanner.cutSymbol_single (.inr (hne (by decide))), hs]
  | double hs htext =>
    subst htext
    obtain ⟨hblank, hquote, hdigit, hname⟩ := withEqual?_excludes hs
    rw [cut_of_visible hblank fun ⟨_, hslash⟩ => absurd hslash (by simp)]
    simp only [beq_eq_false_iff_ne.mpr hquote, hdigit, hname, Bool.false_eq_true, if_false]
    exact ByteScanner.cutSymbol_longer hs behind
  | number hnumber =>
    have hdigit := hnumber.head_isDigit
    obtain ⟨hblank, hquote, -⟩ := isDigit_excludes hdigit
    rw [cut_of_visible hblank fun ⟨hslash, _⟩ => absurd hdigit (by rw [hslash]; decide)]
    simp only [beq_eq_false_iff_ne.mpr hquote, hdigit, Bool.false_eq_true, if_false, if_true]
    exact hnumber.cut hbehind
  | word hword =>
    have hname := hword.head_isNameStart
    obtain ⟨hblank, hquote⟩ := isNameStart_excludes hname
    have hdigit : isDigit c = false := by
      rw [← Bool.not_eq_true]
      intro hdigit
      rw [(isDigit_excludes hdigit).2.2] at hname
      cases hname
    rw [cut_of_visible hblank fun ⟨hslash, _⟩ => absurd hname (by rw [hslash]; decide)]
    simp only [beq_eq_false_iff_ne.mpr hquote, hdigit, hname, Bool.false_eq_true, if_false, if_true]
    exact hword.cut hbehind
  | @string body hc hbody htext =>
    subst hc htext
    rw [List.append_assoc]
    exact cutString_closed hbody behind

theorem Lexeme.ne_nil (h : Lexeme kind text) : text ≠ [] := by
  cases h with
  | symbol s => cases s <;> decide
  | keyword k => cases k <;> decide
  | number h =>
    cases h with
    | whole h => exact h.1
    | decimal => simp
  | identifier h _ =>
    cases h
    exact List.cons_ne_nil _ _
  | string => exact List.cons_ne_nil _ _

/-- A text is the lexeme of one kind. -/
theorem Lexeme.unique (h : Lexeme kind text) (h' : Lexeme kind' text) : kind = kind' := by
  obtain ⟨c, rest, rfl⟩ := List.exists_cons_of_ne_nil h.ne_nil
  have hcut := (h.cut .nil).symm.trans (h'.cut .nil)
  exact Matter.token.inj (congrArg Cut.matter hcut)

theorem Longest.unique (h : Longest kind text source) (h' : Longest kind' text' source) :
    kind = kind' ∧ text = text' := by
  have hlength := Nat.le_antisymm (h'.longest _ _ h.lexeme h.starts)
    (h.longest _ _ h'.lexeme h'.starts)
  have htext : text = text' :=
    (List.prefix_of_prefix_length_le h.starts h'.starts hlength.le).eq_of_length hlength
  subst htext
  exact ⟨h.lexeme.unique h'.lexeme, rfl⟩

end

end LoxLang
