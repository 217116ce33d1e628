import LoxLang.Token.Scan

/-!
# Texts one after the other

A newline ends every token but a string literal, which has its closing quote unless there is a
fault. So the tokens of two sources with a newline between them are those of the one and then those
of the other, whose lines are moved.

* `cut_newline`: what stands behind a newline does not change the first piece of a text;
* `pieces_append`, `pieces_moved`: the pieces of two texts in a row, and of a text further down;
* `scan_joined`: the tokens of two sources in a row.
-/

namespace LoxLang

/-- A token of another line. -/
def Token.moved (line : Nat → Nat) (t : Token) : Token := { t with line := line t.line }

@[simp] theorem Token.kind_moved (line : Nat → Nat) (t : Token) :
    (t.moved line).kind = t.kind := rfl

@[simp] theorem Token.lexeme_moved (line : Nat → Nat) (t : Token) :
    (t.moved line).lexeme = t.lexeme := rfl

@[simp] theorem Token.line_moved (line : Nat → Nat) (t : Token) :
    (t.moved line).line = line t.line := rfl

namespace Scanning

section
variable {p : Char → Bool} (text behind : List Char)

theorem takeWhile_newline (h : p '\n' = false) :
    (text ++ '\n' :: behind).takeWhile p = text.takeWhile p := by
  induction text with
  | nil => simp [h]
  | cons c rest ih =>
    cases hc : p c with
    | true => simp [hc, ih]
    | false => simp [hc]

theorem dropWhile_newline (h : p '\n' = false) :
    (text ++ '\n' :: behind).dropWhile p = text.dropWhile p ++ '\n' :: behind := by
  induction text with
  | nil => simp [h]
  | cons c rest ih =>
    cases hc : p c with
    | true => simp [hc, ih]
    | false => simp [hc]

/-- What stands behind the end of a run of characters does not change the run. -/
theorem takeWhile_append_of_drop {q : Char} {text rest : List Char}
    (h : text.dropWhile p = q :: rest) :
    (text ++ behind).takeWhile p = text.takeWhile p ∧
      (text ++ behind).dropWhile p = q :: (rest ++ behind) := by
  induction text with
  | nil => cases h
  | cons c text ih =>
    cases hc : p c with
    | true =>
      rw [List.dropWhile_cons_of_pos hc] at h
      obtain ⟨htake, hdrop⟩ := ih h
      rw [List.cons_append, List.takeWhile_cons_of_pos hc, List.takeWhile_cons_of_pos hc,
        List.dropWhile_cons_of_pos hc, htake]
      exact ⟨rfl, hdrop⟩
    | false =>
      rw [List.dropWhile_cons_of_neg (by simp [hc])] at h
      cases h
      simp [hc]

/-- The same piece, with a newline and more text behind it. -/
def Cut.before (c : Cut) : Cut := { c with rest := c.rest ++ '\n' :: behind }

theorem cutString_newline {text : List Char}
    (h : (cutString text).matter ≠ .fault .unterminatedString) :
    cutString (text ++ '\n' :: behind) = (cutString text).before behind := by
  unfold cutString at h ⊢
  cases hdrop : text.dropWhile (· != '"') with
  | nil =>
    rw [hdrop] at h
    exact absurd rfl h
  | cons q rest =>
    obtain ⟨htake, hdrop'⟩ := takeWhile_append_of_drop ('\n' :: behind) hdrop
    rw [htake, hdrop']
    rfl

theorem cutNumber_newline :
    cutNumber (text ++ '\n' :: behind) = (cutNumber text).before behind := by
  unfold cutNumber
  have hnewline : isDigit '\n' = false := by decide
  rw [takeWhile_newline text behind hnewline, dropWhile_newline text behind hnewline]
  generalize text.takeWhile isDigit = whole
  match text.dropWhile isDigit with
  | [] => rfl
  | [c] =>
    by_cases hc : c = '.'
    · subst hc
      simp [hnewline, Cut.before]
    · simp [hc, Cut.before]
  | c :: d :: rest =>
    by_cases hc : c = '.'
    · subst hc
      cases hd : isDigit d with
      | true =>
        have htake := takeWhile_newline (d :: rest) behind hnewline
        have hdrop := dropWhile_newline (d :: rest) behind hnewline
        simp only [List.cons_append] at htake hdrop
        simp only [List.cons_append, hd, htake, hdrop, if_true]
        rfl
      | false => simp [hd, Cut.before]
    · simp [hc, Cut.before]

theorem cutWord_newline : cutWord (text ++ '\n' :: behind) = (cutWord text).before behind := by
  have hnewline : isNamePart '\n' = false := by decide
  unfold cutWord
  rw [takeWhile_newline text behind hnewline, dropWhile_newline text behind hnewline]
  rfl

theorem cutSymbol_newline (c : Char) :
    cutSymbol c (text ++ '\n' :: behind) = (cutSymbol c text).before behind := by
  unfold cutSymbol
  cases text with
  | nil => cases withEqual? c <;> cases single? c <;> rfl
  | cons d rest =>
    by_cases hd : d = '='
    · subst hd
      cases withEqual? c <;> cases single? c <;> rfl
    · cases withEqual? c <;> cases single? c <;> simp [hd, Cut.before]

/-- Text behind a newline does not change the piece at the front, unless that is a string literal
without an end. -/
theorem cut_newline {c : Char} {text : List Char}
    (h : (cut c text).matter ≠ .fault .unterminatedString) :
    cut c (text ++ '\n' :: behind) = (cut c text).before behind := by
  have hhead : ((text ++ '\n' :: behind).head? == some '/') = (text.head? == some '/') := by
    cases text <;> rfl
  unfold cut at h ⊢
  rw [hhead]
  by_cases hblank : isBlank c = true
  · simp only [if_pos hblank]
    rfl
  by_cases hcomment : (c == '/' && text.head? == some '/') = true
  · have htake : (text ++ '\n' :: behind).takeWhile (· != '\n') = text.takeWhile (· != '\n') :=
      takeWhile_newline text behind (by decide)
    have hdrop : (text ++ '\n' :: behind).dropWhile (· != '\n')
        = text.dropWhile (· != '\n') ++ '\n' :: behind := dropWhile_newline text behind (by decide)
    simp only [if_neg hblank, if_pos hcomment, htake, hdrop]
    rfl
  by_cases hquote : (c == '"') = true
  · simp only [if_neg hblank, if_neg hcomment, if_pos hquote] at h ⊢
    exact cutString_newline behind h
  by_cases hdigit : isDigit c = true
  · simp only [if_neg hblank, if_neg hcomment, if_neg hquote, if_pos hdigit]
    exact cutNumber_newline (c :: text) behind
  by_cases hname : isNameStart c = true
  · simp only [if_neg hblank, if_neg hcomment, if_neg hquote, if_neg hdigit, if_pos hname]
    exact cutWord_newline (c :: text) behind
  · simp only [if_neg hblank, if_neg hcomment, if_neg hquote, if_neg hdigit, if_neg hname]
    exact cutSymbol_newline text behind c

end

/-- No string literal among the pieces is without an end. -/
def Terminated (ps : List Piece) : Prop := ∀ p ∈ ps, p.matter ≠ .fault .unterminatedString

theorem pieces_append {line : Nat} {text : List Char} (behind : List Char)
    (h : Terminated (pieces line text)) :
    pieces line (text ++ '\n' :: behind)
      = pieces line text ++ ⟨.blank, ['\n'], line + text.count '\n' + 1⟩ ::
        pieces (line + text.count '\n' + 1) behind := by
  fun_induction pieces line text with
  | case1 line =>
    rw [List.nil_append, pieces]
    rfl
  | case2 line c rest first line' ih =>
    obtain ⟨hfirst, hrest⟩ := List.forall_mem_cons.mp h
    have hcut : cut c (rest ++ '\n' :: behind) = first.before behind := cut_newline behind hfirst
    have hcount : line + (c :: rest).count '\n' = line' + first.rest.count '\n' := by
      rw [← cut_append c rest, List.count_append, ← Nat.add_assoc]
    rw [List.cons_append, pieces, hcut, hcount]
    exact congrArg (List.cons _) (ih hrest)

theorem pieces_moved (line k : Nat) (text : List Char) :
    pieces (line + k) text = (pieces line text).map fun p => { p with line := p.line + k } := by
  fun_induction pieces line text with
  | case1 line =>
    rw [pieces]
    rfl
  | case2 line c rest first line' ih =>
    have hline : line + k + first.text.count '\n' = line' + k := Nat.add_right_comm _ _ _
    rw [pieces]
    change _ :: pieces (line + k + first.text.count '\n') first.rest = _
    rw [hline, ih]
    rfl

end Scanning

open Scanning

namespace Scan

theorem sort_tokens (tokens : List Token) : sort (tokens.map .token) = (tokens, []) := by
  induction tokens with
  | nil => rfl
  | cons t rest ih => rw [List.map_cons, sort, ih]

theorem sort_faultless {items : List Item} (h : (sort items).2 = []) :
    items = (sort items).1.map .token := by
  induction items with
  | nil => rfl
  | cons item rest ih =>
    cases item with
    | token t => exact congrArg (List.cons (Item.token t)) (ih h)
    | fault e => cases h

/-- A source is without faults just when all its items are tokens. -/
theorem tokens?_eq_ok {s : Scan} {stream : TokenStream} :
    s.tokens? = .ok stream ↔ s.items = stream.tokens.map .token ∧ s.endLine = stream.endLine := by
  unfold tokens?
  constructor
  · intro h
    split at h
    · rename_i tokens hsort
      cases h
      have hnone : (sort s.items).2 = [] := by rw [hsort]
      have hitems := sort_faultless hnone
      rw [hsort] at hitems
      exact ⟨hitems, rfl⟩
    · cases h
  · rintro ⟨hitems, hline⟩
    rw [hitems, sort_tokens, hline]

end Scan

theorem Scanning.terminated_of_tokens {line : Nat} {text : List Char} {tokens : List Token}
    (h : (pieces line text).filterMap (·.item?) = tokens.map .token) :
    Terminated (pieces line text) := by
  intro p hp hfault
  have hitem : p.item? = some (.fault ⟨.unterminatedString, p.line⟩) := by
    unfold Piece.item?
    rw [hfault]
  have hmem := List.mem_filterMap.mpr ⟨p, hp, hitem⟩
  rw [h] at hmem
  obtain ⟨t, -, ht⟩ := List.mem_map.mp hmem
  cases ht

/-- An item so many lines further down. -/
def Item.moved (k : Nat) : Item → Item
  | .token t => .token (t.moved (· + k))
  | .fault e => .fault { e with line := e.line + k }

theorem Scanning.items_moved (k : Nat) {ps : List Piece} {tokens : List Token}
    (h : ps.filterMap (·.item?) = tokens.map .token) :
    (ps.map fun p => { p with line := p.line + k }).filterMap (·.item?)
      = (tokens.map (Token.moved (· + k))).map .token := by
  have hitem : ∀ p : Piece,
      ({ p with line := p.line + k } : Piece).item? = p.item?.map (Item.moved k) := by
    intro p
    unfold Piece.item?
    cases p.matter <;> rfl
  rw [List.filterMap_map]
  change ps.filterMap (fun p => ({ p with line := p.line + k } : Piece).item?) = _
  simp only [hitem]
  rw [← List.map_filterMap, h, List.map_map, List.map_map]
  rfl

/-- **No token crosses the newline between two sources.** The tokens of both in a row are those of
the first one and those of the second one, as many lines further down as the first one has. -/
theorem scan_joined {first second : String} {stream stream' : TokenStream}
    (h : (scan first).tokens? = .ok stream) (h' : (scan second).tokens? = .ok stream') :
    (scan (first ++ "\n" ++ second)).tokens? = .ok
      ⟨stream.tokens ++ stream'.tokens.map (Token.moved (· + stream.endLine)),
        stream'.endLine + stream.endLine⟩ := by
  obtain ⟨hitems, hline⟩ := Scan.tokens?_eq_ok.mp h
  obtain ⟨hitems', hline'⟩ := Scan.tokens?_eq_ok.mp h'
  have htext : (first ++ "\n" ++ second).toList = first.toList ++ '\n' :: second.toList := by
    simp [String.toList_append]
  have hbehind : 1 + first.toList.count '\n' + 1 = 1 + stream.endLine := by
    rw [← hline, Nat.add_comm]
    rfl
  rw [Scan.tokens?_eq_ok]
  constructor
  · change (pieces 1 first.toList).filterMap (·.item?) = _ at hitems
    change (pieces 1 (first ++ "\n" ++ second).toList).filterMap (·.item?) = _
    rw [htext, pieces_append _ (terminated_of_tokens hitems), hbehind, pieces_moved,
      List.filterMap_append, hitems, List.map_append, ← items_moved _ hitems']
    rfl
  · change 1 + (first ++ "\n" ++ second).toList.count '\n' = stream'.endLine + stream.endLine
    rw [htext, List.count_append, List.count_cons_self, ← hline, ← hline']
    change _ = 1 + second.toList.count '\n' + (1 + first.toList.count '\n')
    omega

end LoxLang
