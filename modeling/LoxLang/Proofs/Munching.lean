import LoxLang.Proofs.Lexemes

/-!
# Maximal munch

At every place of a source the scanner reads the longest lexeme that starts there, and a fault only
where none does.

* `Munched`, `cut_munched`: what the first piece of a text is, one lemma for each of the loops;
* `Emission.ReadFrom`: what is yielded for a text with another one behind it;
* `items_are_longest_lexemes`: for everything that the scanner yields.
-/

namespace LoxLang

open Scanning Utf8

section
variable {c : Char} {kind kind' : TokenKind} {text text' rest source : List Char}

/-! ## The first piece of a text -/

/-- What is read where neither blank space nor a comment starts: the longest lexeme; or a character
that no lexeme starts with; or a quote without another one behind it, and all that follows. -/
inductive Munched (c : Char) (rest : List Char) : Cut → Prop
  | token {kind : TokenKind} {text behind : List Char} (h : Longest kind text (c :: rest)) :
    Munched c rest ⟨.token kind, text, behind⟩
  | unexpected (hc : c ≠ '"') (hnone : ∀ kind text, ¬Lexeme kind (c :: text)) :
    Munched c rest ⟨.fault (.unexpectedCharacter c), [c], rest⟩
  | unterminated (hc : c = '"') (hopen : '"' ∉ rest) :
    Munched c rest ⟨.fault .unterminatedString, c :: rest, []⟩

/-- A lexeme that starts a text starts with its first character. -/
theorem Lexeme.opens_of_starts (h : Lexeme kind text) (hstarts : text <+: c :: rest) :
    ∃ more, text = c :: more ∧ more <+: rest ∧ Opens c more kind := by
  obtain ⟨d, more, rfl⟩ := List.exists_cons_of_ne_nil h.ne_nil
  obtain ⟨rfl, hmore⟩ := List.cons_prefix_cons.mp hstarts
  exact ⟨more, rfl, hmore, h.opens⟩

theorem Opens.quote (h : Opens '"' text kind) : ∃ body, '"' ∉ body ∧ text = body ++ ['"'] := by
  cases h with
  | single hs => cases hs
  | double hs => cases hs
  | number h => exact absurd h.head_isDigit (by decide)
  | word h => exact absurd h.head_isNameStart (by decide)
  | string _ h htext => exact ⟨_, h, htext⟩

theorem Opens.digit (h : Opens c text kind) (hc : isDigit c = true) :
    ∃ value, Numeral (c :: text) value := by
  obtain ⟨-, hquote, hname⟩ := isDigit_excludes hc
  cases h with
  | single hs => exact absurd hc (by simp [single?_excludes hs])
  | double hs => exact absurd hc (by simp [withEqual?_excludes hs])
  | number h => exact ⟨_, h⟩
  | word h => exact absurd h.head_isNameStart (by simp [hname])
  | string h => exact absurd h hquote

theorem Opens.name (h : Opens c text kind) (hc : isNameStart c = true) : IsWord (c :: text) := by
  have hquote := (isNameStart_excludes hc).2
  cases h with
  | single hs => exact absurd hc (by simp [single?_excludes hs])
  | double hs => exact absurd hc (by simp [withEqual?_excludes hs])
  | number h => exact absurd hc (by simp [isDigit_excludes h.head_isDigit])
  | word h => exact h
  | string h => exact absurd h hquote

theorem Opens.symbol (h : Opens c text kind) (hquote : c ≠ '"') (hdigit : isDigit c = false)
    (hname : isNameStart c = false) :
    (single? c).isSome = true ∧ text = [] ∨ (withEqual? c).isSome = true ∧ text = ['='] := by
  cases h with
  | single hs htext => exact .inl ⟨by simp [hs], htext⟩
  | double hs htext => exact .inr ⟨by simp [hs], htext⟩
  | number h => exact absurd h.head_isDigit (by simp [hdigit])
  | word h => exact absurd h.head_isNameStart (by simp [hname])
  | string h => exact absurd h hquote

theorem cutString_munched (rest : List Char) : Munched '"' rest (cutString rest) := by
  by_cases hclosed : '"' ∈ rest
  · obtain ⟨body, behind, rfl, hbody⟩ := List.eq_append_cons_of_mem hclosed
    rw [cutString_closed hbody]
    refine .token ⟨.string hbody, ⟨behind, by simp⟩, fun kind text h hstarts => ?_⟩
    obtain ⟨more, rfl, ⟨left, hleft⟩, hopens⟩ := h.opens_of_starts hstarts
    obtain ⟨body', hbody', rfl⟩ := hopens.quote
    rw [List.append_assoc] at hleft
    have hcut := (cutString_closed hbody' left).symm.trans
      ((congrArg cutString hleft).trans (cutString_closed hbody behind))
    exact Nat.le_of_eq (congrArg (·.text.length) hcut)
  · have hall := bne_of_not_mem hclosed
    have hcut : cutString rest = ⟨.fault .unterminatedString, '"' :: rest, []⟩ := by
      unfold cutString
      rw [List.takeWhile_eq_self_iff.mpr hall, List.dropWhile_eq_nil_iff.mpr hall]
    rw [hcut]
    exact .unterminated rfl hclosed

/-- No number that a text starts with is longer than the one that is read. -/
theorem cutNumber_longest {value : Float} (h : Numeral text value) (hstarts : text <+: source) :
    text.length ≤ (cutNumber source).text.length := by
  obtain ⟨behind, rfl⟩ := hstarts
  cases h with
  | whole h =>
    rw [(ByteScanner.cutNumber_eq _).2, List.takeWhile_append_of_pos h.all, List.append_assoc,
      List.length_append]
    exact Nat.le_add_right _ _
  | @decimal digits places h hplaces =>
    obtain ⟨d, more, rfl⟩ := List.exists_cons_of_ne_nil hplaces.1
    have hpoint := cutNumber_point h (hplaces.all d List.mem_cons_self) (more ++ behind)
    rw [← List.cons_append, List.takeWhile_append_of_pos hplaces.all] at hpoint
    rw [List.append_assoc, List.cons_append, hpoint]
    simp

theorem isDigits_takeWhile (hc : isDigit c = true) (rest : List Char) :
    IsDigits ((c :: rest).takeWhile isDigit) := by
  constructor
  · rw [List.takeWhile_cons_of_pos hc]
    exact List.cons_ne_nil _ _
  · exact fun d hd => List.mem_takeWhile_imp hd

theorem cutNumber_numeral (hc : isDigit c = true) (rest : List Char) :
    ∃ value, (cutNumber (c :: rest)).matter = .token (.number value) ∧
      Numeral (cutNumber (c :: rest)).text value := by
  have hwhole := isDigits_takeWhile hc rest
  unfold cutNumber
  dsimp only
  split
  · split
    · rename_i d behind hdrop hd
      exact ⟨_, rfl, .decimal hwhole (isDigits_takeWhile hd behind)⟩
    · exact ⟨_, rfl, .whole hwhole⟩
  · exact ⟨_, rfl, .whole hwhole⟩

theorem Munched.of_longest {k : Cut} (hmatter : k.matter = .token kind)
    (h : Longest kind k.text (c :: rest)) : Munched c rest k := by
  obtain ⟨matter, text, behind⟩ := k
  cases hmatter
  exact .token h

theorem cutNumber_munched (hc : isDigit c = true) (rest : List Char) :
    Munched c rest (cutNumber (c :: rest)) := by
  obtain ⟨value, hmatter, hnumeral⟩ := cutNumber_numeral hc rest
  refine .of_longest hmatter ⟨.number hnumeral, ?_, fun kind text h hstarts => ?_⟩
  · exact ⟨_, cutNumber_append (c :: rest)⟩
  · obtain ⟨more, rfl, -, hopens⟩ := h.opens_of_starts hstarts
    obtain ⟨value', hvalue'⟩ := hopens.digit hc
    exact cutNumber_longest hvalue' hstarts

theorem cutWord_munched (hc : isNameStart c = true) (rest : List Char) :
    Munched c rest (cutWord (c :: rest)) := by
  have hpart : isNamePart c = true := by rw [isNamePart, hc, Bool.true_or]
  have hparts : ∀ d ∈ rest.takeWhile isNamePart, isNamePart d = true :=
    fun d hd => List.mem_takeWhile_imp hd
  have hword : IsWord ((c :: rest).takeWhile isNamePart) := by
    rw [List.takeWhile_cons_of_pos hpart]
    exact .of_isNamePart hc hparts
  refine .token ⟨hword.lexeme, List.takeWhile_prefix _, fun kind text h hstarts => ?_⟩
  obtain ⟨more, rfl, -, hopens⟩ := h.opens_of_starts hstarts
  obtain ⟨behind, hbehind⟩ := hstarts
  rw [← hbehind, List.takeWhile_append_of_pos (hopens.name hc).parts, List.length_append]
  exact Nat.le_add_right _ _

theorem lexeme_of_single? {s : Symbol} (h : single? c = some s) : Lexeme (.symbol s) [c] := by
  unfold single? at h
  split at h <;> cases h <;> exact .symbol _

theorem lexeme_of_withEqual? {s : Symbol} (h : withEqual? c = some s) :
    Lexeme (.symbol s) [c, '='] := by
  unfold withEqual? at h
  split at h <;> cases h <;> exact .symbol _

theorem cutSymbol_munched (hquote : c ≠ '"') (hdigit : isDigit c = false)
    (hname : isNameStart c = false) (rest : List Char) : Munched c rest (cutSymbol c rest) := by
  by_cases hnext : (withEqual? c).isSome = true ∧ rest.head? = some '='
  · obtain ⟨longer, hlonger⟩ := Option.isSome_iff_exists.mp hnext.1
    obtain ⟨behind, rfl⟩ := List.head?_eq_some_iff.mp hnext.2
    rw [ByteScanner.cutSymbol_longer hlonger]
    refine .token ⟨lexeme_of_withEqual? hlonger, ⟨behind, rfl⟩, fun kind text h hstarts => ?_⟩
    obtain ⟨more, rfl, -, hopens⟩ := h.opens_of_starts hstarts
    obtain ⟨-, rfl⟩ | ⟨-, rfl⟩ := hopens.symbol hquote hdigit hname
    · exact Nat.le_succ 1
    · exact Nat.le_refl 2
  · have hcut : withEqual? c = none ∨ rest.head? ≠ some '=' := by
      cases hlonger : withEqual? c with
      | none => exact .inl rfl
      | some longer => exact .inr fun hhead => hnext ⟨by rw [hlonger]; rfl, hhead⟩
    rw [ByteScanner.cutSymbol_single hcut]
    cases hsingle : single? c with
    | some s =>
      refine .token ⟨lexeme_of_single? hsingle, ⟨rest, rfl⟩, fun kind text h hstarts => ?_⟩
      obtain ⟨more, rfl, hmore, hopens⟩ := h.opens_of_starts hstarts
      obtain ⟨-, rfl⟩ | ⟨hlonger, rfl⟩ := hopens.symbol hquote hdigit hname
      · exact Nat.le_refl 1
      · obtain ⟨behind, rfl⟩ := hmore
        exact absurd ⟨hlonger, rfl⟩ hnext
    | none =>
      refine .unexpected hquote fun kind text h => ?_
      obtain ⟨hsome, -⟩ | ⟨hsome, -⟩ := h.opens.symbol hquote hdigit hname
      · rw [hsingle] at hsome
        cases hsome
      · rw [withEqual?_of_single? hsingle] at hsome
        cases hsome

theorem cut_munched (hblank : isBlank c = false)
    (hcomment : ¬(c = '/' ∧ rest.head? = some '/')) : Munched c rest (cut c rest) := by
  rw [cut_of_visible hblank hcomment]
  split
  · rename_i hquote
    rw [beq_iff_eq.mp hquote]
    exact cutString_munched rest
  · rename_i hquote
    split
    · exact cutNumber_munched ‹_› rest
    · split
      · exact cutWord_munched ‹_› rest
      · refine cutSymbol_munched ?_ ?_ ?_ rest
        · simpa using hquote
        · simpa using ‹¬isDigit c = true›
        · simpa using ‹¬isNameStart c = true›

end

/-! ## What the scanner yields -/

/-- What is read from a text with another one behind it: the lexeme that is the longest there, with
its kind; a character that no lexeme starts with; or a quote and all that follows it, where no
other quote does. -/
inductive Emission.ReadFrom : Emission → List Char → List Char → Prop
  | token {t : Token} {text behind : List Char} (h : Longest t.kind text (text ++ behind))
    (hlexeme : t.lexeme = String.ofList text) : ReadFrom (.token t) text behind
  | unexpected {c : Char} {behind : List Char} {line : Nat} (hc : c ≠ '"')
    (hnone : ∀ kind text, ¬Lexeme kind (c :: text)) :
    ReadFrom (.fault (LexicalFault.unexpectedCharacter c).message line) [c] behind
  | unterminated {body : List Char} {line : Nat} (hopen : '"' ∉ body) :
    ReadFrom (.fault LexicalFault.unterminatedString.message line) ('"' :: body) []

/-- Some lexeme starts the text. -/
def StartsLexeme (source : List Char) : Prop := ∃ kind text, Lexeme kind text ∧ text <+: source

/-- Blank space or a comment starts the text. -/
def StartsSkipped (source : List Char) : Prop :=
  ∃ gap behind, gap ≠ [] ∧ source = gap ++ behind ∧ Skipped behind gap

/-- It is yielded for a token. -/
def Emission.IsToken (emission : Emission) : Prop := ∃ t, emission = .token t

section
variable {c : Char} {rest text behind : List Char} {emission : Emission}

theorem StartsSkipped.cases (h : StartsSkipped (c :: rest)) :
    isBlank c = true ∨ c = '/' ∧ rest.head? = some '/' := by
  obtain ⟨gap, behind, hne, hgap, hskipped⟩ := h
  cases hskipped with
  | nil => exact absurd rfl hne
  | blank hc _ =>
    obtain ⟨rfl, -⟩ := List.cons.inj hgap
    exact .inl (isBlank_iff_mem.mpr hc)
  | comment _ _ _ =>
    obtain ⟨rfl, rfl⟩ := List.cons.inj hgap
    exact .inr ⟨rfl, rfl⟩

/-- A token is yielded just where a lexeme starts. -/
theorem Emission.ReadFrom.isToken_iff (h : emission.ReadFrom text behind) :
    emission.IsToken ↔ StartsLexeme (text ++ behind) := by
  cases h with
  | token h _ => exact ⟨fun _ => ⟨_, _, h.lexeme, h.starts⟩, fun _ => ⟨_, rfl⟩⟩
  | unexpected _ hnone =>
    constructor
    · rintro ⟨_, hfault⟩
      cases hfault
    · rintro ⟨kind, lexeme, h, hstarts⟩
      obtain ⟨more, rfl, -, -⟩ := h.opens_of_starts hstarts
      exact absurd h (hnone kind more)
  | unterminated hopen =>
    constructor
    · rintro ⟨_, hfault⟩
      cases hfault
    · rintro ⟨kind, lexeme, h, hstarts⟩
      rw [List.append_nil] at hstarts
      obtain ⟨more, rfl, hmore, hopens⟩ := h.opens_of_starts hstarts
      obtain ⟨body', -, rfl⟩ := hopens.quote
      exact absurd (hmore.subset (List.mem_append_right body' List.mem_cons_self)) hopen

/-- A piece that is no blank space starts with a character that is not skipped. -/
theorem not_blank_of_item {line : Nat} {item : Item}
    (hitem : (firstPiece line c rest).item? = some item) :
    isBlank c = false ∧ ¬(c = '/' ∧ rest.head? = some '/') := by
  have hmatter : (cut c rest).matter ≠ .blank := by
    intro hblank
    unfold Piece.item? firstPiece at hitem
    rw [hblank] at hitem
    cases hitem
  constructor
  · rw [← Bool.not_eq_true]
    intro hblank
    unfold cut at hmatter
    rw [if_pos hblank] at hmatter
    exact hmatter rfl
  · rintro ⟨rfl, hslash⟩
    unfold cut at hmatter
    rw [if_neg (by decide), if_pos (by rw [hslash]; decide)] at hmatter
    exact hmatter rfl

/-- What the first piece of a text yields. -/
theorem firstPiece_readFrom {line : Nat} {item : Item}
    (hitem : (firstPiece line c rest).item? = some item) :
    item.emission.ReadFrom (cut c rest).text (cut c rest).rest := by
  obtain ⟨hblank, hcomment⟩ := not_blank_of_item hitem
  have hmunched := cut_munched hblank hcomment
  have happend := cut_append c rest
  unfold firstPiece at hitem
  generalize cut c rest = k at hmunched happend hitem
  cases hmunched with
  | token h =>
    cases hitem
    rw [← happend] at h
    exact .token h rfl
  | unexpected hc hnone =>
    cases hitem
    exact .unexpected hc hnone
  | unterminated hc hopen =>
    subst hc
    cases hitem
    exact .unterminated hopen

end

/-- **Maximal munch.** Whatever the scanner yields was read from a place behind which neither blank
space nor a comment starts, or is the end of the source. It is a token just where a lexeme starts,
which then is the longest that does, of the kind that this text has. Else it is the fault of one
character that starts no lexeme, or of a quote with no other behind it, and takes all that
follows. -/
theorem items_are_longest_lexemes (source : String) (n : Nat) :
    ∃ found s, ByteScanner.calls n (.ofSource source) = .ok found s ∧
      ∀ emission place, (some emission, place) ∈ found →
        (∃ line, emission = .ending "" line ∧ place = none) ∨
        ∃ before text behind first last, place = some (first, last) ∧
          source.toList = before ++ text ++ behind ∧
          first = (encode before).length ∧ last = first + (encode text).length ∧
          ¬StartsSkipped (text ++ behind) ∧ emission.ReadFrom text behind ∧
          (emission.IsToken ↔ StartsLexeme (text ++ behind)) := by
  obtain ⟨s, hcalls⟩ := (Stands.ofSource source).calls_eq n
  refine ⟨_, s, hcalls, fun emission place hmem => ?_⟩
  obtain ⟨rfl, rfl⟩ | ⟨item, first, last, rfl, rfl, hlocated⟩ := mem_found hmem
  · exact .inl ⟨_, rfl, rfl⟩
  · obtain ⟨before, c, rest, hsource, hfirst, hlast, hitem⟩ := mem_locate_pieces 0 1 hlocated
    have happend := cut_append c rest
    have hread := firstPiece_readFrom hitem
    obtain ⟨hblank, hcomment⟩ := not_blank_of_item hitem
    refine .inr ⟨before, (cut c rest).text, (cut c rest).rest, first, last, rfl, ?_, ?_, hlast,
      ?_, hread, hread.isToken_iff⟩
    · rw [hsource, List.append_assoc, happend]
    · rw [hfirst, Nat.zero_add]
    · rw [happend]
      intro hskipped
      obtain h | h := hskipped.cases
      · rw [hblank] at h
        cases h
      · exact hcomment h

end LoxLang
