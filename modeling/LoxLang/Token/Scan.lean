import LoxLang.Token

/-!
# From source text to tokens

* `cut`: the longest piece that starts at the front of a text: blank space or a comment, a token,
  or a fault;
* `cut_append`, `cut_rest_length`: a piece and what follows it make up the text, and a piece is
  never empty;
* `pieces`: the whole text cut into pieces, each with the line on which it ends;
* `scan`: the tokens and faults of a source in order, with the line of its end.
-/

namespace LoxLang

/-- Why no token starts at some place of a source. -/
inductive LexicalFault
  | unexpectedCharacter (c : Char)
  | unterminatedString
  deriving DecidableEq, Repr

def LexicalFault.message : LexicalFault → String
  | unexpectedCharacter c => "Unexpected character: " ++ String.singleton c
  | unterminatedString => "Unterminated string."

structure LexicalError where
  fault : LexicalFault
  line : Nat
  deriving DecidableEq, Repr

def LexicalError.message (e : LexicalError) : String :=
  "[line " ++ digitsOf e.line ++ "] Error: " ++ e.fault.message

namespace Scanning

/-- A character that separates tokens. -/
def isBlank (c : Char) : Bool := c == ' ' || c == '\r' || c == '\t' || c == '\n'

/-- An ASCII digit. -/
def isDigit (c : Char) : Bool := '0' ≤ c && c ≤ '9'

/-- A character an identifier can start with: an ASCII letter or the underscore. -/
def isNameStart (c : Char) : Bool :=
  ('a' ≤ c && c ≤ 'z') || ('A' ≤ c && c ≤ 'Z') || c == '_'

/-- A character an identifier can go on with. -/
def isNamePart (c : Char) : Bool := isNameStart c || isDigit c

/-- The symbol a character stands for by itself. -/
def single? : Char → Option Symbol
  | '(' => some .leftParen
  | ')' => some .rightParen
  | '\x7b' => some .leftBrace
  | '\x7d' => some .rightBrace
  | ',' => some .comma
  | '.' => some .dot
  | '-' => some .minus
  | '+' => some .plus
  | ';' => some .semicolon
  | '*' => some .star
  | '/' => some .slash
  | '!' => some .bang
  | '=' => some .equal
  | '<' => some .less
  | '>' => some .greater
  | _ => none

/-- The symbol made of a character and a following `=`. -/
def withEqual? : Char → Option Symbol
  | '!' => some .bangEqual
  | '=' => some .equalEqual
  | '<' => some .lessEqual
  | '>' => some .greaterEqual
  | _ => none

/-- The value of a run of digits. -/
def digitsValue (digits : List Char) : Nat :=
  digits.foldl (fun n c => 10 * n + (c.toNat - '0'.toNat)) 0

/-- What a piece of source text is. -/
inductive Matter
  | blank
  | token (kind : TokenKind)
  | fault (fault : LexicalFault)
  deriving Repr

/-- The first piece of a text and what follows it. -/
structure Cut where
  matter : Matter
  text : List Char
  rest : List Char

/-- A string literal, from behind its opening quote. -/
def cutString (body : List Char) : Cut :=
  let contents := body.takeWhile (· != '"')
  match body.dropWhile (· != '"') with
  | [] => ⟨.fault .unterminatedString, '"' :: contents, []⟩
  | q :: rest => ⟨.token (.string (String.ofList contents)), '"' :: (contents ++ [q]), rest⟩

/-- A number: digits, and a point with more digits if a digit follows the point. -/
def cutNumber (text : List Char) : Cut :=
  let whole := text.takeWhile isDigit
  match text.dropWhile isDigit with
  | '.' :: d :: rest =>
    if isDigit d then
      let places := (d :: rest).takeWhile isDigit
      ⟨.token (.number (nearestDouble (digitsValue (whole ++ places)) places.length)),
        whole ++ '.' :: places, (d :: rest).dropWhile isDigit⟩
    else ⟨.token (.number (nearestDouble (digitsValue whole) 0)), whole, '.' :: d :: rest⟩
  | rest => ⟨.token (.number (nearestDouble (digitsValue whole) 0)), whole, rest⟩

/-- The kind of a word: reserved or an identifier. -/
def wordKind (word : List Char) : TokenKind :=
  match Keyword.ofSpelling? (String.ofList word) with
  | some k => .keyword k
  | none => .identifier

/-- An identifier or a reserved word. -/
def cutWord (text : List Char) : Cut :=
  let word := text.takeWhile isNamePart
  ⟨.token (wordKind word), word, text.dropWhile isNamePart⟩

/-- A symbol of two characters if its `=` follows, else one of a single character. -/
def cutSymbol (c : Char) (rest : List Char) : Cut :=
  match withEqual? c, rest with
  | some s, '=' :: rest' => ⟨.token (.symbol s), [c, '='], rest'⟩
  | _, _ =>
    match single? c with
    | some s => ⟨.token (.symbol s), [c], rest⟩
    | none => ⟨.fault (.unexpectedCharacter c), [c], rest⟩

/-- The piece at the front of the text `c :: rest`. A comment ends before its newline. -/
def cut (c : Char) (rest : List Char) : Cut :=
  if isBlank c then ⟨.blank, [c], rest⟩
  else if c == '/' && rest.head? == some '/' then
    ⟨.blank, c :: rest.takeWhile (· != '\n'), rest.dropWhile (· != '\n')⟩
  else if c == '"' then cutString rest
  else if isDigit c then cutNumber (c :: rest)
  else if isNameStart c then cutWord (c :: rest)
  else cutSymbol c rest

theorem cutString_append (body : List Char) :
    (cutString body).text ++ (cutString body).rest = '"' :: body := by
  have h := List.takeWhile_append_dropWhile (p := (· != '"')) (l := body)
  simp only [cutString]
  split <;> rename_i e <;> rw [e] at h <;> simpa using h

theorem cutNumber_append (text : List Char) :
    (cutNumber text).text ++ (cutNumber text).rest = text := by
  have h := List.takeWhile_append_dropWhile (p := isDigit) (l := text)
  unfold cutNumber
  split
  · rename_i d rest e
    rw [e] at h
    split
    · simpa using h
    · exact h
  · exact h

theorem cutWord_append (text : List Char) :
    (cutWord text).text ++ (cutWord text).rest = text :=
  List.takeWhile_append_dropWhile

theorem cutSymbol_append (c : Char) (rest : List Char) :
    (cutSymbol c rest).text ++ (cutSymbol c rest).rest = c :: rest := by
  unfold cutSymbol
  split
  · rfl
  · split <;> rfl

/-- A piece and what follows it make up the text. -/
theorem cut_append (c : Char) (rest : List Char) :
    (cut c rest).text ++ (cut c rest).rest = c :: rest := by
  unfold cut
  split
  · rfl
  · split
    · simp
    · split
      · rename_i h
        rw [cutString_append, beq_iff_eq.mp h]
      · split
        · exact cutNumber_append _
        · split
          · exact cutWord_append _
          · exact cutSymbol_append _ _

theorem cutString_text_ne_nil (body : List Char) : (cutString body).text ≠ [] := by
  simp only [cutString]
  split <;> simp

theorem cutNumber_text_ne_nil {c : Char} (h : isDigit c) (rest : List Char) :
    (cutNumber (c :: rest)).text ≠ [] := by
  have hw : (c :: rest).takeWhile isDigit ≠ [] := by simp [h]
  unfold cutNumber
  split
  · split
    · simp
    · exact hw
  · exact hw

theorem cutWord_text_ne_nil {c : Char} (h : isNameStart c) (rest : List Char) :
    (cutWord (c :: rest)).text ≠ [] := by
  simp [cutWord, isNamePart, h]

theorem cutSymbol_text_ne_nil (c : Char) (rest : List Char) : (cutSymbol c rest).text ≠ [] := by
  unfold cutSymbol
  split
  · simp
  · split <;> simp

/-- No piece is empty. -/
theorem cut_text_ne_nil (c : Char) (rest : List Char) : (cut c rest).text ≠ [] := by
  unfold cut
  split
  · simp
  · split
    · simp
    · split
      · exact cutString_text_ne_nil _
      · split
        · rename_i h; exact cutNumber_text_ne_nil h _
        · split
          · rename_i h; exact cutWord_text_ne_nil h _
          · exact cutSymbol_text_ne_nil _ _

/-- What follows a piece is shorter than the text. -/
theorem cut_rest_length (c : Char) (rest : List Char) :
    (cut c rest).rest.length < (c :: rest).length := by
  have h := congrArg List.length (cut_append c rest)
  have ht := List.length_pos_iff.mpr (cut_text_ne_nil c rest)
  rw [List.length_append] at h
  omega

/-- A piece of a source and the line on which it ends. -/
structure Piece where
  matter : Matter
  text : List Char
  line : Nat

/-- Cuts a text that starts on the given line into pieces. -/
def pieces (line : Nat) : List Char → List Piece
  | [] => []
  | c :: rest =>
    let first := cut c rest
    let line := line + first.text.count '\n'
    ⟨first.matter, first.text, line⟩ :: pieces line first.rest
termination_by text => text.length
decreasing_by exact cut_rest_length c rest

end Scanning

/-- A token, or a place where none starts. -/
inductive Item
  | token (t : Token)
  | fault (e : LexicalError)
  deriving Repr

/-- The tokens and faults of a source in order, and the line on which the source ends. -/
structure Scan where
  items : List Item
  endLine : Nat

/-- The item of a piece; blank space has none. -/
def Scanning.Piece.item? (p : Piece) : Option Item :=
  match p.matter with
  | .blank => none
  | .token kind => some (.token ⟨kind, String.ofList p.text, p.line⟩)
  | .fault fault => some (.fault ⟨fault, p.line⟩)

def scan (source : String) : Scan where
  items := (Scanning.pieces 1 source.toList).filterMap (·.item?)
  endLine := 1 + source.toList.count '\n'

/-- The tokens of a source without faults, and the line on which the source ends. -/
structure TokenStream where
  tokens : List Token
  endLine : Nat

namespace Scan

/-- All tokens, and all faults. -/
def sort : List Item → List Token × List LexicalError
  | [] => ([], [])
  | .token t :: rest => (t :: (sort rest).1, (sort rest).2)
  | .fault e :: rest => ((sort rest).1, e :: (sort rest).2)

/-- The tokens of a source, or else every fault it has. -/
def tokens? (s : Scan) : Except (List LexicalError) TokenStream :=
  match sort s.items with
  | (tokens, []) => .ok ⟨tokens, s.endLine⟩
  | (_, faults) => .error faults

/-- The line a listing ends with. -/
def endDisplay : String := "EOF  null"

end Scan

end LoxLang
