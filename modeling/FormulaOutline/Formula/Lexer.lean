import FormulaOutline.Formula.Token
import FormulaOutline.Number.Reading
import FormulaOutline.Text.Property.Alphabetic
import FormulaOutline.Text.Property.Numeric

/-!
# Reading tokens

A source is cut into tokens from left to right; blanks between them are skipped.

* `scan` reads one token: `scan_append` says that it loses no character of the source.
* `lex` reads all tokens of a source, `lexRange` those of a range of bytes.
-/

namespace FormulaOutline.Formula

open Text

/-! ## Kinds of characters -/

/-- Characters of a node id in a reference. -/
def isIdChar (c : Char) : Bool :=
  c.isAlphanum || c == '_' || c == '-' || c == '/'

/-- Whether a reference can name the node. -/
def isTranscludable (id : NodeId) : Bool :=
  !id.toList.isEmpty && id.toList.all isIdChar

def startsIdentifier (c : Char) : Bool := isAlphabetic c || c == '_'

def continuesIdentifier (c : Char) : Bool := isAlphabetic c || isNumeric c || c == '_'

/-- The blanks that separate tokens. -/
def isSeparator (c : Char) : Bool := c == ' ' || c == '\t' || c == '\r' || c == '\n'

/-! ## One token -/

/-- A token without its place: its meaning, its characters and what follows them. -/
structure Scanned where
  kind : TokenKind
  text : List Char
  rest : List Char

/-- A string literal after its opening quotation mark: its value if it is closed, its characters
and what follows. A backslash before any other character than `n`, `t`, a backslash or a quotation
mark stands for itself. -/
def scanString : List Char → Option (List Char) × List Char × List Char
  | [] => (none, [], [])
  | '"' :: rest => (some [], ['"'], rest)
  | '\\' :: 'n' :: rest =>
      let (value, text, after) := scanString rest
      (value.map ('\n' :: ·), '\\' :: 'n' :: text, after)
  | '\\' :: 't' :: rest =>
      let (value, text, after) := scanString rest
      (value.map ('\t' :: ·), '\\' :: 't' :: text, after)
  | '\\' :: '\\' :: rest =>
      let (value, text, after) := scanString rest
      (value.map ('\\' :: ·), '\\' :: '\\' :: text, after)
  | '\\' :: '"' :: rest =>
      let (value, text, after) := scanString rest
      (value.map ('"' :: ·), '\\' :: '"' :: text, after)
  | c :: rest =>
      let (value, text, after) := scanString rest
      (value.map (c :: ·), c :: text, after)

/-- A reference after its number sign. -/
def scanReference : List Char → Scanned
  | '[' :: rest =>
      let id := rest.takeWhile isIdChar
      match rest.dropWhile isIdChar with
      | ']' :: after =>
          let kind := if id = [] then .invalid .emptyReference else .reference (String.ofList id)
          ⟨kind, '#' :: '[' :: id ++ [']'], after⟩
      | c :: after => ⟨.invalid (.badReference c), '#' :: '[' :: id, c :: after⟩
      | [] => ⟨.invalid .unterminatedReference, '#' :: '[' :: id, []⟩
  | rest => ⟨.invalid .noBracket, ['#'], rest⟩

/-- Digits, and after a point more digits. A point that no digit follows is not part of it. -/
def scanNumber (s : List Char) : Scanned :=
  let whole := s.takeWhile Char.isDigit
  match s.dropWhile Char.isDigit with
  | '.' :: d :: rest =>
      if d.isDigit then
        let fraction := (d :: rest).takeWhile Char.isDigit
        let value := Number.ofDecimal false (Number.ofDigits (whole ++ fraction)) (-fraction.length)
        ⟨.number value, whole ++ '.' :: fraction, (d :: rest).dropWhile Char.isDigit⟩
      else ⟨.number (Number.ofDecimal false (Number.ofDigits whole) 0), whole, '.' :: d :: rest⟩
  | rest => ⟨.number (Number.ofDecimal false (Number.ofDigits whole) 0), whole, rest⟩

def scanIdentifier (s : List Char) : Scanned :=
  let name := s.takeWhile continuesIdentifier
  ⟨.identifier (String.ofList name), name, s.dropWhile continuesIdentifier⟩

/-- The token at the start of a text that does not start with a separator. -/
def scan (c : Char) (rest : List Char) : Scanned :=
  match Sign.ofChar? c with
  | some s => ⟨.sign s, [c], rest⟩
  | none =>
      if c = '#' then scanReference rest
      else if c = '"' then
        match scanString rest with
        | (some value, text, after) => ⟨.string (String.ofList value), '"' :: text, after⟩
        | (none, text, after) => ⟨.invalid .unterminatedString, '"' :: text, after⟩
      else if c.isDigit then scanNumber (c :: rest)
      else if startsIdentifier c then scanIdentifier (c :: rest)
      else ⟨.invalid (.unexpected c), [c], rest⟩

/-! ## No character is lost -/

theorem scanString_append (s : List Char) : (scanString s).2.1 ++ (scanString s).2.2 = s := by
  fun_induction scanString s <;> simp_all

theorem scanReference_append (s : List Char) :
    (scanReference s).text ++ (scanReference s).rest = '#' :: s := by
  unfold scanReference
  split
  · rename_i rest
    have split := List.takeWhile_append_dropWhile (p := isIdChar) (l := rest)
    split <;> simp_all
  · simp

theorem scanNumber_append (s : List Char) : (scanNumber s).text ++ (scanNumber s).rest = s := by
  have split := List.takeWhile_append_dropWhile (p := Char.isDigit) (l := s)
  unfold scanNumber
  split
  · rename_i d rest h
    rw [h] at split
    split <;> simp_all [List.takeWhile_append_dropWhile]
  · simp_all

theorem scanIdentifier_append (s : List Char) :
    (scanIdentifier s).text ++ (scanIdentifier s).rest = s :=
  List.takeWhile_append_dropWhile

/-- A token and what follows it make up the source. -/
theorem scan_append (c : Char) (rest : List Char) :
    (scan c rest).text ++ (scan c rest).rest = c :: rest := by
  have quoted := scanString_append rest
  unfold scan
  split
  · rfl
  · split
    · simp_all [scanReference_append]
    · split
      · split <;> simp_all
      · split
        · exact scanNumber_append _
        · split
          · exact scanIdentifier_append _
          · rfl

/-- Every token takes at least one character. -/
theorem scan_text_ne_nil (c : Char) (rest : List Char) : (scan c rest).text ≠ [] := by
  unfold scan
  split
  · simp
  · split
    · unfold scanReference
      split
      · split <;> simp
      · simp
    · split
      · split <;> simp
      · split
        · rename_i digit
          unfold scanNumber
          split
          · split <;> simp [digit]
          · simp [digit]
        · split
          · rename_i starts
            have continues : continuesIdentifier c = true := by
              simp only [startsIdentifier, continuesIdentifier, Bool.or_eq_true] at starts ⊢
              rcases starts with h | h <;> simp [h]
            simp [scanIdentifier, continues]
          · simp

theorem scan_rest_length_le (c : Char) (rest : List Char) :
    (scan c rest).rest.length ≤ rest.length := by
  have whole := congrArg List.length (scan_append c rest)
  have some := List.length_pos_iff.2 (scan_text_ne_nil c rest)
  simp at whole
  omega

/-! ## All tokens -/

/-- Reads the tokens of a text that starts at a place. -/
def lexFrom (p : Position) (s : List Char) : Lexed :=
  match s with
  | [] => ⟨[], p⟩
  | c :: rest =>
      if isSeparator c then lexFrom (p.next c) rest
      else
        let scanned := scan c rest
        let stop := p.along scanned.text
        let later := lexFrom stop scanned.rest
        ⟨⟨scanned.kind, scanned.text, .between p stop⟩ :: later.tokens, later.stop⟩
termination_by s.length
decreasing_by
  · simp
  · have := scan_rest_length_le c rest
    simp
    omega

/-- The tokens of a whole source. -/
def lex (source : List Char) : Lexed := lexFrom .start source

/-- The tokens of the bytes of a source from `start` up to `stop`. -/
def lexRange (source : List Char) (start stop : Nat) : Lexed :=
  let stop := min stop (byteLength source)
  let start := min start stop
  lexFrom { positionAt source start with offset := start } (slice source start stop)

end FormulaOutline.Formula
