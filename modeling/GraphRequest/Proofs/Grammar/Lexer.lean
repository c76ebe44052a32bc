import GraphRequest.Json.Reader
import GraphRequest.Proofs.Number.Digits

/-!
The tokens of GraphQL source text, and the lexer that takes a text apart into them.
-/

namespace GraphRequest.Grammar

inductive Token
  | mark (punctuator : Char)
  /-- three dots -/
  | spread
  | name (text : String)
  | int (value : Int)
  | float (value : Binary64)
  | string (text : String)
  /-- a block string as it is spelled -/
  | block (raw : String)
  deriving DecidableEq, Repr

def isNameStart (c : Char) : Bool :=
  c.isAlpha || c = '_'

def isNameContinue (c : Char) : Bool :=
  c.isAlphanum || c = '_'

theorem letter_bounds {c : Char} (letter : c.isAlpha) : 65 ≤ c.toNat ∧ c.toNat ≤ 122 := by
  rcases (Bool.or_eq_true c.isUpper c.isLower).mp letter with upper | lower
  · have range : 'A'.val ≤ c.val ∧ c.val ≤ 'Z'.val := of_decide_eq_true upper
    exact ⟨range.1, Nat.le_trans range.2 (by decide)⟩
  · rcases (Bool.and_eq_true _ _).mp lower with ⟨low, high⟩
    exact ⟨Nat.le_trans (by decide) (of_decide_eq_true low), of_decide_eq_true high⟩

theorem isNameStart_bounds {c : Char} (start : isNameStart c) : 65 ≤ c.toNat ∧ c.toNat ≤ 122 := by
  rw [isNameStart, Bool.or_eq_true, decide_eq_true_eq] at start
  rcases start with letter | rfl
  · exact letter_bounds letter
  · decide

theorem isNameContinue_bounds {c : Char} (inside : isNameContinue c) :
    48 ≤ c.toNat ∧ c.toNat ≤ 122 := by
  rw [isNameContinue, Bool.or_eq_true, decide_eq_true_eq] at inside
  rcases inside with either | rfl
  · rcases (Bool.or_eq_true c.isAlpha c.isDigit).mp either with letter | digit
    · exact ⟨Nat.le_trans (by decide) (letter_bounds letter).1, (letter_bounds letter).2⟩
    · rcases Char.isDigit_iff_toNat.mp digit with ⟨low, high⟩
      exact ⟨low, Nat.le_trans high (by decide)⟩
  · decide

def isName (text : String) : Bool :=
  match text.toList with
  | [] => false
  | c :: rest => isNameStart c && rest.all isNameContinue

def marks : List Char :=
  ['!', '$', '&', '(', ')', ':', '=', '@', '[', ']', '\x7b', '|', '\x7d']

/-- White space, line ends, commas and the byte order mark. -/
def ignored : List Char :=
  ['\t', '\n', '\r', ' ', ',', '\uFEFF']

def isLineEnd (c : Char) : Bool :=
  c = '\n' || c = '\r'

section Strings

open Json.Reader

def bracedChar (code : Nat) : List Char → Option (Char × List Char)
  | [] => none
  | c :: rest =>
      if c = '\x7d' then
        if code.isValidChar then some (Char.ofNat code, rest) else none
      else
        match hexDigit c with
        | some digit => bracedChar (code * 16 + digit) rest
        | none => none

/-- The character of four hexadecimal digits, or of two such codes that make a surrogate pair. -/
def codedChar : List Char → Option (Char × List Char)
  | a :: b :: c :: d :: rest => do
      let unit ← codeUnit a b c d
      if isLowSurrogate unit then none
      else if isHighSurrogate unit then
        match rest with
        | '\\' :: 'u' :: e :: f :: g :: h :: rest => do
            let low ← codeUnit e f g h
            if isLowSurrogate low then some (surrogatePair unit low, rest) else none
        | _ => none
      else some (Char.ofNat unit, rest)
  | _ => none

def escapedChar : List Char → Option (Char × List Char)
  | 'u' :: '\x7b' :: c :: rest =>
      match hexDigit c with
      | some digit => bracedChar digit rest
      | none => none
  | 'u' :: rest => codedChar rest
  | c :: rest => (unescape c).map (·, rest)
  | [] => none

/-- The characters of a string behind its opening quote. Of the control characters only a tab may
stand for itself. -/
def stringChars (text : List Char) : Option (List Char × List Char) :=
  match text with
  | [] => none
  | c :: rest =>
      if c = '"' then some ([], rest)
      else if c = '\\' then
        match escapedChar rest with
        | none => none
        | some (meant, after) =>
            if after.length ≤ rest.length then prepend meant (stringChars after) else none
      else if c.toNat < 0x20 && c ≠ '\t' then none
      else prepend c (stringChars rest)
termination_by text.length

/-- The inside of a block string, in which only the closing quotes can be escaped. -/
def blockChars : List Char → Option (List Char × List Char)
  | [] => none
  | '"' :: '"' :: '"' :: rest => some ([], rest)
  | '\\' :: '"' :: '"' :: '"' :: rest =>
      (blockChars rest).map fun (raw, rest) => (['\\', '"', '"', '"'] ++ raw, rest)
  | c :: rest => prepend c (blockChars rest)

end Strings

/-- Neither a digit nor a point nor a name may follow a number directly. -/
def endsNumber : List Char → Bool
  | [] => true
  | c :: _ => !(c.isDigit || c = '.' || isNameStart c)

def numberToken (numeral : Json.Numeral) : Token :=
  if numeral.isInteger then
    let magnitude : Int := Decimal.ofDigits numeral.whole
    .int (if numeral.negative then -magnitude else magnitude)
  else .float numeral.toBinary64

/-- The numbers of source text are spelled like those of JSON. -/
def numberAt (text : List Char) : Option (Token × List Char) :=
  match Json.Numeral.read text with
  | some (numeral, rest) => if endsNumber rest then some (numberToken numeral, rest) else none
  | none => none

def tokenAt (c : Char) (rest : List Char) : Option (Token × List Char) :=
  if c ∈ marks then some (.mark c, rest)
  else if c = '.' then
    match rest with
    | '.' :: '.' :: rest => some (.spread, rest)
    | _ => none
  else if isNameStart c then
    some (.name (String.ofList (c :: rest.takeWhile isNameContinue)), rest.dropWhile isNameContinue)
  else if c = '"' then
    match rest with
    | '"' :: '"' :: rest =>
        (blockChars rest).map fun (raw, rest) => (.block (String.ofList raw), rest)
    | rest => (stringChars rest).map fun (chars, rest) => (.string (String.ofList chars), rest)
  else numberAt (c :: rest)

/-- The tokens of a text. What is ignored between them and comments up to the end of the line are
left out. -/
def lex (text : List Char) : Option (List Token) :=
  match text with
  | [] => some []
  | c :: rest =>
      if c ∈ ignored then lex rest
      else if c = '#' then lex (rest.dropWhile fun c => !isLineEnd c)
      else
        match tokenAt c rest with
        | none => none
        | some (token, after) =>
            if after.length ≤ rest.length then (lex after).map (token :: ·) else none
termination_by text.length
decreasing_by
  · simp
  · have shorter := (List.dropWhile_sublist (l := rest) fun c => !isLineEnd c).length_le
    simp only [List.length_cons]
    omega
  · simp only [List.length_cons]
    omega

example : lex "me: user(id: -7, w: 1.5e3) \x7b ...Card \x7d # gone".toList =
    some [.name "me", .mark ':', .name "user", .mark '(', .name "id", .mark ':', .int (-7),
      .name "w", .mark ':', .float (.ofDecimal false ⟨15, 2⟩), .mark ')', .mark '\x7b', .spread,
      .name "Card", .mark '\x7d'] := by
  decide +kernel

end GraphRequest.Grammar
