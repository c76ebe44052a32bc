import GraphRequest.Json.Numeral

/-!
Reading JSON text. A reader takes a text and gives what stands at its front together with the rest,
or nothing if the text is malformed there.
-/

namespace GraphRequest.Json

abbrev Reader (α : Type) := List Char → Option (α × List Char)

namespace Reader

def isBlank (c : Char) : Bool :=
  c = ' ' || c = '\t' || c = '\n' || c = '\r'

def skipBlanks (text : List Char) : List Char :=
  text.dropWhile isBlank

def hexDigit (c : Char) : Option Nat :=
  if c.isDigit then some (c.toNat - '0'.toNat)
  else if 'a' ≤ c && c ≤ 'f' then some (c.toNat - 'a'.toNat + 10)
  else if 'A' ≤ c && c ≤ 'F' then some (c.toNat - 'A'.toNat + 10)
  else none

def codeUnit (a b c d : Char) : Option Nat := do
  some ((((← hexDigit a) * 16 + (← hexDigit b)) * 16 + (← hexDigit c)) * 16 + (← hexDigit d))

def isHighSurrogate (unit : Nat) : Bool :=
  0xD800 ≤ unit && unit < 0xDC00

def isLowSurrogate (unit : Nat) : Bool :=
  0xDC00 ≤ unit && unit < 0xE000

def surrogatePair (high low : Nat) : Char :=
  Char.ofNat (0x10000 + (high - 0xD800) * 0x400 + (low - 0xDC00))

def unescape (c : Char) : Option Char :=
  if c = '"' || c = '\\' || c = '/' then some c
  else if c = 'b' then some '\x08'
  else if c = 'f' then some '\x0c'
  else if c = 'n' then some '\n'
  else if c = 'r' then some '\r'
  else if c = 't' then some '\t'
  else none

def prepend (c : Char) (result : Option (List Char × List Char)) : Option (List Char × List Char) :=
  result.map fun (chars, rest) => (c :: chars, rest)

/-- The characters of a string after its opening quote. A surrogate counts only as half of a pair,
and control characters have to be escaped. -/
def literal : Reader (List Char)
  | [] => none
  | '"' :: rest => some ([], rest)
  | '\\' :: 'u' :: a :: b :: c :: d :: rest =>
      match codeUnit a b c d with
      | none => none
      | some unit =>
          if isHighSurrogate unit then
            match rest with
            | '\\' :: 'u' :: e :: f :: g :: h :: rest =>
                match codeUnit e f g h with
                | none => none
                | some low =>
                    if isLowSurrogate low then prepend (surrogatePair unit low) (literal rest)
                    else none
            | _ => none
          else if isLowSurrogate unit then none
          else prepend (Char.ofNat unit) (literal rest)
  | '\\' :: c :: rest =>
      match unescape c with
      | none => none
      | some meant => prepend meant (literal rest)
  | c :: rest => if c.toNat < 0x20 then none else prepend c (literal rest)

/-- One or more items with commas between them, up to the closing character. Every item takes at
least one character, so `limit` may be the length of the text. -/
def items {α : Type} (item : Reader α) (close : Char) : Nat → Reader (List α)
  | 0, _ => none
  | limit + 1, text =>
      match item text with
      | none => none
      | some (a, rest) =>
          match skipBlanks rest with
          | [] => none
          | c :: rest =>
              if c = close then some ([a], rest)
              else if c = ',' then
                (items item close limit rest).map fun (more, rest) => (a :: more, rest)
              else none

def sequence {α : Type} (item : Reader α) (close : Char) (text : List Char) :
    Option (List α × List Char) :=
  match skipBlanks text with
  | [] => none
  | c :: rest => if c = close then some ([], rest) else items item close text.length text

def entry {α : Type} (value : Reader α) (text : List Char) : Option ((String × α) × List Char) :=
  match skipBlanks text with
  | '"' :: rest =>
      match literal rest with
      | none => none
      | some (key, rest) =>
          match skipBlanks rest with
          | ':' :: rest => (value rest).map fun (found, rest) => ((String.ofList key, found), rest)
          | _ => none
  | _ => none

def number (text : List Char) : Option (Json × List Char) := do
  let (numeral, rest) ← Numeral.read text
  some (← numeral.value, rest)

/-- A value in which lists and objects nest at most `depth` deep. A repeated key keeps its first
place and its last value. -/
def value : Nat → Reader Json := fun depth text =>
  match skipBlanks text with
  | 'n' :: 'u' :: 'l' :: 'l' :: rest => some (.null, rest)
  | 't' :: 'r' :: 'u' :: 'e' :: rest => some (.bool true, rest)
  | 'f' :: 'a' :: 'l' :: 's' :: 'e' :: rest => some (.bool false, rest)
  | '"' :: rest => (literal rest).map fun (chars, rest) => (.string (String.ofList chars), rest)
  | '[' :: rest =>
      match depth with
      | 0 => none
      | deeper + 1 =>
          (sequence (value deeper) ']' rest).map fun (found, rest) => (.list found, rest)
  | '{' :: rest =>
      match depth with
      | 0 => none
      | deeper + 1 =>
          (sequence (entry (value deeper)) '}' rest).map fun (found, rest) =>
            (.object (Entries.ofList found), rest)
  | text => number text

end Reader

def maxDepth : Nat := 127

def read? (text : String) : Option Json :=
  match Reader.value maxDepth text.toList with
  | some (json, rest) => if (Reader.skipBlanks rest).isEmpty then some json else none
  | none => none

end GraphRequest.Json
