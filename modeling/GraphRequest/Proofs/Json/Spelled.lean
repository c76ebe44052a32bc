import GraphRequest.Json.Reader
import GraphRequest.Proofs.Entries

/-!
JSON texts with their number tokens. The tree of a text keeps each number as it is spelled, so that it
can be told what a token becomes. Of the entries under a repeated key only the last is in the tree.
-/

namespace GraphRequest

namespace Json

structure NumberToken where
  numeral : Numeral
  value : Json
  valued : numeral.value = some value

namespace Numeral

def integer (n : Numeral) : Int :=
  if n.negative then -(Decimal.ofDigits n.whole : Int) else Decimal.ofDigits n.whole

/-- When a token without fraction and exponent is a float: it lies outside of all 64-bit ranges, or
it is a zero with a sign. -/
def OutOfRanges (n : Numeral) : Prop :=
  n.integer < Int64.minValue.toInt ∨ UInt64.size ≤ n.integer ∨ n.negative ∧ n.integer = 0

theorem value_of_isInteger {n : Numeral} {json : Json} (whole : n.isInteger)
    (valued : n.value = some json) :
    ¬n.OutOfRanges ∧ json = .integer n.integer ∨
      n.OutOfRanges ∧ ∃ number, n.float? = some number ∧ json = .float number := by
  have least : Int64.minValue.toInt = -9223372036854775808 := rfl
  have beyond : UInt64.size = 18446744073709551616 := rfl
  rw [value, whole] at valued
  by_cases sign : n.negative
  · simp only [sign, Bool.not_true, Bool.and_false, Bool.true_and, Bool.false_and, Nat.pow_eq]
      at valued
    split at valued
    · contradiction
    · simp only [OutOfRanges, least, beyond, integer, sign, if_true, true_and]
      split at valued
      · next small =>
          cases valued
          simp only [Bool.and_eq_true, decide_eq_true_iff] at small
          exact .inl ⟨by omega, rfl⟩
      · next large =>
          obtain ⟨number, read, rfl⟩ := Option.map_eq_some_iff.mp valued
          simp only [Bool.and_eq_true, decide_eq_true_iff] at large
          exact .inr ⟨by omega, number, read, rfl⟩
  · simp only [sign, Bool.not_false, Bool.true_and, decide_eq_true_iff, Nat.pow_eq] at valued
    simp only [OutOfRanges, least, beyond, integer, sign, Bool.false_eq_true, if_false, false_and,
      or_false]
    split at valued
    · next small =>
        cases valued
        exact .inl ⟨by omega, rfl⟩
    · next large =>
        obtain ⟨number, read, rfl⟩ := Option.map_eq_some_iff.mp valued
        exact .inr ⟨by omega, number, read, rfl⟩

end Numeral

/-- A tree in which the numbers are tokens. -/
inductive Spelled
  | null
  | bool (value : Bool)
  | number (token : NumberToken)
  | string (value : String)
  | list (items : List Spelled)
  | object (entries : List (String × Spelled))

namespace Spelled

mutual

def json : Spelled → Json
  | null => .null
  | bool value => .bool value
  | number token => token.value
  | string value => .string value
  | list items => .list (itemsJson items)
  | object entries => .object (entriesJson entries)

def itemsJson : List Spelled → List Json
  | [] => []
  | item :: rest => json item :: itemsJson rest

def entriesJson : List (String × Spelled) → List (String × Json)
  | [] => []
  | (key, item) :: rest => (key, json item) :: entriesJson rest

end

theorem itemsJson_eq_map (items : List Spelled) : itemsJson items = items.map json := by
  induction items with
  | nil => rfl
  | cons item rest ih => rw [itemsJson, ih, List.map_cons]

theorem entriesJson_eq_map (entries : List (String × Spelled)) :
    entriesJson entries = entries.map fun entry => (entry.1, entry.2.json) := by
  induction entries with
  | nil => rfl
  | cons entry rest ih => rw [entriesJson, ih, List.map_cons]

open Reader

def readNumber (text : List Char) : Option (Spelled × List Char) :=
  match Numeral.read text with
  | none => none
  | some (numeral, rest) =>
      match valued : numeral.value with
      | none => none
      | some value => some (.number ⟨numeral, value, valued⟩, rest)

def readValue : Nat → Reader Spelled := fun depth text =>
  match skipBlanks text with
  | 'n' :: 'u' :: 'l' :: 'l' :: rest => some (.null, rest)
  | 't' :: 'r' :: 'u' :: 'e' :: rest => some (.bool true, rest)
  | 'f' :: 'a' :: 'l' :: 's' :: 'e' :: rest => some (.bool false, rest)
  | '"' :: rest => (literal rest).map fun (chars, rest) => (.string (String.ofList chars), rest)
  | '[' :: rest =>
      match depth with
      | 0 => none
      | deeper + 1 =>
          (sequence (readValue deeper) ']' rest).map fun (found, rest) => (.list found, rest)
  | '{' :: rest =>
      match depth with
      | 0 => none
      | deeper + 1 =>
          (sequence (entry (readValue deeper)) '}' rest).map fun (found, rest) =>
            (.object (Entries.ofList found), rest)
  | text => readNumber text

def read? (text : String) : Option Spelled :=
  match readValue maxDepth text.toList with
  | some (tree, rest) => if (skipBlanks rest).isEmpty then some tree else none
  | none => none

end Spelled

end Json

/-- One reader finds what the other finds, in another form. -/
def Json.Reader.Follows {α β : Type} (form : α → β) (first : Json.Reader α) (second : Json.Reader β) :
    Prop :=
  ∀ text, second text = (first text).map fun (a, rest) => (form a, rest)

namespace Json.Reader.Follows

variable {α β : Type} {form : α → β} {first : Reader α} {second : Reader β} {close : Char}

theorem items (follows : Follows form first second) (limit : Nat) :
    Follows (List.map form) (Reader.items first close limit) (Reader.items second close limit) := by
  induction limit with
  | zero => exact fun _ => rfl
  | succ limit ih =>
      intro text
      rw [Reader.items, Reader.items, follows text]
      cases first text with
      | none => rfl
      | some found =>
          obtain ⟨a, rest⟩ := found
          simp only [Option.map_some]
          cases skipBlanks rest with
          | nil => rfl
          | cons c rest =>
              simp only [ih rest]
              split
              · rfl
              · split
                · cases Reader.items first close limit rest <;> rfl
                · rfl

theorem sequence (follows : Follows form first second) :
    Follows (List.map form) (Reader.sequence first close) (Reader.sequence second close) := by
  intro text
  rw [Reader.sequence, Reader.sequence]
  cases skipBlanks text with
  | nil => rfl
  | cons c rest =>
      simp only [follows.items _ text]
      split <;> rfl

theorem entry (follows : Follows form first second) :
    Follows (fun pair => (pair.1, form pair.2)) (Reader.entry first) (Reader.entry second) := by
  intro text
  rw [Reader.entry, Reader.entry]
  split
  · next quoted _ =>
      cases literal quoted with
      | none => rfl
      | some found =>
          obtain ⟨key, rest⟩ := found
          simp only
          split
          · next held _ =>
              rw [follows held]
              cases first held <;> rfl
          · rfl
  · rfl

end Json.Reader.Follows

namespace Json.Spelled

open Reader

theorem readNumber_follows : Follows json readNumber Reader.number := by
  intro text
  rw [Reader.number, readNumber]
  cases Numeral.read text with
  | none => rfl
  | some found =>
      obtain ⟨numeral, rest⟩ := found
      simp only [Option.bind_eq_bind, Option.bind_some]
      split
      · next absent => simp [absent]
      · next value valued => simp [valued, json]

theorem readValue_follows (depth : Nat) :
    Follows json (readValue depth) (Reader.value depth) := by
  intro text
  rw [readValue, Reader.value]
  generalize skipBlanks text = front
  split
  · rfl
  · rfl
  · rfl
  · simp [json, Function.comp_def]
  · next held =>
      cases depth with
      | zero => rfl
      | succ deeper =>
          simp [(readValue_follows deeper).sequence held, json, itemsJson_eq_map, Function.comp_def]
  · next held =>
      cases depth with
      | zero => rfl
      | succ deeper =>
          simp [(readValue_follows deeper).entry.sequence held, json, entriesJson_eq_map,
            Entries.ofList_map, Function.comp_def]
  · simp only [readNumber_follows _]

/-- Trees with tokens are read from the same texts as other trees. -/
theorem read?_eq (text : String) : Json.read? text = (read? text).map json := by
  rw [Json.read?, read?, readValue_follows]
  cases readValue maxDepth text.toList with
  | none => rfl
  | some found =>
      obtain ⟨tree, rest⟩ := found
      simp only [Option.map_some]
      split <;> rfl

end Json.Spelled

end GraphRequest
