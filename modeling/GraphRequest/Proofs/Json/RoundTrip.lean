import GraphRequest.Proofs.Json.FloatToken
import GraphRequest.Proofs.Json.Literal
import GraphRequest.Proofs.Json.Spelled

/-!
The text of a JSON tree is read as the tree again, floats as floats and with all entries in their
order, unless something in the tree cannot be told from its text.
-/

namespace GraphRequest.Json

mutual

/-- Whether the text of the tree holds all of it, for a reader that goes down to the depth: integers
have the range of integer tokens, floats are read from their texts, and no object has a key twice. -/
def isLegible (depth : Nat) : Json → Bool
  | integer value => Int64.minValue.toInt ≤ value && value < UInt64.size
  | float value => readsBack value
  | list items => 0 < depth && allLegible (depth - 1) items
  | object entries =>
      0 < depth && (Entries.keys entries).Nodup && entriesLegible (depth - 1) entries
  | _ => true

def allLegible (depth : Nat) : List Json → Bool
  | [] => true
  | item :: rest => isLegible depth item && allLegible depth rest

def entriesLegible (depth : Nat) : List (String × Json) → Bool
  | [] => true
  | (_, item) :: rest => isLegible depth item && entriesLegible depth rest

end

theorem Numeral.Ends.cons {c : Char} {rest : List Char}
    (other : c.isDigit = false ∧ c ≠ '.' ∧ c ≠ 'e' ∧ c ≠ 'E') : Ends (c :: rest) := by
  intro d here
  cases here
  exact other

namespace Reader

variable {α : Type} {reader : Reader α} {c close : Char} {rest : List Char}

theorem skipBlanks_solid (solid : isBlank c = false) : skipBlanks (c :: rest) = c :: rest := by
  simp [skipBlanks, solid]

/-- What may be ahead of an item: neither white space nor the end of a list or an object. -/
def startsItem (c : Char) : Bool :=
  !isBlank c && c ∉ [']', '\x7d']

theorem startsItem_iff : startsItem c ↔ isBlank c = false ∧ c ∉ [']', '\x7d'] := by
  simp [startsItem]

/-- The text is read as `a` before everything at which a number ends. -/
structure Takes (reader : Reader α) (text : List Char) (a : α) : Prop where
  front : ∃ c more, text = c :: more ∧ startsItem c
  reads : ∀ rest, Numeral.Ends rest → reader (text ++ rest) = some (a, rest)

section Rows

variable {texts : List String} {row : List α}

theorem closing_solid (closing : close ∈ [']', '\x7d']) :
    isBlank close = false ∧ close ≠ ',' ∧ Numeral.Ends (close :: rest) := by
  simp only [List.mem_cons, List.not_mem_nil, or_false] at closing
  rcases closing with rfl | rfl
  · exact ⟨by decide, by decide, .cons (by decide)⟩
  · exact ⟨by decide, by decide, .cons (by decide)⟩

theorem items_last {text : List Char} {a : α} {limit : Nat} (closing : close ∈ [']', '\x7d'])
    (taken : Takes reader text a) :
    items reader close (limit + 1) (text ++ close :: rest) = some ([a], rest) := by
  rcases @closing_solid close rest closing with ⟨solid, -, ends⟩
  rw [items, taken.reads _ ends]
  dsimp only
  rw [skipBlanks_solid solid]
  dsimp only
  rw [if_pos rfl]

theorem items_next {text : List Char} {a : α} {limit : Nat} (closing : close ∈ [']', '\x7d'])
    (taken : Takes reader text a) :
    items reader close (limit + 1) (text ++ ',' :: rest) =
      (items reader close limit rest).map fun (more, rest) => (a :: more, rest) := by
  rcases @closing_solid close rest closing with ⟨-, other, -⟩
  rw [items, taken.reads _ (.cons (by decide))]
  dsimp only
  rw [skipBlanks_solid (by decide)]
  dsimp only
  rw [if_neg other.symm, if_pos rfl]

theorem items_commas (closing : close ∈ [']', '\x7d'])
    (each : List.Forall₂ (fun text a => Takes reader text.toList a) texts row) (present : texts ≠ [])
    {limit : Nat} (enough : (",".intercalate texts).toList.length < limit) :
    items reader close limit ((",".intercalate texts).toList ++ close :: rest) =
      some (row, rest) := by
  induction each generalizing limit with
  | nil => exact absurd rfl present
  | @cons text a texts row first later ih =>
      cases limit with
      | zero => exact absurd enough (Nat.not_lt_zero _)
      | succ limit =>
          cases later with
          | nil =>
              rw [String.intercalate_singleton]
              exact items_last closing first
          | @cons next b texts row second later =>
              have comma : ",".toList = [','] := rfl
              rw [String.intercalate_cons_cons, String.toList_append, String.toList_append, comma]
                at enough ⊢
              -- The comma alone makes the rest of the row shorter than the limit that is left.
              have fewer : (",".intercalate (next :: texts)).toList.length < limit := by
                simp only [List.length_append, List.length_singleton] at enough
                omega
              rw [List.append_assoc, List.append_assoc, List.singleton_append,
                items_next closing first, ih (by simp) fewer]
              rfl

theorem front_commas {text : String} (front : ∃ c more, text.toList = c :: more ∧ startsItem c) :
    ∃ c more, (",".intercalate (text :: texts)).toList = c :: more ∧ startsItem c := by
  rcases front with ⟨c, more, same, starts⟩
  cases texts with
  | nil =>
      rw [String.intercalate_singleton]
      exact ⟨c, more, same, starts⟩
  | cons next texts =>
      rw [String.intercalate_cons_cons, String.toList_append, String.toList_append, same]
      exact ⟨c, _, rfl, starts⟩

theorem sequence_commas (closing : close ∈ [']', '\x7d'])
    (each : List.Forall₂ (fun text a => Takes reader text.toList a) texts row) :
    sequence reader close ((",".intercalate texts).toList ++ close :: rest) = some (row, rest) := by
  cases each with
  | nil =>
      rw [String.intercalate_nil, String.toList_empty, List.nil_append, sequence,
        skipBlanks_solid (@closing_solid close rest closing).1]
      dsimp only
      rw [if_pos rfl]
  | @cons text a texts row first later =>
      have enough : (",".intercalate (text :: texts)).toList.length <
          ((",".intercalate (text :: texts)).toList ++ close :: rest).length := by
        rw [List.length_append, List.length_cons]
        omega
      have taken := @items_commas _ _ _ rest _ _ closing (.cons first later) (by simp) _ enough
      rcases @front_commas texts text first.front with ⟨c, more, same, starts⟩
      rw [startsItem_iff] at starts
      have apart : c ≠ close := fun same => starts.2 (same ▸ closing)
      rw [sequence, taken, same, List.cons_append, skipBlanks_solid starts.1]
      dsimp only
      rw [if_neg apart]

end Rows

theorem Takes.entry {text : String} {a : α} (key : String) (taken : Takes reader text.toList a) :
    Takes (Reader.entry reader) (Text.quote key ++ ":" ++ text).toList (key, a) := by
  have written (rest : List Char) : (Text.quote key ++ ":" ++ text).toList ++ rest =
      '"' :: (key.toList.flatMap Text.escapeChar ++ '"' :: ':' :: (text.toList ++ rest)) := by
    simp [Text.quote, Text.quoteChars]
  have quote : isBlank '"' = false := by decide
  have colon : isBlank ':' = false := by decide
  constructor
  · have whole := written []
    rw [List.append_nil] at whole
    exact ⟨_, _, whole, by decide⟩
  · intro rest ends
    simp only [written, Reader.entry, skipBlanks_solid quote, literal_written,
      skipBlanks_solid colon, taken.reads rest ends, String.ofList_toList, Option.map_some]

section Numbers

variable (start : c = '-' ∨ c.isDigit)

include start

theorem start_ne {d : Char} (sign : d ≠ '-') (digit : d.isDigit = false) : c ≠ d := by
  rintro rfl
  rcases start with same | numeric
  · exact sign same
  · rw [digit] at numeric
    cases numeric

theorem startsItem_of_start : startsItem c := by
  rw [startsItem_iff]
  constructor
  · simp [isBlank, @start_ne c start ' ', @start_ne c start '\t', @start_ne c start '\n',
      @start_ne c start '\r']
  · simp [@start_ne c start ']', @start_ne c start '\x7d']

/-- Words, strings, lists and objects are told by their first characters; all else is a number. -/
theorem value_number {depth : Nat} : value depth (c :: rest) = number (c :: rest) := by
  rw [value, skipBlanks_solid (startsItem_iff.mp (startsItem_of_start start)).1]
  split
  -- six patterns begin with other characters
  iterate 6
    next same => exact absurd (List.cons.inj same).1 (start_ne start (by decide) (by decide))
  rfl

end Numbers

theorem Takes.number {text : List Char} {json : Json} {depth : Nat}
    (reads : ∀ rest, Numeral.Ends rest → ∃ numeral,
      Numeral.read (text ++ rest) = some (numeral, rest) ∧ numeral.value = some json) :
    Takes (value depth) text json := by
  rcases reads [] fun _ here => nomatch here with ⟨_, read, -⟩
  rw [List.append_nil] at read
  rcases FloatFormat.start_of_read read with ⟨c, more, rfl, start⟩
  refine ⟨⟨c, more, rfl, startsItem_of_start start⟩, fun rest ends => ?_⟩
  rcases reads rest ends with ⟨numeral, read, valued⟩
  rw [List.cons_append] at read ⊢
  rw [value_number start, Reader.number, read]
  simp [valued]

end Reader

namespace Numeral

theorem value_intRepr {value : Int} (low : Int64.minValue.toInt ≤ value)
    (high : value < UInt64.size) :
    (⟨value < 0, Nat.toDigits 10 value.natAbs, none, none⟩ : Numeral).value =
      some (.integer value) := by
  have least : Int64.minValue.toInt = -9223372036854775808 := rfl
  have beyond : UInt64.size = 18446744073709551616 := rfl
  have magnitude := Decimal.ofDigits_toDigits value.natAbs
  rw [least] at low
  rw [beyond] at high
  simp only [Numeral.value, isInteger, magnitude, Option.isNone_none, Bool.and_self, Bool.true_and]
  by_cases negative : value < 0
  · have whole : -(value.natAbs : Int) = value := by omega
    have small : value.natAbs ≠ 0 ∧ value.natAbs ≤ Nat.pow 2 63 := by
      constructor <;> norm_num <;> omega
    generalize value.natAbs = n at whole small ⊢
    simp [negative, small, whole]
  · have whole : (value.natAbs : Int) = value := by omega
    have small : value.natAbs < Nat.pow 2 64 := by
      norm_num
      omega
    generalize value.natAbs = n at whole small ⊢
    simp [negative, small, whole]

theorem value_float {numeral : Numeral} {x : Binary64} (decimal : numeral.isInteger = false)
    (same : numeral.float? = some x) : numeral.value = some (.float x) := by
  simp [value, decimal, same]

end Numeral

namespace Reader

variable {depth : Nat}

theorem takes_integer {value : Int} (low : Int64.minValue.toInt ≤ value)
    (high : value < UInt64.size) :
    Takes (Reader.value depth) (Int.repr value).toList (.integer value) :=
  .number fun _ ends => ⟨_, FloatFormat.read_intRepr value ends, Numeral.value_intRepr low high⟩

theorem takes_float {x : Binary64} (back : readsBack x) :
    Takes (value depth) (floatText x).toList (.float x) := by
  rw [floatText, if_pos (isFinite_of_readsBack back), FloatFormat.text, String.toList_ofList]
  rcases numeral_of_readsBack back with ⟨numeral, read, decimal, same⟩
  exact .number fun rest ends => ⟨numeral, read rest ends, Numeral.value_float decimal same⟩

theorem takes_null : Takes (value depth) Json.null.text.toList .null where
  front := ⟨'n', _, rfl, by decide⟩
  reads := fun rest _ => by simp [text, value, skipBlanks, isBlank]

theorem takes_bool (b : Bool) : Takes (value depth) (Json.bool b).text.toList (.bool b) := by
  cases b with
  | false => exact ⟨⟨'f', _, rfl, by decide⟩, fun _ _ => by simp [text, value, skipBlanks, isBlank]⟩
  | true => exact ⟨⟨'t', _, rfl, by decide⟩, fun _ _ => by simp [text, value, skipBlanks, isBlank]⟩

theorem takes_string (text : String) :
    Takes (value depth) (Text.quote text).toList (.string text) := by
  have quote : isBlank '"' = false := by decide
  rw [Text.quote, String.toList_ofList, Text.quoteChars]
  refine ⟨⟨'"', _, rfl, by decide⟩, fun rest _ => ?_⟩
  rw [List.cons_append, List.append_assoc, List.singleton_append, value, skipBlanks_solid quote]
  simp only [literal_written, String.ofList_toList, Option.map_some]

theorem takes_list {items : List Json}
    (each : List.Forall₂ (fun text item => Takes (value depth) text.toList item) (itemTexts items)
      items) :
    Takes (value (depth + 1)) (Json.list items).text.toList (.list items) := by
  have bracket : isBlank '[' = false := by decide
  have closing : ']' ∈ [']', '\x7d'] := by decide
  have written (rest : List Char) : (Json.list items).text.toList ++ rest =
      '[' :: ((",".intercalate (itemTexts items)).toList ++ ']' :: rest) := by
    simp [text]
  constructor
  · have whole := written []
    rw [List.append_nil] at whole
    exact ⟨_, _, whole, by decide⟩
  · intro rest _
    rw [written, value, skipBlanks_solid bracket]
    simp only [sequence_commas closing each, Option.map_some]

theorem takes_object {entries : List (String × Json)} (distinct : (Entries.keys entries).Nodup)
    (each : List.Forall₂ (fun text entry => Takes (Reader.entry (value depth)) text.toList entry)
      (entryTexts entries) entries) :
    Takes (value (depth + 1)) (Json.object entries).text.toList (.object entries) := by
  have brace : isBlank '\x7b' = false := by decide
  have closing : '\x7d' ∈ [']', '\x7d'] := by decide
  have written (rest : List Char) : (Json.object entries).text.toList ++ rest =
      '\x7b' :: ((",".intercalate (entryTexts entries)).toList ++ '\x7d' :: rest) := by
    simp [text]
  constructor
  · have whole := written []
    rw [List.append_nil] at whole
    exact ⟨_, _, whole, by decide⟩
  · intro rest _
    rw [written, value, skipBlanks_solid brace]
    simp only [sequence_commas closing each, Entries.ofList_of_distinct distinct,
      Option.map_some]

mutual

theorem takes_text : (json : Json) → {depth : Nat} → json.isLegible depth →
    Takes (value depth) json.text.toList json
  | null, _ => fun _ => takes_null
  | bool b, _ => fun _ => takes_bool b
  | integer n, _ => by
      intro legible
      rw [isLegible, Bool.and_eq_true, decide_eq_true_eq, decide_eq_true_eq] at legible
      exact takes_integer legible.1 legible.2
  | float x, _ => fun legible => takes_float legible
  | string text, _ => fun _ => takes_string text
  | list items, 0 => fun legible => by cases legible
  | list items, depth + 1 => by
      intro legible
      rw [isLegible, Bool.and_eq_true, Nat.add_sub_cancel] at legible
      exact takes_list (takes_items items legible.2)
  | object entries, 0 => fun legible => by cases legible
  | object entries, depth + 1 => by
      intro legible
      rw [isLegible, Bool.and_eq_true, Bool.and_eq_true, Nat.add_sub_cancel] at legible
      exact takes_object (by simpa using legible.1.2) (takes_entries entries legible.2)

theorem takes_items : (items : List Json) → {depth : Nat} → allLegible depth items →
    List.Forall₂ (fun text item => Takes (value depth) text.toList item) (itemTexts items) items
  | [], _ => fun _ => .nil
  | item :: rest, _ => by
      intro legible
      rw [allLegible, Bool.and_eq_true] at legible
      exact .cons (takes_text item legible.1) (takes_items rest legible.2)

theorem takes_entries : (entries : List (String × Json)) → {depth : Nat} →
    entriesLegible depth entries →
    List.Forall₂ (fun text entry => Takes (Reader.entry (value depth)) text.toList entry)
      (entryTexts entries) entries
  | [], _ => fun _ => .nil
  | (key, item) :: rest, _ => by
      intro legible
      rw [entriesLegible, Bool.and_eq_true] at legible
      exact .cons ((takes_text item legible.1).entry key) (takes_entries rest legible.2)

end

end Reader

/-- Nothing of a legible tree is lost in its text. -/
theorem read?_text {json : Json} (legible : json.isLegible maxDepth) :
    read? json.text = some json := by
  have taken := (Reader.takes_text json legible).reads [] fun _ here => nomatch here
  rw [List.append_nil] at taken
  rw [read?, taken]
  rfl

end GraphRequest.Json
