import GraphRequest.Proofs.Grammar.Reader
import GraphRequest.Proofs.Grammar.Spelling

/-!
Reading one literal off the front of a text. Tokens are taken only as they are needed, so what stands
behind the literal may be any text.
-/

namespace GraphRequest.Grammar

def nextToken (text : List Char) : Option (Token × List Char) :=
  match text with
  | [] => none
  | c :: rest =>
      if c ∈ ignored then nextToken rest
      else if c = '#' then nextToken (rest.dropWhile fun c => !isLineEnd c)
      else tokenAt c rest
termination_by text.length
decreasing_by
  · simp
  · have shorter := (List.dropWhile_sublist (l := rest) fun c => !isLineEnd c).length_le
    simp only [List.length_cons]
    omega

def Token.literal? : Token → Option Literal
  | name text => some (nameLiteral text)
  | int value => some (.int value)
  | float value => some (.float value)
  | string text => some (.string text)
  | block raw => some (.block raw)
  | mark _ => none
  | spread => none

mutual

/-- The limit becomes less with each literal that stands inside of another and with each behind
another. -/
def literalAt : Nat → List Char → Option (Literal × List Char)
  | 0, _ => none
  | limit + 1, text =>
      match nextToken text with
      | some (.mark '$', rest) =>
          match nextToken rest with
          | some (.name name, rest) => some (.reference name, rest)
          | _ => none
      | some (.mark '[', rest) => (itemsAt limit rest).map fun (items, rest) => (.list items, rest)
      | some (.mark '\x7b', rest) =>
          (entriesAt limit rest).map fun (entries, rest) => (.object entries, rest)
      | some (token, rest) => token.literal?.map fun literal => (literal, rest)
      | none => none

def itemsAt : Nat → List Char → Option (List Literal × List Char)
  | 0, _ => none
  | limit + 1, text =>
      match nextToken text with
      | some (.mark ']', rest) => some ([], rest)
      | _ => do
          let (item, rest) ← literalAt limit text
          let (more, rest) ← itemsAt limit rest
          return (item :: more, rest)

def entriesAt : Nat → List Char → Option (List (String × Literal) × List Char)
  | 0, _ => none
  | limit + 1, text =>
      match nextToken text with
      | some (.mark '\x7d', rest) => some ([], rest)
      | some (.name key, rest) =>
          match nextToken rest with
          | some (.mark ':', rest) => do
              let (value, rest) ← literalAt limit rest
              let (more, rest) ← entriesAt limit rest
              return ((key, value) :: more, rest)
          | _ => none
      | _ => none

end

/-- The literal at the front of a text. No literal needs a limit beyond its own length. -/
def firstLiteral (text : List Char) : Option (Literal × List Char) :=
  literalAt text.length text

section Ignored

variable {c : Char} {text : List Char} {limit : Nat}

theorem nextToken_ignored (member : c ∈ ignored) : nextToken (c :: text) = nextToken text := by
  rw [nextToken, if_pos member]

theorem literalAt_ignored (member : c ∈ ignored) : literalAt limit (c :: text) = literalAt limit text := by
  cases limit with
  | zero => rfl
  | succ limit => rw [literalAt, nextToken_ignored member, literalAt]

theorem itemsAt_ignored (member : c ∈ ignored) : itemsAt limit (c :: text) = itemsAt limit text := by
  cases limit with
  | zero => rfl
  | succ limit => rw [itemsAt, nextToken_ignored member, literalAt_ignored member, itemsAt]

theorem entriesAt_ignored (member : c ∈ ignored) :
    entriesAt limit (c :: text) = entriesAt limit text := by
  cases limit with
  | zero => rfl
  | succ limit => rw [entriesAt, nextToken_ignored member, entriesAt]

end Ignored

section Tokens

variable {c : Char} {text rest : List Char} {token : Token}

theorem nextToken_mark (member : c ∈ marks) : nextToken (c :: rest) = some (.mark c, rest) := by
  have all : marks.all fun c => c ∉ ignored && c ≠ '#' := by decide
  have own := List.all_eq_true.mp all c member
  rw [Bool.and_eq_true, decide_eq_true_eq, decide_eq_true_eq] at own
  rw [nextToken, if_neg own.1, if_neg own.2]
  unfold tokenAt
  rw [if_pos member]

theorem Takes.next (takes : Takes text token) (separate : Separate rest) :
    nextToken (text ++ rest) = some (token, rest) := by
  obtain ⟨c, more, rfl, kept, sign, taken⟩ := takes
  rw [List.cons_append, nextToken, if_neg kept, if_neg sign]
  exact taken rest separate

end Tokens

section Literals

variable {c : Char} {text rest : List Char} {limit : Nat}

theorem Takes.literalAt {token : Token} {literal : Literal} (takes : Takes text token)
    (single : token.literal? = some literal) (separate : Separate rest) :
    Grammar.literalAt (limit + 1) (text ++ rest) = some (literal, rest) := by
  rw [Grammar.literalAt, takes.next separate]
  cases token with
  | mark | spread => cases single
  | name | int | float | string | block => simp only [single, Option.map_some]

theorem literalAt_reference {name : String} (named : nextToken text = some (.name name, rest)) :
    literalAt (limit + 1) ('$' :: text) = some (.reference name, rest) := by
  have dollar := @nextToken_mark '$' text (by decide)
  simp only [literalAt, dollar, named]

theorem literalAt_list {items : List Literal} (inside : itemsAt limit text = some (items, rest)) :
    literalAt (limit + 1) ('[' :: text) = some (.list items, rest) := by
  have opening := @nextToken_mark '[' text (by decide)
  simp only [literalAt, opening, inside, Option.map_some]

theorem literalAt_object {entries : List (String × Literal)}
    (inside : entriesAt limit text = some (entries, rest)) :
    literalAt (limit + 1) ('\x7b' :: text) = some (.object entries, rest) := by
  have opening := @nextToken_mark '\x7b' text (by decide)
  simp only [literalAt, opening, inside, Option.map_some]

theorem literalAt_close (closes : nextToken text = some (.mark ']', rest)) :
    literalAt limit text = none := by
  cases limit with
  | zero => rfl
  | succ limit => simp [literalAt, closes, Token.literal?]

theorem itemsAt_nil : itemsAt (limit + 1) (']' :: rest) = some ([], rest) := by
  have closing := @nextToken_mark ']' rest (by decide)
  simp only [itemsAt, closing]

theorem entriesAt_nil : entriesAt (limit + 1) ('\x7d' :: rest) = some ([], rest) := by
  have closing := @nextToken_mark '\x7d' rest (by decide)
  simp only [entriesAt, closing]

theorem itemsAt_cons {item : Literal} {items : List Literal} {middle : List Char}
    (first : literalAt limit text = some (item, middle))
    (others : itemsAt limit middle = some (items, rest)) :
    itemsAt (limit + 1) text = some (item :: items, rest) := by
  rw [itemsAt]
  split
  · next after closes =>
      rw [literalAt_close closes] at first
      cases first
  · simp only [first, others, Option.bind_eq_bind, Option.bind_some, Option.pure_def]

theorem entriesAt_cons {key : String} {value : Literal} {entries : List (String × Literal)}
    {behind middle : List Char} (named : nextToken text = some (.name key, ':' :: behind))
    (first : literalAt limit behind = some (value, middle))
    (others : entriesAt limit middle = some (entries, rest)) :
    entriesAt (limit + 1) text = some ((key, value) :: entries, rest) := by
  have colon := @nextToken_mark ':' behind (by decide)
  rw [entriesAt]
  simp only [named, colon, first, others, Option.bind_eq_bind, Option.bind_some, Option.pure_def]

end Literals

end GraphRequest.Grammar
