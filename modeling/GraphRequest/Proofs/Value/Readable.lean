import GraphRequest.Proofs.Declaration.Value
import GraphRequest.Proofs.Grammar.Front
import GraphRequest.Proofs.Grammar.RoundTrip
import GraphRequest.Proofs.Grammar.Written

/-!
A written value is read back as itself, whatever stands behind it. So no two values are written
alike.
-/

namespace GraphRequest

open Grammar

namespace Grammar.Literal

mutual

/-- The value that a literal stands for. Integers have 64 bits, and block strings are not used. -/
def value? : Literal → Option Value
  | reference name => some (.reference name)
  | int number => if Value.fitsInt64 number then some (.int (.ofInt number)) else none
  | float number => some (.float number)
  | string text => some (.string text)
  | block _ => none
  | bool value => some (.bool value)
  | null => some .null
  | enum name => some (.enum name)
  | list items => (itemValues? items).map .list
  | object entries => (entryValues? entries).map .object

def itemValues? : List Literal → Option (List Value)
  | [] => some []
  | item :: rest => do
      let value ← value? item
      return value :: (← itemValues? rest)

def entryValues? : List (String × Literal) → Option (List (String × Value))
  | [] => some []
  | (key, item) :: rest => do
      let value ← value? item
      return (key, value) :: (← entryValues? rest)

end

end Grammar.Literal

namespace Value

def first? (text : List Char) : Option (Value × List Char) := do
  let (literal, rest) ← firstLiteral text
  return (← literal.value?, rest)

mutual

theorem value?_literal : (value : Value) → value.literal.value? = some value
  | int number => by
      rw [literal, Literal.value?, if_pos ((fitsInt64_iff _).mpr ⟨number, rfl⟩), Int64.ofInt_toInt]
  | list items => by
      rw [literal, Literal.value?, itemValues?_literals items]
      rfl
  | object entries => by
      rw [literal, Literal.value?, entryValues?_literals entries]
      rfl
  | reference _ | float _ | string _ | bool _ | null | enum _ => rfl

theorem itemValues?_literals : (items : List Value) →
    Literal.itemValues? (itemLiterals items) = some items
  | [] => rfl
  | item :: rest => by
      rw [itemLiterals, Literal.itemValues?, value?_literal item, itemValues?_literals rest]
      rfl

theorem entryValues?_literals : (entries : List (String × Value)) →
    Literal.entryValues? (entryLiterals entries) = some entries
  | [] => rfl
  | (key, value) :: rest => by
      rw [entryLiterals, Literal.entryValues?, value?_literal value, entryValues?_literals rest]
      rfl

end

theorem length_comma : ", ".toList.length = 2 := rfl

theorem labelled_append (key content : String) (tail : List Char) :
    (key ++ ": " ++ content).toList ++ tail = key.toList ++ ':' :: ' ' :: (content.toList ++ tail) := by
  rw [String.toList_append, String.toList_append, List.append_assoc, List.append_assoc]
  rfl

theorem length_labelled (key content : String) :
    (key ++ ": " ++ content).toList.length = key.toList.length + 2 + content.toList.length := by
  rw [String.toList_append, String.toList_append, List.length_append, List.length_append]
  rfl

variable {known : Variables} {limit : Nat} {rest : List Char}

theorem Takes.literalAt_of_le {text : List Char} {token : Token} {literal : Literal}
    (takes : Takes text token) (single : token.literal? = some literal)
    (enough : text.length ≤ limit) (separate : Separate rest) :
    literalAt limit (text ++ rest) = some (literal, rest) := by
  cases limit with
  | zero =>
      obtain ⟨c, more, rfl, -⟩ := takes
      cases enough
  | succ limit => exact takes.literalAt single separate

mutual

theorem literalAt_source : (value : Value) → value.obeys grammatical → check known value = .ok () →
    ∀ limit rest, value.source.toList.length ≤ limit → Separate rest →
      literalAt limit (value.source.toList ++ rest) = some (value.literal, rest)
  | reference name => by
      intro named _ limit rest enough separate
      rw [source, String.toList_append] at enough ⊢
      rw [List.append_assoc]
      cases limit with
      | zero => cases enough
      | succ limit => exact literalAt_reference ((Takes.name named).next separate)
  | int value => fun _ _ _ _ => Takes.literalAt_of_le (.int value.toInt) rfl
  | float value => by
      intro _ checked limit rest
      rw [check] at checked
      split at checked
      · next finite => exact Takes.literalAt_of_le (.float floatFormat finite) rfl
      · cases checked
  | string value => fun _ _ _ _ => Takes.literalAt_of_le (.string value) rfl
  | bool value => by
      intro _ _ limit rest
      cases value with
      | true => exact Takes.literalAt_of_le (.name (by decide)) rfl
      | false => exact Takes.literalAt_of_le (.name (by decide)) rfl
  | null => fun _ _ _ _ => Takes.literalAt_of_le (.name (by decide)) rfl
  | enum name => by
      intro named _ limit rest
      rw [obeys, grammatical, Bool.and_eq_true, decide_eq_true_eq] at named
      refine Takes.literalAt_of_le (.name named.1) ?_
      change some (nameLiteral name) = _
      rw [Literal.nameLiteral_enum named.2]
      rfl
  | list items => by
      intro named checked limit rest enough _
      rw [source, String.toList_append, String.toList_append] at enough ⊢
      rw [List.append_assoc, List.append_assoc]
      cases limit with
      | zero => cases enough
      | succ limit =>
          have fits := Nat.lt_of_succ_le (show (", ".intercalate (itemSources items)).toList.length +
            1 ≤ limit by simpa using enough)
          exact literalAt_list (itemsAt_source items named checked limit rest fits)
  | object entries => by
      intro named checked limit rest enough _
      rw [source, String.toList_append, String.toList_append] at enough ⊢
      rw [List.append_assoc, List.append_assoc]
      cases limit with
      | zero => cases enough
      | succ limit =>
          have fits := Nat.lt_of_succ_le (show (", ".intercalate (entrySources entries)).toList.length +
            1 ≤ limit by simpa using enough)
          exact literalAt_object (entriesAt_source entries named checked limit rest fits)

theorem itemsAt_source : (items : List Value) → allObey grammatical items →
    checkItems known items = .ok () → ∀ limit rest,
      (", ".intercalate (itemSources items)).toList.length < limit →
        itemsAt limit ((", ".intercalate (itemSources items)).toList ++ ']' :: rest) =
          some (itemLiterals items, rest)
  | [] => by
      intro _ _ limit rest enough
      obtain ⟨limit, rfl⟩ := Nat.exists_eq_succ_of_ne_zero (Nat.ne_of_gt (Nat.zero_lt_of_lt enough))
      exact itemsAt_nil
  | item :: items => by
      intro named checked limit rest enough
      obtain ⟨limit, rfl⟩ := Nat.exists_eq_succ_of_ne_zero (Nat.ne_of_gt (Nat.zero_lt_of_lt enough))
      rw [allObey, Bool.and_eq_true] at named
      obtain ⟨first, others⟩ := checkItems_cons checked
      have reads := literalAt_source item named.1 first
      have later := itemsAt_source items named.2 others limit rest
      cases items with
      | nil =>
          -- nothing is read within no limit, so the item takes some room
          have present : 0 < item.source.toList.length := by
            by_contra vacant
            cases reads 0 [] (by omega) separate_nil
          rw [itemSources, itemSources, String.intercalate_singleton] at enough ⊢
          have last := later (show 0 < limit by omega)
          exact itemsAt_cons (reads limit _ (by omega) (separate_cons (by decide))) last
      | cons next items =>
          rw [itemSources, itemSources, String.intercalate_cons_cons, ← itemSources,
            String.toList_append, String.toList_append] at enough ⊢
          rw [List.length_append, List.length_append, length_comma] at enough
          rw [List.append_assoc, List.append_assoc]
          refine itemsAt_cons (reads limit _ (by omega) (separate_cons (by decide))) ?_
          change itemsAt limit (',' :: ' ' :: _) = _
          rw [itemsAt_ignored (by decide), itemsAt_ignored (by decide)]
          exact later (by omega)

theorem entriesAt_source : (entries : List (String × Value)) → entriesObey grammatical entries →
    checkEntries known entries = .ok () → ∀ limit rest,
      (", ".intercalate (entrySources entries)).toList.length < limit →
        entriesAt limit ((", ".intercalate (entrySources entries)).toList ++ '\x7d' :: rest) =
          some (entryLiterals entries, rest)
  | [] => by
      intro _ _ limit rest enough
      obtain ⟨limit, rfl⟩ := Nat.exists_eq_succ_of_ne_zero (Nat.ne_of_gt (Nat.zero_lt_of_lt enough))
      exact entriesAt_nil
  | (key, value) :: entries => by
      intro named checked limit rest enough
      obtain ⟨limit, rfl⟩ := Nat.exists_eq_succ_of_ne_zero (Nat.ne_of_gt (Nat.zero_lt_of_lt enough))
      rw [entriesObey, Bool.and_eq_true, Bool.and_eq_true] at named
      obtain ⟨first, others⟩ := checkEntries_cons checked
      have label : ∀ behind, nextToken (key.toList ++ ':' :: behind) =
          some (.name key, ':' :: behind) :=
        fun behind => (Takes.name named.1.1).next (separate_cons (by decide))
      have reads : ∀ tail, value.source.toList.length ≤ limit → Separate tail →
          literalAt limit (' ' :: (value.source.toList ++ tail)) = some (value.literal, tail) := by
        intro tail fits separate
        rw [literalAt_ignored (by decide)]
        exact literalAt_source value named.1.2 first limit tail fits separate
      have later := entriesAt_source entries named.2 others limit rest
      cases entries with
      | nil =>
          rw [entrySources, entrySources, String.intercalate_singleton] at enough ⊢
          rw [length_labelled] at enough
          rw [labelled_append]
          have last := later (show 0 < limit by omega)
          exact entriesAt_cons (label _) (reads _ (by omega) (separate_cons (by decide))) last
      | cons next entries =>
          obtain ⟨nextKey, next⟩ := next
          rw [entrySources, entrySources, String.intercalate_cons_cons, ← entrySources,
            String.toList_append, String.toList_append] at enough ⊢
          rw [List.length_append, List.length_append, length_comma, length_labelled] at enough
          rw [List.append_assoc, List.append_assoc, labelled_append]
          refine entriesAt_cons (label _) (reads _ (by omega) (separate_cons (by decide))) ?_
          change entriesAt limit (',' :: ' ' :: _) = _
          rw [entriesAt_ignored (by decide), entriesAt_ignored (by decide)]
          exact later (by omega)

end

theorem first?_source {value : Value} (named : value.obeys grammatical)
    (checked : value.check known = .ok ()) (separate : Separate rest) :
    first? (value.source.toList ++ rest) = some (value, rest) := by
  have reads := literalAt_source value named checked (value.source.toList ++ rest).length rest
    (by simp) separate
  simp only [first?, firstLiteral, reads, value?_literal, Option.bind_eq_bind, Option.bind_some,
    Option.pure_def]

/-- What may stand directly behind a value that is written in a document. -/
def Trails (rest : List Char) : Prop :=
  ∀ c ∈ rest.head?, c ∈ [' ', ',', ')', ']', '\x7d']

theorem separate_of_trails (trails : Trails rest) : Separate rest := by
  intro c here
  have all : [' ', ',', ')', ']', '\x7d'].all separates := by decide
  exact List.all_eq_true.mp all c (trails c here)

/-- A value that can be written is read back from its text, which ends where the value ends, and no
other such value has that text. -/
theorem uniquely_readable (value : Value) (known : Variables) (named : value.obeys grammatical)
    (checked : value.check known = .ok ()) :
    (∀ rest, Trails rest → first? (value.source.toList ++ rest) = some (value, rest)) ∧
    ∀ (other : Value) (others : Variables), other.obeys grammatical → other.check others = .ok () →
      other.source = value.source → other = value := by
  constructor
  · intro rest trails
    exact first?_source named checked (separate_of_trails trails)
  · intro other others otherNamed otherChecked same
    have own := first?_source named checked separate_nil
    have foreign := first?_source otherNamed otherChecked separate_nil
    rw [same, own, Option.some.injEq, Prod.mk.injEq] at foreign
    exact foreign.1.symm

def trickyValue : Value :=
  .object [("text", .string "\"\\\n\x01é] \x7d"), ("none", .string ""),
    ("first", .list [.reference "count", .int (-3), .float (.ofDecimal false ⟨3, 0⟩), .enum "DESC"])]

def countVariable : Variables :=
  ⟨[("count", ⟨"count", ⟨"Int", true⟩, .int 1⟩)], by decide⟩

theorem trickyValue_uniquely_readable :
    trickyValue.obeys grammatical ∧ trickyValue.check countVariable = .ok () ∧
    first? (trickyValue.source.toList ++ ", after".toList) = some (trickyValue, ", after".toList) ∧
    ∀ (other : Value) (others : Variables), other.obeys grammatical → other.check others = .ok () →
      other.source = trickyValue.source → other = trickyValue := by
  have named : trickyValue.obeys grammatical := by decide +kernel
  have checked : trickyValue.check countVariable = .ok () := by rfl
  obtain ⟨reads, unique⟩ := uniquely_readable trickyValue countVariable named checked
  have trails : Trails ", after".toList := by
    intro c here
    cases here
    decide
  exact ⟨named, checked, reads _ trails, unique⟩

end Value

end GraphRequest
