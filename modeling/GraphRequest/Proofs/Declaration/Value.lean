import GraphRequest.Value.Json

/-!
Which JSON trees declare a value. A variable or an enum literal is named by an object with one entry,
and no other object may hold the entry's key.
-/

namespace GraphRequest

theorem except_bind_eq_ok {α β : Type} {result : Except RequestError α}
    {next : α → Except RequestError β} {b : β} :
    (result >>= next) = .ok b ↔ ∃ a, result = .ok a ∧ next a = .ok b := by
  cases result <;> simp [bind, Except.bind]

theorem except_map_eq_ok {α β : Type} {result : Except RequestError α} {f : α → β} {b : β} :
    (f <$> result) = .ok b ↔ ∃ a, result = .ok a ∧ f a = b := by
  cases result <;> simp [Functor.map, Except.map]

theorem except_pure_eq_ok {α : Type} {a b : α} :
    (pure a : Except RequestError α) = .ok b ↔ a = b := by
  simp [pure, Except.pure]

namespace Json

mutual

inductive DeclaresValue : Json → Value → Prop
  | null : DeclaresValue .null .null
  | bool (value : Bool) : DeclaresValue (.bool value) (.bool value)
  | integer (value : Int64) : DeclaresValue (.integer value.toInt) (.int value)
  | float (value : Binary64) : DeclaresValue (.float value) (.float value)
  | string (value : String) : DeclaresValue (.string value) (.string value)
  | list {items : List Json} {values : List Value} (each : DeclareItems items values) :
      DeclaresValue (.list items) (.list values)
  | reference (name : String) :
      DeclaresValue (.object [("__fromVariable", .string name)]) (.reference name)
  | enum (name : String) : DeclaresValue (.object [("__enum", .string name)]) (.enum name)
  | object {entries : List (String × Json)} {values : List (String × Value)}
      (noReference : "__fromVariable" ∉ Entries.keys entries)
      (noEnum : "__enum" ∉ Entries.keys entries) (each : DeclareEntries entries values) :
      DeclaresValue (.object entries) (.object values)

inductive DeclareItems : List Json → List Value → Prop
  | nil : DeclareItems [] []
  | cons {item : Json} {value : Value} {rest : List Json} {values : List Value}
      (first : DeclaresValue item value) (others : DeclareItems rest values) :
      DeclareItems (item :: rest) (value :: values)

inductive DeclareEntries : List (String × Json) → List (String × Value) → Prop
  | nil : DeclareEntries [] []
  | cons {key : String} {item : Json} {value : Value} {rest : List (String × Json)}
      {values : List (String × Value)} (first : DeclaresValue item value)
      (others : DeclareEntries rest values) :
      DeclareEntries ((key, item) :: rest) ((key, value) :: values)

end

end Json

namespace Value

theorem fitsInt64_iff (n : Int) : fitsInt64 n = true ↔ ∃ value : Int64, value.toInt = n := by
  rw [fitsInt64, Bool.and_eq_true, decide_eq_true_iff, decide_eq_true_iff]
  constructor
  · rintro ⟨low, high⟩
    have below : n < 2 ^ 63 := Int.lt_of_le_of_lt high (Int64.toInt_lt Int64.maxValue)
    exact ⟨Int64.ofInt n, Int64.toInt_ofInt_of_le low below⟩
  · rintro ⟨value, rfl⟩
    exact ⟨Int64.minValue_le_toInt value, Int64.toInt_le value⟩

theorem soleName_eq_ok_iff {tag path : String} {entries : List (String × Json)}
    {found : Option String} :
    soleName tag path entries = .ok found ↔
      (∃ name, entries = [(tag, .string name)] ∧ found = some name) ∨
        tag ∉ Entries.keys entries ∧ found = none := by
  rw [soleName, ← Entries.get?_isSome_iff]
  constructor
  · intro accepted
    split at accepted
    · next absent =>
        cases accepted
        exact .inr ⟨by simp [absent], rfl⟩
    · next name present =>
        split at accepted
        · next single =>
            cases accepted
            obtain ⟨entry, rfl⟩ := List.length_eq_one_iff.mp single
            have member := Entries.mem_of_get? present
            rw [List.mem_singleton] at member
            exact .inl ⟨name, by rw [member], rfl⟩
        · cases accepted
    · cases accepted
  · rintro (⟨name, rfl, rfl⟩ | ⟨absent, rfl⟩)
    · simp [Entries.get?]
    · rw [Option.not_isSome_iff_eq_none.mp absent]

theorem tagged?_eq_ok_iff {path : String} {entries : List (String × Json)} {found : Option Value} :
    tagged? path entries = .ok found ↔
      (∃ name, entries = [("__fromVariable", .string name)] ∧ found = some (.reference name)) ∨
      (∃ name, entries = [("__enum", .string name)] ∧ found = some (.enum name)) ∨
      "__fromVariable" ∉ Entries.keys entries ∧ "__enum" ∉ Entries.keys entries ∧
        found = none := by
  rw [tagged?, except_bind_eq_ok]
  constructor
  · rintro ⟨reference, looked, rest⟩
    rcases soleName_eq_ok_iff.mp looked with ⟨name, rfl, rfl⟩ | ⟨noReference, rfl⟩
    · cases rest
      exact .inl ⟨name, rfl, rfl⟩
    · obtain ⟨literal, looked, rest⟩ := except_bind_eq_ok.mp rest
      cases rest
      rcases soleName_eq_ok_iff.mp looked with ⟨name, rfl, rfl⟩ | ⟨noEnum, rfl⟩
      · exact .inr (.inl ⟨name, rfl, rfl⟩)
      · exact .inr (.inr ⟨noReference, noEnum, rfl⟩)
  · rintro (⟨name, rfl, rfl⟩ | ⟨name, rfl, rfl⟩ | ⟨noReference, noEnum, rfl⟩)
    · exact ⟨some name, rfl, rfl⟩
    · exact ⟨none, rfl, rfl⟩
    · refine ⟨none, soleName_eq_ok_iff.mpr (.inr ⟨noReference, rfl⟩), ?_⟩
      exact except_bind_eq_ok.mpr ⟨none, soleName_eq_ok_iff.mpr (.inr ⟨noEnum, rfl⟩), rfl⟩

open Json in
mutual

theorem ofJson_eq_ok_iff (path : String) : (json : Json) → {value : Value} →
    (ofJson path json = .ok value ↔ DeclaresValue json value)
  | .null, value | .bool _, value | .float _, value | .string _, value => by
      rw [ofJson, Except.ok.injEq]
      constructor
      · rintro rfl
        constructor
      · rintro ⟨⟩
        rfl
  | .integer n, value => by
      rw [ofJson]
      constructor
      · intro read
        split at read
        · next fits =>
            cases read
            obtain ⟨whole, rfl⟩ := (fitsInt64_iff n).mp fits
            rw [Int64.ofInt_toInt]
            exact .integer whole
        · cases read
      · rintro ⟨whole⟩
        rw [if_pos ((fitsInt64_iff _).mpr ⟨_, rfl⟩), Int64.ofInt_toInt]
  | .list items, value => by
      rw [ofJson, except_map_eq_ok]
      simp only [itemsOfJson_eq_ok_iff path items]
      constructor
      · rintro ⟨values, each, rfl⟩
        exact .list each
      · rintro ⟨⟩
        next values each => exact ⟨values, each, rfl⟩
  | .object entries, value => by
      rw [ofJson, except_bind_eq_ok]
      constructor
      · rintro ⟨found, looked, read⟩
        rcases tagged?_eq_ok_iff.mp looked with
          ⟨name, rfl, rfl⟩ | ⟨name, rfl, rfl⟩ | ⟨noReference, noEnum, rfl⟩
        · cases read
          exact .reference name
        · cases read
          exact .enum name
        · obtain ⟨values, each, whole⟩ := except_bind_eq_ok.mp read
          cases whole
          exact .object noReference noEnum ((entriesOfJson_eq_ok_iff path entries).mp each)
      · intro declares
        cases declares with
        | reference name =>
            exact ⟨_, tagged?_eq_ok_iff.mpr (.inl ⟨name, rfl, rfl⟩), rfl⟩
        | enum name =>
            exact ⟨_, tagged?_eq_ok_iff.mpr (.inr (.inl ⟨name, rfl, rfl⟩)), rfl⟩
        | object noReference noEnum each =>
            refine ⟨none, tagged?_eq_ok_iff.mpr (.inr (.inr ⟨noReference, noEnum, rfl⟩)), ?_⟩
            have read := (entriesOfJson_eq_ok_iff path entries).mpr each
            exact except_bind_eq_ok.mpr ⟨_, read, rfl⟩

theorem itemsOfJson_eq_ok_iff (path : String) : (items : List Json) → {values : List Value} →
    (itemsOfJson path items = .ok values ↔ DeclareItems items values)
  | [], values => by
      rw [itemsOfJson, Except.ok.injEq]
      constructor
      · rintro rfl
        exact .nil
      · rintro ⟨⟩
        rfl
  | item :: rest, values => by
      rw [itemsOfJson]
      simp only [except_bind_eq_ok, except_pure_eq_ok, ofJson_eq_ok_iff path item,
        itemsOfJson_eq_ok_iff path rest]
      constructor
      · rintro ⟨value, first, others, each, rfl⟩
        exact .cons first each
      · rintro ⟨⟩
        next value others first each => exact ⟨value, first, others, each, rfl⟩

theorem entriesOfJson_eq_ok_iff (path : String) : (entries : List (String × Json)) →
    {values : List (String × Value)} →
    (entriesOfJson path entries = .ok values ↔ DeclareEntries entries values)
  | [], values => by
      rw [entriesOfJson, Except.ok.injEq]
      constructor
      · rintro rfl
        exact .nil
      · rintro ⟨⟩
        rfl
  | (key, item) :: rest, values => by
      rw [entriesOfJson]
      simp only [except_bind_eq_ok, except_pure_eq_ok, ofJson_eq_ok_iff _ item,
        entriesOfJson_eq_ok_iff path rest]
      constructor
      · rintro ⟨value, first, others, each, rfl⟩
        exact .cons first each
      · rintro ⟨⟩
        next value others first each => exact ⟨value, first, others, each, rfl⟩

end

end Value

end GraphRequest
