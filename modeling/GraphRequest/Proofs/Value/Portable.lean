import GraphRequest.Proofs.Declaration.Value
import GraphRequest.Proofs.Json.RoundTrip
import GraphRequest.Proofs.Value.Leaf

/-!
Values that are loaded again from what is sent for them. The text holds all of the tree that is sent,
and the tree declares the value; enum literals come back as strings.
-/

namespace GraphRequest.Value

mutual

/-- The value in which every enum literal is the string of its name. -/
def spelled : Value → Value
  | enum name => string name
  | list items => list (spelledItems items)
  | object entries => object (spelledEntries entries)
  | value => value

def spelledItems : List Value → List Value
  | [] => []
  | item :: rest => spelled item :: spelledItems rest

def spelledEntries : List (String × Value) → List (String × Value)
  | [] => []
  | (key, value) :: rest => (key, spelled value) :: spelledEntries rest

end

mutual

def objectKeys : Value → List String
  | list items => itemKeys items
  | object entries => entryKeys entries
  | _ => []

def itemKeys : List Value → List String
  | [] => []
  | item :: rest => objectKeys item ++ itemKeys rest

def entryKeys : List (String × Value) → List String
  | [] => []
  | (key, value) :: rest => key :: (objectKeys value ++ entryKeys rest)

end

/-- Of these leaves none is a reference or a float that is not finite, and of these keys none is a
tag. -/
structure PortableParts (leaves : List Value) (keys : List String) : Prop where
  writable : ∀ leaf ∈ leaves, LeafWritable [] leaf
  untagged : ∀ key ∈ keys, key ∉ [referenceTag, enumTag]

/-- The value holds nothing that is sent as something else, enum literals apart, and no object that
would be taken for a reference or an enum literal. -/
def Portable (value : Value) : Prop :=
  PortableParts value.leaves value.objectKeys

theorem PortableParts.append_iff {leaves otherLeaves : List Value} {keys otherKeys : List String} :
    PortableParts (leaves ++ otherLeaves) (keys ++ otherKeys) ↔
      PortableParts leaves keys ∧ PortableParts otherLeaves otherKeys := by
  constructor
  · rintro ⟨writable, untagged⟩
    rw [List.forall_mem_append] at writable untagged
    exact ⟨⟨writable.1, untagged.1⟩, ⟨writable.2, untagged.2⟩⟩
  · rintro ⟨first, second⟩
    exact ⟨List.forall_mem_append.mpr ⟨first.writable, second.writable⟩,
      List.forall_mem_append.mpr ⟨first.untagged, second.untagged⟩⟩

theorem PortableParts.key_iff {leaves : List Value} {key : String} {keys : List String} :
    PortableParts leaves (key :: keys) ↔
      key ∉ [referenceTag, enumTag] ∧ PortableParts leaves keys := by
  constructor
  · rintro ⟨writable, untagged⟩
    rw [List.forall_mem_cons] at untagged
    exact ⟨untagged.1, ⟨writable, untagged.2⟩⟩
  · rintro ⟨own, others⟩
    exact ⟨others.writable, List.forall_mem_cons.mpr ⟨own, others.untagged⟩⟩

theorem portable_leaf {leaf : Value} (alone : leaf.leaves = [leaf]) (bare : leaf.objectKeys = []) :
    leaf.Portable ↔ LeafWritable [] leaf := by
  rw [Portable, alone, bare]
  constructor
  · intro parts
    exact parts.writable leaf List.mem_cons_self
  · intro writable
    exact ⟨List.forall_mem_singleton.mpr writable, List.forall_mem_nil _⟩

theorem itemsToJson_eq_map (items : List Value) : itemsToJson items = items.map toJson := by
  induction items with
  | nil => rfl
  | cons item rest ih => rw [itemsToJson, ih, List.map_cons]

theorem entriesToJson_eq_map (entries : List (String × Value)) :
    entriesToJson entries = entries.map fun entry => (entry.1, entry.2.toJson) := by
  induction entries with
  | nil => rfl
  | cons entry rest ih => rw [entriesToJson, ih, List.map_cons]

theorem keys_entriesToJson (entries : List (String × Value)) :
    Entries.keys (entriesToJson entries) = Entries.keys entries := by
  rw [entriesToJson_eq_map, Entries.keys_map]

open Json (DeclaresValue DeclareItems DeclareEntries)

theorem declaresObject_iff {entries : List (String × Json)} {values : List (String × Value)} :
    DeclaresValue (.object entries) (.object values) ↔
      (∀ key ∈ Entries.keys entries, key ∉ [referenceTag, enumTag]) ∧
        DeclareEntries entries values := by
  have tags : (∀ key ∈ Entries.keys entries, key ∉ [referenceTag, enumTag]) ↔
      "__fromVariable" ∉ Entries.keys entries ∧ "__enum" ∉ Entries.keys entries := by
    grind [referenceTag, enumTag]
  rw [tags]
  constructor
  · intro declares
    cases declares with
    | object noReference noEnum each => exact ⟨⟨noReference, noEnum⟩, each⟩
  · rintro ⟨⟨noReference, noEnum⟩, each⟩
    exact .object noReference noEnum each

mutual

/-- What is sent for a value declares it again exactly if the value is portable. -/
theorem declares_spelled_iff : (value : Value) →
    (DeclaresValue value.toJson value.spelled ↔ value.Portable)
  | reference name => by
      rw [portable_leaf rfl rfl]
      constructor
      · intro declares
        cases declares
      · intro declared
        cases declared
  | float number => by
      rw [portable_leaf rfl rfl, toJson]
      change DeclaresValue _ (float number) ↔ number.isFinite
      split
      · next finite => exact iff_of_true (.float number) finite
      · next lost =>
          apply iff_of_false _ lost
          intro declares
          cases declares
  | int number => iff_of_true (.integer number) ((portable_leaf rfl rfl).mpr trivial)
  | string text => iff_of_true (.string text) ((portable_leaf rfl rfl).mpr trivial)
  | bool flag => iff_of_true (.bool flag) ((portable_leaf rfl rfl).mpr trivial)
  | null => iff_of_true .null ((portable_leaf rfl rfl).mpr trivial)
  | enum name => iff_of_true (.string name) ((portable_leaf rfl rfl).mpr trivial)
  | list items => by
      rw [Portable, leaves, objectKeys, ← declareItems_spelled_iff items, toJson, spelled]
      constructor
      · rintro ⟨⟩
        next each => exact each
      · exact .list
  | object entries => by
      rw [Portable, leaves, objectKeys, ← declareEntries_spelled_iff entries, toJson, spelled,
        ← keys_entriesToJson]
      exact declaresObject_iff

theorem declareItems_spelled_iff : (items : List Value) →
    (DeclareItems (itemsToJson items) (spelledItems items) ↔
      PortableParts (itemLeaves items) (itemKeys items))
  | [] => iff_of_true .nil ⟨List.forall_mem_nil _, List.forall_mem_nil _⟩
  | item :: rest => by
      rw [itemLeaves, itemKeys, PortableParts.append_iff, ← declareItems_spelled_iff rest,
        ← Portable, ← declares_spelled_iff item]
      constructor
      · rintro ⟨⟩
        next first others => exact ⟨first, others⟩
      · rintro ⟨first, others⟩
        exact .cons first others

theorem declareEntries_spelled_iff : (entries : List (String × Value)) →
    ((∀ key ∈ Entries.keys entries, key ∉ [referenceTag, enumTag]) ∧
        DeclareEntries (entriesToJson entries) (spelledEntries entries) ↔
      PortableParts (entryLeaves entries) (entryKeys entries))
  | [] => iff_of_true ⟨List.forall_mem_nil _, .nil⟩ ⟨List.forall_mem_nil _, List.forall_mem_nil _⟩
  | (key, value) :: rest => by
      rw [entryLeaves, entryKeys, PortableParts.key_iff, PortableParts.append_iff,
        ← declareEntries_spelled_iff rest, ← Portable, ← declares_spelled_iff value, Entries.keys,
        List.map_cons, List.forall_mem_cons]
      constructor
      · rintro ⟨⟨own, untagged⟩, ⟨⟩⟩
        next first others => exact ⟨own, first, untagged, others⟩
      · rintro ⟨own, first, untagged, others⟩
        exact ⟨⟨own, untagged⟩, .cons first others⟩

end

mutual

theorem spelled_of_no_enum : (value : Value) → (∀ name, enum name ∉ value.leaves) →
    value.spelled = value
  | list items => fun none => congrArg list (spelledItems_of_no_enum items none)
  | object entries => fun none => congrArg object (spelledEntries_of_no_enum entries none)
  | enum name => fun none => absurd List.mem_cons_self (none name)
  | reference _ | int _ | float _ | string _ | bool _ | null => fun _ => rfl

theorem spelledItems_of_no_enum : (items : List Value) → (∀ name, enum name ∉ itemLeaves items) →
    spelledItems items = items
  | [] => fun _ => rfl
  | item :: rest => by
      intro none
      simp only [itemLeaves, List.mem_append, not_or] at none
      rw [spelledItems, spelled_of_no_enum item fun name => (none name).1,
        spelledItems_of_no_enum rest fun name => (none name).2]

theorem spelledEntries_of_no_enum : (entries : List (String × Value)) →
    (∀ name, enum name ∉ entryLeaves entries) → spelledEntries entries = entries
  | [] => fun _ => rfl
  | (key, value) :: rest => by
      intro none
      simp only [entryLeaves, List.mem_append, not_or] at none
      rw [spelledEntries, spelled_of_no_enum value fun name => (none name).1,
        spelledEntries_of_no_enum rest fun name => (none name).2]

end

mutual

/-- Whether lists and objects nest at most `depth` deep, and no object has a key twice. -/
def isRegular (depth : Nat) : Value → Bool
  | list items => 0 < depth && allRegular (depth - 1) items
  | object entries =>
      0 < depth && (Entries.keys entries).Nodup && entriesRegular (depth - 1) entries
  | _ => true

def allRegular (depth : Nat) : List Value → Bool
  | [] => true
  | item :: rest => isRegular depth item && allRegular depth rest

def entriesRegular (depth : Nat) : List (String × Value) → Bool
  | [] => true
  | (_, value) :: rest => isRegular depth value && entriesRegular depth rest

end

theorem entriesRegular_iff {depth : Nat} {entries : List (String × Value)} :
    entriesRegular depth entries ↔ ∀ entry ∈ entries, entry.2.isRegular depth := by
  induction entries with
  | nil => simp [entriesRegular]
  | cons entry rest ih => rw [entriesRegular, Bool.and_eq_true, List.forall_mem_cons, ih]

/-- A float that is sent as a number is read from the text of it. -/
def leafReadsBack : Value → Bool
  | float number => !number.isFinite || Json.readsBack number
  | _ => true

mutual

theorem isLegible_toJson : (value : Value) → {depth : Nat} → value.isRegular depth →
    (∀ leaf ∈ value.leaves, leafReadsBack leaf) → value.toJson.isLegible depth
  | reference _, _ | string _, _ | bool _, _ | null, _ | enum _, _ => fun _ _ => rfl
  | int number, _ => by
      intro _ _
      have below : number.toInt < UInt64.size := lt_trans (Int64.toInt_lt number) (by decide)
      rw [toJson, Json.isLegible, decide_eq_true (Int64.minValue_le_toInt number),
        decide_eq_true below]
      rfl
  | float number, _ => by
      intro _ back
      have own := back (float number) List.mem_cons_self
      rw [toJson]
      split
      · next finite =>
          rw [Json.isLegible]
          simpa [leafReadsBack, finite] using own
      · rfl
  | list items, _ => by
      intro regular back
      rw [isRegular, Bool.and_eq_true] at regular
      rw [toJson, Json.isLegible, regular.1, Bool.true_and]
      exact allLegible_itemsToJson items regular.2 back
  | object entries, _ => by
      intro regular back
      rw [isRegular, Bool.and_eq_true] at regular
      rw [toJson, Json.isLegible, keys_entriesToJson, regular.1, Bool.true_and]
      exact entriesLegible_entriesToJson entries regular.2 back

theorem allLegible_itemsToJson : (items : List Value) → {depth : Nat} → allRegular depth items →
    (∀ leaf ∈ itemLeaves items, leafReadsBack leaf) → Json.allLegible depth (itemsToJson items)
  | [], _ => fun _ _ => rfl
  | item :: rest, _ => by
      intro regular back
      rw [allRegular, Bool.and_eq_true] at regular
      rw [itemLeaves, List.forall_mem_append] at back
      rw [itemsToJson, Json.allLegible, isLegible_toJson item regular.1 back.1, Bool.true_and]
      exact allLegible_itemsToJson rest regular.2 back.2

theorem entriesLegible_entriesToJson : (entries : List (String × Value)) → {depth : Nat} →
    entriesRegular depth entries → (∀ leaf ∈ entryLeaves entries, leafReadsBack leaf) →
      Json.entriesLegible depth (entriesToJson entries)
  | [], _ => fun _ _ => rfl
  | (_, value) :: rest, _ => by
      intro regular back
      rw [entriesRegular, Bool.and_eq_true] at regular
      rw [entryLeaves, List.forall_mem_append] at back
      rw [entriesToJson, Json.entriesLegible, isLegible_toJson value regular.1 back.1,
        Bool.true_and]
      exact entriesLegible_entriesToJson rest regular.2 back.2

end

/-- A portable value is loaded from the tree that is sent for it, with its enum literals as strings,
and without any it is the same value. The text of the tree is enough, unless it nests too deep, an
object has a key twice, or a float is not read from its text. -/
theorem loaded_as_sent (value : Value) (portable : value.Portable) :
    (∀ path, ofJson path value.toJson = .ok value.spelled) ∧
    ((∀ name, enum name ∉ value.leaves) → ∀ path, ofJson path value.toJson = .ok value) ∧
    (value.isRegular Json.maxDepth → (∀ leaf ∈ value.leaves, leafReadsBack leaf) → ∀ path,
      (Json.read? value.toJson.text).map (ofJson path) = some (.ok value.spelled)) := by
  have loaded (path : String) : ofJson path value.toJson = .ok value.spelled :=
    (ofJson_eq_ok_iff path _).mpr ((declares_spelled_iff value).mpr portable)
  refine ⟨loaded, fun none path => ?_, fun regular back path => ?_⟩
  · rw [loaded, spelled_of_no_enum value none]
  · rw [Json.read?_text (isLegible_toJson value regular back), Option.map_some, loaded]

def mixedValue : Value :=
  .object [("ratio", .float (.ofDecimal false ⟨1, 0⟩)), ("zero", .float (.ofDecimal true ⟨0, 0⟩)),
    ("least", .int Int64.minValue), ("kinds", .list [.enum "CAT", .string "\"\n\u2028", .null]),
    ("a", .object [("b", .bool true), ("$ref", .list [])])]

theorem mixedValue_loaded_as_sent : mixedValue.Portable ∧ mixedValue.isRegular Json.maxDepth ∧
    (∀ leaf ∈ mixedValue.leaves, leafReadsBack leaf) ∧
    ∀ path, ofJson path mixedValue.toJson = .ok mixedValue.spelled ∧
      (Json.read? mixedValue.toJson.text).map (ofJson path) = some (.ok mixedValue.spelled) := by
  have portable : mixedValue.Portable := by
    constructor
    · exact (@check_eq_ok_iff .empty mixedValue).mp (by decide +kernel)
    · decide +kernel
  have regular : mixedValue.isRegular Json.maxDepth := by decide +kernel
  have back : ∀ leaf ∈ mixedValue.leaves, leafReadsBack leaf := by decide +kernel
  rcases loaded_as_sent mixedValue portable with ⟨loaded, -, read⟩
  exact ⟨portable, regular, back, fun path => ⟨loaded path, read regular back path⟩⟩

end GraphRequest.Value
