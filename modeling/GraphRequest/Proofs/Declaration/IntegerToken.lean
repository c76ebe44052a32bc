import GraphRequest.Proofs.Declaration.Encounter
import GraphRequest.Proofs.Declaration.Located

/-!
What becomes of the integer tokens in a declaration's text. Those that fit into a signed 64-bit
integer are kept, those that fit only without a sign are refused, and those beyond become floats.
-/

namespace GraphRequest

open Json

/-- The value that a number token without fraction and exponent becomes. It is an integer if it fits,
and a zero with a sign is a float, as is what lies outside of all 64-bit ranges. -/
inductive Json.NumberToken.Becomes (token : NumberToken) : Value → Prop
  | int {value : Int64} (same : value.toInt = token.numeral.integer)
      (inside : ¬token.numeral.OutOfRanges) : token.Becomes (.int value)
  | float {number : Binary64} (outside : token.numeral.OutOfRanges)
      (read : token.numeral.float? = some number) : token.Becomes (.float number)

namespace Json.NumberToken

variable {token : NumberToken}

theorem Declares.becomes {value? : Option Value} (declares : token.Declares value?)
    (whole : token.numeral.isInteger) : ∃ value ∈ value?, token.Becomes value := by
  obtain ⟨value, there, declares⟩ := declares
  refine ⟨value, there, ?_⟩
  rcases Numeral.value_of_isInteger whole token.valued with
    ⟨inside, same⟩ | ⟨outside, number, read, same⟩
  · rw [same] at declares
    -- the index of the relation has to be a variable before its rules are told apart
    generalize known : token.numeral.integer = n at declares
    cases declares with
    | integer value => exact .int known.symm inside
  · rw [same] at declares
    cases declares
    exact .float outside read

theorem overflows (whole : token.numeral.isInteger)
    (low : Int64.maxValue.toInt < token.numeral.integer)
    (high : token.numeral.integer < UInt64.size) :
    token.value = .integer token.numeral.integer ∧
      Value.fitsInt64 token.numeral.integer = false := by
  constructor
  · rcases Numeral.value_of_isInteger whole token.valued with ⟨-, same⟩ | ⟨outside, -⟩
    · exact same
    · have least : Int64.minValue.toInt ≤ Int64.maxValue.toInt := by decide
      have nonnegative : 0 ≤ Int64.maxValue.toInt := by decide
      rw [Numeral.OutOfRanges] at outside
      omega
  · simp [Value.fitsInt64, low]

theorem reads (whole : token.numeral.isInteger)
    (apart : token.numeral.integer ≤ Int64.maxValue.toInt ∨ UInt64.size ≤ token.numeral.integer) :
    ∃ value, token.Becomes value ∧ ∀ path, Value.ofJson path token.value = .ok value := by
  rcases Numeral.value_of_isInteger whole token.valued with
    ⟨inside, same⟩ | ⟨outside, number, read, same⟩
  · have bounds := inside
    rw [Numeral.OutOfRanges, not_or, not_or] at bounds
    have fits : Value.fitsInt64 token.numeral.integer = true := by
      rw [Value.fitsInt64, Bool.and_eq_true, decide_eq_true_iff, decide_eq_true_iff]
      omega
    obtain ⟨value, known⟩ := (Value.fitsInt64_iff _).mp fits
    refine ⟨.int value, .int known inside, fun path => ?_⟩
    rw [same, ← known]
    exact (Value.ofJson_eq_ok_iff path _).mpr (.integer value)
  · refine ⟨.float number, .float outside read, fun path => ?_⟩
    rw [same]
    exact (Value.ofJson_eq_ok_iff path _).mpr (.float _)

end Json.NumberToken

theorem Fragment.loadText_eq {text : String} {tree : Spelled} (read : Spelled.read? text = some tree) :
    loadText text = load tree.json := by
  rw [loadText, Spelled.read?_eq, read]
  rfl

theorem OperationDraft.loadText_eq {text : String} {tree : Spelled} (type : OperationType)
    (read : Spelled.read? text = some tree) : loadText type text = load type tree.json := by
  rw [loadText, Spelled.read?_eq, read]
  rfl

/-- An integer token is read as the value that it becomes, and this value stands in its place in what
is loaded. Loading fails when it comes to a token whose number fits into 64 bits only without a sign. -/
theorem integer_token_becomes {text : String} {tree : Spelled} {token : NumberToken}
    (read : Spelled.read? text = some tree) (whole : token.numeral.isInteger) :
    (token.numeral.integer ≤ Int64.maxValue.toInt ∨ UInt64.size ≤ token.numeral.integer →
      ∃ value, token.Becomes value ∧ ∀ path, Value.ofJson path token.value = .ok value) ∧
    (∀ key place fragment, tree.inFragment? key place = some (.number token) →
      Fragment.loadText text = .ok fragment →
        ∃ value ∈ fragment.valueAt? key place, token.Becomes value) ∧
    (∀ type place draft, tree.inOperation? place = some (.number token) →
      OperationDraft.loadText type text = .ok draft →
        ∃ value ∈ draft.valueAt? place, token.Becomes value) ∧
    (Int64.maxValue.toInt < token.numeral.integer → token.numeral.integer < UInt64.size →
      (∀ place, tree.FragmentComesTo token place →
        Fragment.loadText text = .error (.integerOverflow token.numeral.integer place)) ∧
      ∀ type place, tree.OperationComesTo token type place →
        OperationDraft.loadText type text =
          .error (.integerOverflow token.numeral.integer place)) := by
  refine ⟨NumberToken.reads whole, ?inFragments, ?inOperations, ?refused⟩
  case inFragments =>
    intro key place fragment stands loaded
    rw [Fragment.loadText_eq read, Fragment.load_eq_ok_iff] at loaded
    exact (loaded.valueAt? stands).becomes whole
  case inOperations =>
    intro type place draft stands loaded
    rw [OperationDraft.loadText_eq type read, OperationDraft.load_eq_ok_iff] at loaded
    exact (loaded.valueAt? stands).becomes whole
  case refused =>
    intro low high
    obtain ⟨valued, large⟩ := NumberToken.overflows whole low high
    constructor
    · intro place comes
      rw [Fragment.loadText_eq read]
      exact comes.error valued large
    · intro type place comes
      rw [OperationDraft.loadText_eq type read]
      exact comes.error valued large

def debtText : String :=
  "\x7b\"__fragmentName\":\"Debtor\",\"__typename\":\"Account\"," ++
    "\"debts\":\x7b\"__args\":\x7b\"above\":[-9223372036854775808]\x7d\x7d\x7d"

def debtToken : NumberToken :=
  ⟨⟨true, "9223372036854775808".toList, none, none⟩, .integer (-9223372036854775808), by rfl⟩

def debtTree : Spelled :=
  .object [("__fragmentName", .string "Debtor"), ("__typename", .string "Account"),
    ("debts", .object [("__args", .object [("above", .list [.number debtToken])])])]

def debtField : DeclaredField :=
  ⟨{ arguments := some ⟨[("above", .list [.int (-9223372036854775808)])], by decide⟩ }, []⟩

def debtFragment : Fragment :=
  { name := "Debtor", typeCondition := "Account", fields := ⟨[("debts", debtField)], by decide⟩ }

def takeText : String :=
  "\x7b\"__directives\":[\x7b\"name\":\"take\",\"args\":\x7b\"first\":7\x7d\x7d]\x7d"

def takeToken : NumberToken :=
  ⟨⟨false, ['7'], none, none⟩, .integer 7, by rfl⟩

def takeTree : Spelled :=
  .object [("__directives", .list [.object [("name", .string "take"),
    ("args", .object [("first", .number takeToken)])]])]

def takeDraft : OperationDraft :=
  { type := .query, directives := [⟨"take", ⟨[("first", .int 7)], by decide⟩⟩] }

def assetText : String :=
  "\x7b\"__variables\":\x7b\"bounds\":\x7b\"type\":\"Bounds\"," ++
    "\"value\":\x7b\"below\":9223372036854775808\x7d\x7d\x7d\x7d"

def assetToken : NumberToken :=
  ⟨⟨false, "9223372036854775808".toList, none, none⟩, .integer 9223372036854775808, by rfl⟩

def assetTree : Spelled :=
  .object [("__variables", .object [("bounds",
    .object [("type", .string "Bounds"), ("value", .object [("below", .number assetToken)])])])]

theorem assetTree_comesTo (type : OperationType) :
    assetTree.OperationComesTo assetToken type "__variables.bounds.below" := by
  have nothing : DeclaresOperation type (.object []) { type } := OperationDraft.load_eq_ok_iff.mp rfl
  have noValue : Given ["value"] (IsSome DeclaresValue) [("type", .string "Bounds")] none none :=
    (Given.skip_iff (by decide)).mpr (Given.nil_iff.mpr rfl)
  have typed : Given ["type"] (IsSome IsString) [("type", .string "Bounds")] none (some "Bounds") :=
    (given_some_iff List.mem_cons_self).mpr ⟨"Bounds", rfl, Given.nil_iff.mpr rfl⟩
  have unmarked : Given ["nonNullable"] IsBoolean [("type", .string "Bounds")] false false :=
    (Given.skip_iff (by decide)).mpr (Given.nil_iff.mpr rfl)
  have inValue : Spelled.ValueComesTo assetToken "__variables.bounds"
      (.object ([] ++ ("below", .number assetToken) :: [])) "__variables.bounds.below" :=
    .entry (by decide) (by decide) .nil .here
  have inVariable : Spelled.VariableComesTo assetToken "bounds"
      (.object ([("type", .string "Bounds")] ++ ("value", _) :: [])) "__variables.bounds.below" :=
    .value (by decide) noValue typed unmarked inValue
  have inVariables : Spelled.VariablesComeTo assetToken (.object ([] ++ ("bounds", _) :: []))
      "__variables.bounds.below" :=
    .input ⟨[], rfl, .nil⟩ inVariable
  have inOperation : Spelled.OperationComesTo assetToken type
      (.object ([] ++ ("__variables", _) :: [])) "__variables.bounds.below" :=
    .inputs nothing inVariables
  exact inOperation

theorem debtToken_becomes_assetToken_refused :
    (∃ value, debtToken.Becomes value ∧ ∀ path, Value.ofJson path debtToken.value = .ok value) ∧
    (Fragment.loadText debtText = .ok debtFragment ∧
      ∃ value ∈ debtFragment.valueAt? "debts" (.argument "above" [.item 0]),
        debtToken.Becomes value) ∧
    (OperationDraft.loadText .query takeText = .ok takeDraft ∧
      ∃ value ∈ takeDraft.valueAt? (.directive 0 "first" []), takeToken.Becomes value) ∧
    OperationDraft.loadText .query assetText =
      .error (.integerOverflow 9223372036854775808 "__variables.bounds.below") := by
  have debtRead : Spelled.read? debtText = some debtTree := by rfl
  have takeRead : Spelled.read? takeText = some takeTree := by rfl
  have assetRead : Spelled.read? assetText = some assetTree := by rfl
  have debtLoaded : Fragment.loadText debtText = .ok debtFragment := by
    rw [Fragment.loadText_eq debtRead]
    rfl
  have takeLoaded : OperationDraft.loadText .query takeText = .ok takeDraft := by
    rw [OperationDraft.loadText_eq .query takeRead]
    rfl
  refine ⟨?_, ⟨debtLoaded, ?_⟩, ⟨takeLoaded, ?_⟩, ?_⟩
  · exact (integer_token_becomes debtRead (by decide)).1 (by decide)
  · exact (integer_token_becomes debtRead (by decide)).2.1 "debts" (.argument "above" [.item 0])
      debtFragment rfl debtLoaded
  · exact (integer_token_becomes takeRead (by decide)).2.2.1 .query (.directive 0 "first" [])
      takeDraft rfl takeLoaded
  · exact ((integer_token_becomes assetRead (by decide)).2.2.2 (by decide) (by decide)).2 .query
      "__variables.bounds.below" (assetTree_comesTo .query)

def userText : String :=
  "\x7b\"__fragmentName\":\"F\",\"__typename\":\"T\"," ++
    "\"user\":\x7b\"__args\":\x7b\"id\":18446744073709551616,\"offset\":-0\x7d\x7d\x7d"

def wideFloat : Binary64 :=
  .ofDecimal false ⟨18446744073709551616, 0⟩

def wideToken : NumberToken :=
  ⟨⟨false, "18446744073709551616".toList, none, none⟩, .float wideFloat, by rfl⟩

def minusZeroToken : NumberToken :=
  ⟨⟨true, ['0'], none, none⟩, .float (.zero true), by rfl⟩

def userTree : Spelled :=
  .object [("__fragmentName", .string "F"), ("__typename", .string "T"),
    ("user", .object [("__args",
      .object [("id", .number wideToken), ("offset", .number minusZeroToken)])])]

def userField : DeclaredField :=
  ⟨{ arguments := some ⟨[("id", .float wideFloat), ("offset", .float (.zero true))],
    by decide⟩ }, []⟩

def userFragment : Fragment :=
  { name := "F", typeCondition := "T", fields := ⟨[("user", userField)], by decide⟩ }

/-- Neither the number that does not fit nor the zero that fits is kept as an integer, and nothing is
refused. -/
theorem userText_loaded_as_floats :
    Spelled.read? userText = some userTree ∧
    (wideToken.numeral.isInteger ∧ Int64.maxValue.toInt < wideToken.numeral.integer ∧
      userTree.inFragment? "user" (.argument "id" []) = some (.number wideToken)) ∧
    (minusZeroToken.numeral.isInteger ∧ minusZeroToken.numeral.integer = 0 ∧
      userTree.inFragment? "user" (.argument "offset" []) = some (.number minusZeroToken)) ∧
    Fragment.loadText userText = .ok userFragment ∧
    userFragment.valueAt? "user" (.argument "id" []) = some (.float wideFloat) ∧
    userFragment.valueAt? "user" (.argument "offset" []) = some (.float (.zero true)) := by
  have read : Spelled.read? userText = some userTree := by rfl
  have loaded : Fragment.loadText userText = .ok userFragment := by
    rw [Fragment.loadText_eq read]
    rfl
  exact ⟨read, ⟨by decide, by decide, rfl⟩, ⟨by decide, by decide, rfl⟩, loaded, rfl, rfl⟩

end GraphRequest
