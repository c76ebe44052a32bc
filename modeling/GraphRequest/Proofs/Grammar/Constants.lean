import GraphRequest.Proofs.Grammar.Spelling
import GraphRequest.Proofs.Json.Literal
import GraphRequest.Proofs.Number.FloatText
import GraphRequest.Proofs.Number.Plain

/-!
Numbers and strings as they are written spell the tokens of their values.
-/

namespace GraphRequest.Grammar

variable {text rest : List Char} {c : Char}

section Numbers

open Json

theorem numberStart_excludes (start : c = '-' ∨ c.isDigit) :
    c ∉ ignored ∧ c ∉ marks ∧ c ∉ ['#', '.', '"'] ∧ isNameStart c = false := by
  have excluded : (ignored ++ marks ++ ['#', '.', '"']).all fun d => d ≠ '-' && !d.isDigit := by
    decide
  have absent : c ∉ ignored ++ marks ++ ['#', '.', '"'] := by
    intro member
    have other := List.all_eq_true.mp excluded c member
    rw [Bool.and_eq_true, decide_eq_true_eq, Bool.not_eq_true'] at other
    rcases start with same | digit
    · exact other.1 same
    · rw [digit] at other
      cases other.2
  have letter : isNameStart c = false := by
    rcases start with rfl | digit
    · rfl
    · by_contra other
      have low := (isNameStart_bounds (Bool.eq_true_of_not_eq_false other)).1
      have high : c.toNat ≤ 57 := (Char.isDigit_iff_toNat.mp digit).2
      omega
  rw [List.mem_append, List.mem_append, not_or, not_or] at absent
  exact ⟨absent.1.1, absent.1.2, absent.2, letter⟩

theorem tokenAt_number (start : c = '-' ∨ c.isDigit) : tokenAt c rest = numberAt (c :: rest) := by
  obtain ⟨-, unmarked, apart, letter⟩ := numberStart_excludes start
  simp only [List.mem_cons, List.not_mem_nil, or_false, not_or] at apart
  unfold tokenAt
  rw [if_neg unmarked, if_neg apart.2.1, if_neg (by rw [letter]; decide), if_neg apart.2.2]

theorem Separate.ends (separate : Separate rest) :
    Numeral.Ends rest ∧ endsNumber rest := by
  cases rest with
  | nil => exact ⟨fun _ here => (nomatch here), rfl⟩
  | cons c rest =>
      rcases separates_iff.mp (separate c rfl) with ⟨name, point, -⟩
      simp only [isNameContinue, Char.isAlphanum, Bool.or_eq_false_iff, decide_eq_false_iff_not] at name
      rcases name with ⟨⟨letter, digit⟩, line⟩
      constructor
      · intro d here
        cases here
        refine ⟨digit, point, ?_, ?_⟩
        · rintro rfl
          cases letter
        · rintro rfl
          cases letter
      · simp [endsNumber, isNameStart, letter, digit, line, point]

theorem Takes.number {token : Token}
    (reads : ∀ rest, Numeral.Ends rest → ∃ numeral,
      Numeral.read (text ++ rest) = some (numeral, rest) ∧ numberToken numeral = token) :
    Takes text token := by
  rcases reads [] fun _ here => nomatch here with ⟨_, read, -⟩
  rw [List.append_nil] at read
  rcases FloatFormat.start_of_read read with ⟨c, more, rfl, start⟩
  obtain ⟨kept, -, apart, -⟩ := numberStart_excludes start
  refine ⟨c, more, rfl, kept, fun same => apart (same ▸ List.mem_cons_self),
    fun rest separate => ?_⟩
  rcases separate.ends with ⟨ends, stops⟩
  obtain ⟨numeral, read, same⟩ := reads rest ends
  rw [List.cons_append] at read
  rw [tokenAt_number start, numberAt, read]
  dsimp only
  rw [if_pos stops, same]

theorem Takes.float (format : FloatFormat) {value : Binary64} (finite : value.isFinite) :
    Takes (format.text value).toList (.float value) := by
  rw [FloatFormat.text, String.toList_ofList]
  cases value with
  | nan => cases finite
  | infinite negative => cases finite
  | finite negative exponent fraction =>
      refine .number fun rest ends => ?_
      obtain ⟨numeral, read, decimal, value⟩ := format.read_chars negative exponent fraction
      refine ⟨numeral, read rest ends, ?_⟩
      rw [numberToken, decimal, if_neg Bool.false_ne_true, value]

theorem Spells.float (format : FloatFormat) {value : Binary64} (finite : value.isFinite) :
    Spells (format.text value).toList [.float value] :=
  .of_takes (format.solid_text value) (.float format finite)

theorem Takes.int (value : Int) : Takes (Int.repr value).toList (.int value) := by
  refine .number fun rest ends => ⟨_, FloatFormat.read_intRepr value ends, ?_⟩
  have magnitude := Decimal.ofDigits_toDigits value.natAbs
  have same : (if value < 0 then -(value.natAbs : Int) else value.natAbs) = value := by
    split <;> omega
  simp only [numberToken, Numeral.isInteger, magnitude, decide_eq_true_eq, Option.isNone_none,
    Bool.and_self, if_true, same]

theorem Spells.int (value : Int) : Spells (Int.repr value).toList [.int value] :=
  .of_takes (solid_intRepr value) (.int value)

end Numbers

section Strings

open Json.Reader

theorem stringChars_quote : stringChars ('"' :: rest) = some ([], rest) := by
  rw [stringChars, if_pos rfl]

theorem stringChars_escape {meant : Char} {after : List Char}
    (escaped : escapedChar rest = some (meant, after)) (shorter : after.length ≤ rest.length) :
    stringChars ('\\' :: rest) = prepend meant (stringChars after) := by
  rw [stringChars, if_neg (by decide), if_pos rfl, escaped]
  dsimp only
  rw [if_pos shorter]

theorem escapedChar_letter {letter : Char} (other : letter ≠ 'u') :
    escapedChar (letter :: rest) = (unescape letter).map (·, rest) := by
  unfold escapedChar
  split
  · next same => exact absurd (List.cons.inj same).1 other
  · next same => exact absurd (List.cons.inj same).1 other
  · next same =>
      cases same
      rfl
  · next same => cases same

theorem stringChars_escapes (escapes : Escapes c text) :
    stringChars (text ++ rest) = prepend c (stringChars rest) := by
  cases escapes with
  | letter other meant =>
      rw [List.cons_append, List.cons_append, List.nil_append]
      apply stringChars_escape _ (Nat.le_succ _)
      rw [escapedChar_letter other, meant]
      rfl
  | code unit noHigh noLow =>
      simp only [List.cons_append, List.nil_append]
      apply stringChars_escape
      · rw [escapedChar]
        · rw [codedChar, unit, Option.bind_eq_bind, Option.bind_some, noLow, noHigh]
          simp
        · intro _ _ same
          exact absurd (List.cons.inj same).1 (by decide)
      · simp only [List.length_cons]
        omega
  | plain quote slash printed =>
      rw [List.cons_append, List.nil_append, stringChars, if_neg quote, if_neg slash,
        decide_eq_false printed, Bool.false_and, if_neg Bool.false_ne_true]

theorem stringChars_written (text : List Char) :
    stringChars (text.flatMap Text.escapeChar ++ '"' :: rest) = some (text, rest) := by
  induction text with
  | nil => exact stringChars_quote
  | cons c text ih =>
      rw [List.flatMap_cons, List.append_assoc, stringChars_escapes (escapes_escapeChar c), ih]
      rfl

theorem head?_escapeChar (c : Char) (rest : List Char) :
    (Text.escapeChar c ++ rest).head? ≠ some '"' := by
  by_cases quote : c = '"'
  · subst quote
    simp [Text.escapeChar]
  · unfold Text.escapeChar Text.controlEscape
    repeat' split
    all_goals simp [quote]

/-- An empty string is no block string unless a third quote follows. -/
theorem tokenAt_string (text : List Char) (separate : Separate rest) :
    tokenAt '"' (text.flatMap Text.escapeChar ++ '"' :: rest) =
      some (.string (String.ofList text), rest) := by
  have single : ∀ more, text.flatMap Text.escapeChar ++ '"' :: rest ≠ '"' :: '"' :: more := by
    intro more same
    cases text with
    | nil =>
        have next : rest = '"' :: more := (List.cons.inj same).2
        rw [next] at separate
        exact (separates_iff.mp (separate '"' rfl)).2.2 rfl
    | cons c text =>
        rw [List.flatMap_cons, List.append_assoc] at same
        exact head?_escapeChar c _ (congrArg List.head? same)
  unfold tokenAt
  rw [if_neg (by decide), if_neg (by decide), if_neg (by decide), if_pos rfl]
  split
  · next more same => exact absurd same (single more)
  · rw [stringChars_written]
    rfl

theorem Takes.string (text : String) : Takes (Text.quote text).toList (.string text) := by
  rw [Text.quote, String.toList_ofList]
  refine ⟨'"', _, rfl, by decide, by decide, fun rest separate => ?_⟩
  rw [List.append_assoc, List.singleton_append, tokenAt_string _ separate, String.ofList_toList]

theorem Spells.string (text : String) : Spells (Text.quote text).toList [.string text] :=
  .of_takes (.quote text) (.string text)

end Strings

end GraphRequest.Grammar
