import GraphRequest.Json.Reader
import GraphRequest.Text.Quoted

/-!
Every character of a string literal is read back from the way in which it is written.
-/

namespace GraphRequest.Json.Reader

variable {c : Char} {text rest : List Char}

inductive Escapes (c : Char) : (text : List Char) → Prop
  | letter {letter : Char} (other : letter ≠ 'u') (meant : unescape letter = some c) :
      Escapes c ['\\', letter]
  | code {high low : Char} (unit : codeUnit '0' '0' high low = some c.toNat)
      (noHigh : isHighSurrogate c.toNat = false) (noLow : isLowSurrogate c.toNat = false) :
      Escapes c ['\\', 'u', '0', '0', high, low]
  | plain (quote : c ≠ '"') (slash : c ≠ '\\') (printed : ¬c.toNat < 0x20) : Escapes c [c]

theorem Escapes.control (control : c.toNat < 0x20) : Escapes c (Text.controlEscape c) := by
  have digits : ∀ code < 0x20, codeUnit '0' '0' (Nat.digitChar (code / 16))
      (Nat.digitChar (code % 16)) = some code := by decide
  apply code (digits _ control)
  · rw [isHighSurrogate, Bool.and_eq_false_iff, decide_eq_false_iff_not]
    omega
  · rw [isLowSurrogate, Bool.and_eq_false_iff, decide_eq_false_iff_not]
    omega

theorem escapes_escapeChar (c : Char) : Escapes c (Text.escapeChar c) := by
  by_cases short : c ∈ ['"', '\\', '\x08', '\t', '\n', '\x0c', '\r']
  · have simple : ∀ d ∈ ['"', '\\', '\x08', '\t', '\n', '\x0c', '\r'], ∃ letter,
        letter ≠ 'u' ∧ Text.escapeChar d = ['\\', letter] ∧ unescape letter = some d := by
      simp only [List.forall_mem_cons]
      exact ⟨⟨'"', by decide⟩, ⟨'\\', by decide⟩, ⟨'b', by decide⟩, ⟨'t', by decide⟩,
        ⟨'n', by decide⟩, ⟨'f', by decide⟩, ⟨'r', by decide⟩, by simp⟩
    rcases simple c short with ⟨letter, other, written, meant⟩
    rw [written]
    exact .letter other meant
  · simp only [List.mem_cons, List.not_mem_nil, or_false, not_or] at short
    rcases short with ⟨quote, slash, back, tab, line, feed, carriage⟩
    rw [Text.escapeChar, if_neg quote, if_neg slash, if_neg back, if_neg tab, if_neg line,
      if_neg feed, if_neg carriage]
    split
    · next control => exact .control control
    · next printed => exact .plain quote slash printed

theorem Escapes.literal (escapes : Escapes c text) :
    Reader.literal (text ++ rest) = prepend c (Reader.literal rest) := by
  cases escapes with
  | letter other meant =>
      rw [List.cons_append, List.cons_append, List.nil_append, Reader.literal, meant]
      intro _ _ _ _ _ same
      exact absurd same other
  | code unit noHigh noLow =>
      simp only [List.cons_append, List.nil_append, Reader.literal, unit, noHigh, noLow]
      simp
  | plain quote slash printed =>
      rw [List.cons_append, List.nil_append, Reader.literal, if_neg printed]
      · exact quote
      · intro _ _ _ _ _ same
        exact absurd same slash
      · intro _ _ same
        exact absurd same slash

theorem literal_written (text : List Char) :
    literal (text.flatMap Text.escapeChar ++ '"' :: rest) = some (text, rest) := by
  induction text with
  | nil => rw [List.flatMap_nil, List.nil_append, literal]
  | cons c text ih =>
      rw [List.flatMap_cons, List.append_assoc, (escapes_escapeChar c).literal, ih]
      rfl

end GraphRequest.Json.Reader
