import GraphRequest.Text.Collapse
import GraphRequest.Text.Quoted
import GraphRequest.Text.Words

/-!
Texts that collapsing leaves as they are: no white space at their ends, and only single spaces
outside of their string literals.
-/

namespace GraphRequest.Text

/-- Behind kept text all of the text is kept. -/
structure Kept (text : List Char) : Prop where
  run : Collapse.word.run text = text
  after : Collapse.word.after text = .word

/-- Kept text with more than white space at its front. -/
structure Solid (text : List Char) : Prop extends Kept text where
  front : ∃ c ∈ text.head?, isBlank c = false

def isPlainChar (c : Char) : Bool :=
  !isBlank c && c ≠ '"'

def isPlain (text : String) : Bool :=
  text ≠ "" && text.toList.all isPlainChar

theorem isPlainChar_iff {c : Char} : isPlainChar c ↔ isBlank c = false ∧ c ≠ '"' := by
  simp [isPlainChar]

theorem isPlainChar_of_range {c : Char} (low : 48 ≤ c.toNat) (high : c.toNat ≤ 122) :
    isPlainChar c := by
  rw [isPlainChar_iff]
  constructor
  · simp only [isBlank, isWithin, blankRanges, List.any_cons, List.any_nil]
    grind
  · rintro rfl
    exact absurd low (by decide)

variable {first second text : List Char}

namespace Kept

theorem nil : Kept [] := ⟨rfl, rfl⟩

theorem append (left : Kept first) (right : Kept second) : Kept (first ++ second) where
  run := by rw [Collapse.run_append, left.run, left.after, right.run]
  after := by rw [Collapse.after_append, left.after, right.after]

theorem cons {c : Char} (plain : isPlainChar c) (kept : Kept text) : Kept (c :: text) := by
  have stays : Collapse.word.step c = ([c], .word) := by
    simp [Collapse.step, Collapse.afterKept, isPlainChar_iff.mp plain]
  constructor
  · rw [Collapse.run, stays, kept.run]
    rfl
  · rw [Collapse.after, stays, kept.after]

theorem of_plain (plain : text.all isPlainChar) : Kept text := by
  induction text with
  | nil => exact .nil
  | cons c text ih =>
      rw [List.all_cons, Bool.and_eq_true] at plain
      exact .cons plain.1 (ih plain.2)

end Kept

namespace Solid

theorem append (left : Solid first) (right : Kept second) : Solid (first ++ second) where
  toKept := left.toKept.append right
  front := by
    rcases left.front with ⟨c, here, solid⟩
    exact ⟨c, by simp [Option.mem_def.mp here], solid⟩

/-- Outside of literals the state does not matter to what comes after the first character. -/
theorem cases (solid : Solid text) : ∃ c rest, text = c :: rest ∧ isBlank c = false ∧
    (Collapse.afterKept c).run rest = rest ∧ (Collapse.afterKept c).after rest = .word := by
  rcases solid.front with ⟨c, here, front⟩
  cases text with
  | nil => cases here
  | cons d rest =>
      cases here
      have run := solid.run
      have after := solid.after
      simp only [Collapse.run, Collapse.after, Collapse.step, front, Bool.false_eq_true,
        if_false, List.singleton_append, List.cons.injEq, true_and] at run after
      exact ⟨c, rest, rfl, front, run, after⟩

theorem space (solid : Solid text) : Kept (' ' :: text) := by
  rcases solid.cases with ⟨c, rest, rfl, front, run, after⟩
  have blank : isBlank ' ' = true := by decide
  constructor
  · simp [Collapse.run, Collapse.step, blank, front, run]
  · simp [Collapse.after, Collapse.step, blank, front, after]

theorem run_start (solid : Solid text) : Collapse.start.run text = text := by
  rcases solid.cases with ⟨c, rest, rfl, front, run, -⟩
  simp [Collapse.run, Collapse.step, front, run]

theorem after_start (solid : Solid text) : Collapse.start.after text = .word := by
  rcases solid.cases with ⟨c, rest, rfl, front, -, after⟩
  simp [Collapse.after, Collapse.step, front, after]

theorem of_plain {text : String} (plain : isPlain text) : Solid text.toList := by
  rw [isPlain, Bool.and_eq_true, decide_eq_true_eq] at plain
  rcases plain with ⟨present, all⟩
  refine ⟨.of_plain all, ?_⟩
  cases chars : text.toList with
  | nil => exact absurd (String.toList_eq_nil_iff.mp chars) present
  | cons c rest =>
      rw [chars, List.all_cons, Bool.and_eq_true] at all
      exact ⟨c, rfl, (isPlainChar_iff.mp all.1).1⟩

end Solid

theorem literal_escapeChar (c : Char) : Collapse.literal.run (escapeChar c) = escapeChar c ∧
    Collapse.literal.after (escapeChar c) = .literal := by
  unfold escapeChar
  repeat' split
  any_goals exact ⟨rfl, rfl⟩
  · have digits : ∀ code < 16, Nat.digitChar code ≠ '\\' ∧ Nat.digitChar code ≠ '"' := by decide
    have high := digits (c.toNat / 16) (by omega)
    have low := digits (c.toNat % 16) (by omega)
    simp [controlEscape, Collapse.run, Collapse.after, Collapse.step, high, low]
  · next quote slash _ _ _ _ _ _ =>
      simp [Collapse.run, Collapse.after, Collapse.step, quote, slash]

theorem literal_escaped (text : List Char) :
    Collapse.literal.run (text.flatMap escapeChar) = text.flatMap escapeChar ∧
      Collapse.literal.after (text.flatMap escapeChar) = .literal := by
  induction text with
  | nil => exact ⟨rfl, rfl⟩
  | cons c text ih =>
      obtain ⟨run, after⟩ := literal_escapeChar c
      rw [List.flatMap_cons, Collapse.run_append, Collapse.after_append, run, after, ih.1, ih.2]
      exact ⟨rfl, rfl⟩

theorem Solid.quote (text : String) : Solid (quote text).toList := by
  obtain ⟨run, after⟩ := literal_escaped text.toList
  have opens : Collapse.word.step '"' = (['"'], .literal) := by decide
  rw [Text.quote, String.toList_ofList, quoteChars]
  refine ⟨⟨?_, ?_⟩, '"', rfl, by decide⟩
  · rw [Collapse.run, opens, Collapse.run_append, run, after]
    rfl
  · rw [Collapse.after, opens, Collapse.after_append, after]
    rfl

section Rows

variable {texts : List String}

theorem Solid.intercalate {separator : String} (lead : List Char)
    (spaced : separator.toList = lead ++ [' ']) (kept : Kept lead)
    (solid : ∀ text ∈ texts, Solid text.toList) (present : texts ≠ []) :
    Solid (separator.intercalate texts).toList := by
  induction texts with
  | nil => exact absurd rfl present
  | cons text texts ih =>
      have first := solid text List.mem_cons_self
      cases texts with
      | nil =>
          rw [String.intercalate_singleton]
          exact first
      | cons next texts =>
          have others := ih (fun other later => solid other (List.mem_cons_of_mem _ later)) (by simp)
          rw [String.intercalate_cons_cons, String.toList_append, String.toList_append, spaced,
            List.append_assoc, List.append_assoc, List.singleton_append]
          exact first.append (kept.append others.space)

theorem Kept.commas (solid : ∀ text ∈ texts, Solid text.toList) :
    Kept (", ".intercalate texts).toList := by
  have comma : Kept [','] := .of_plain (by decide)
  cases texts with
  | nil => exact .nil
  | cons text texts => exact (Solid.intercalate [','] rfl comma solid (by simp)).toKept

theorem solid_joinWords (solid : ∀ word ∈ texts, word ≠ "" → Solid word.toList)
    (present : ∃ word ∈ texts, word ≠ "") : Solid (joinWords texts).toList := by
  have words : ∀ word ∈ texts.filter (· ≠ ""), Solid word.toList := by
    intro word member
    rcases List.mem_filter.mp member with ⟨member, present⟩
    exact solid word member (by simpa using present)
  have some : texts.filter (· ≠ "") ≠ [] := by
    rcases present with ⟨word, member, present⟩
    have kept : word ∈ texts.filter (· ≠ "") := by simp [member, present]
    exact List.ne_nil_of_mem kept
  exact Solid.intercalate [] rfl .nil words some

end Rows

end GraphRequest.Text
