import GraphRequest.Proofs.Text.Solid

/-!
The chunks of a text: its longest stretches of characters that are not white space or stand inside a
string literal. Collapsing a text leaves its chunks with one space between them.
-/

namespace GraphRequest.Text

/-- Behind an opening quote, a literal goes on to the first quote that no backslash escapes, or to the
end of the text; `rest` follows it. -/
inductive LiteralTail : (tail rest : List Char) → Prop
  | close (rest : List Char) : LiteralTail ['"'] rest
  | char {c : Char} {tail rest : List Char} (quote : c ≠ '"') (slash : c ≠ '\\')
      (later : LiteralTail tail rest) : LiteralTail (c :: tail) rest
  | escape (c : Char) {tail rest : List Char} (later : LiteralTail tail rest) :
      LiteralTail ('\\' :: c :: tail) rest
  | cut : LiteralTail [] []
  | cutEscape : LiteralTail ['\\'] []

/-- Characters up to the first white space that stands outside of literals, and the rest of the
text. -/
inductive Chunk : (chunk rest : List Char) → Prop
  | nil {rest : List Char} (apart : ∀ c ∈ rest.head?, isBlank c) : Chunk [] rest
  | char {c : Char} {chunk rest : List Char} (plain : isPlainChar c) (later : Chunk chunk rest) :
      Chunk (c :: chunk) rest
  | literal {tail chunk rest : List Char} (inside : LiteralTail tail (chunk ++ rest))
      (later : Chunk chunk rest) : Chunk ('"' :: (tail ++ chunk)) rest

/-- The text consists of the chunks, and of white space around and between them. -/
inductive SplitInto : (text : List Char) → (chunks : List (List Char)) → Prop
  | done {gap : List Char} (blank : gap.all isBlank) : SplitInto gap []
  | chunk {gap chunk rest : List Char} {chunks : List (List Char)} (blank : gap.all isBlank)
      (present : chunk ≠ []) (first : Chunk chunk rest) (later : SplitInto rest chunks) :
      SplitInto (gap ++ (chunk ++ rest)) (chunk :: chunks)

theorem isBlank_quote : isBlank '"' = false := by decide

namespace LiteralTail

variable {tail rest : List Char}

theorem exists_of_text : (text : List Char) → ∃ tail rest, text = tail ++ rest ∧ LiteralTail tail rest
  | [] => ⟨[], [], rfl, .cut⟩
  | c :: text => by
      by_cases quote : c = '"'
      · subst quote
        exact ⟨['"'], text, rfl, .close text⟩
      · by_cases slash : c = '\\'
        · subst slash
          cases text with
          | nil => exact ⟨['\\'], [], rfl, .cutEscape⟩
          | cons d text =>
              rcases exists_of_text text with ⟨tail, rest, rfl, later⟩
              exact ⟨'\\' :: d :: tail, rest, rfl, .escape d later⟩
        · rcases exists_of_text text with ⟨tail, rest, rfl, later⟩
          exact ⟨c :: tail, rest, rfl, .char quote slash later⟩

theorem unique {other rest' : List Char} (first : LiteralTail tail rest)
    (second : LiteralTail other rest') (same : tail ++ rest = other ++ rest') :
    tail = other ∧ rest = rest' := by
  induction first generalizing other with
  | close rest => cases second <;> grind
  | char quote slash _ ih => cases second <;> grind
  | escape c _ ih => cases second <;> grind
  | cut => cases second <;> grind
  | cutEscape => cases second <;> grind

theorem run (ends : LiteralTail tail rest) :
    Collapse.literal.run (tail ++ rest) = tail ++ Collapse.word.run rest := by
  induction ends with
  | close rest => simp [Collapse.run, Collapse.step]
  | char quote slash _ ih => simp [Collapse.run, Collapse.step, quote, slash, ih]
  | escape c _ ih => simp [Collapse.run, Collapse.step, ih]
  | cut => rfl
  | cutEscape => rfl

theorem passes (ends : LiteralTail tail rest) : Collapse.literal.run tail = tail ∧
    (Collapse.literal.after tail = .word ∨ rest = [] ∧ Collapse.literal.after tail ≠ .word) := by
  induction ends with
  | close rest => exact ⟨rfl, .inl rfl⟩
  | char quote slash _ ih => simpa [Collapse.run, Collapse.after, Collapse.step, quote, slash] using ih
  | escape c _ ih => simpa [Collapse.run, Collapse.after, Collapse.step] using ih
  | cut => decide
  | cutEscape => decide

/-- Only where a literal is cut off does it matter what follows, which is nothing. -/
theorem before {behind : List Char} (ends : LiteralTail tail rest) (cut : rest = [] → behind = []) :
    LiteralTail tail behind := by
  induction ends with
  | close rest => exact .close behind
  | char quote slash _ ih => exact .char quote slash (ih cut)
  | escape c _ ih => exact .escape c (ih cut)
  | cut =>
      rw [cut rfl]
      exact .cut
  | cutEscape =>
      rw [cut rfl]
      exact .cutEscape

end LiteralTail

namespace Chunk

variable {chunk rest : List Char}

theorem apart (first : Chunk chunk rest) : ∀ c ∈ rest.head?, isBlank c := by
  induction first with
  | nil apart => exact apart
  | char _ _ ih => exact ih
  | literal _ _ ih => exact ih

theorem front (first : Chunk chunk rest) (present : chunk ≠ []) :
    ∃ c more, chunk = c :: more ∧ isBlank c = false := by
  cases first with
  | nil _ => exact absurd rfl present
  | char plain _ => exact ⟨_, _, rfl, (isPlainChar_iff.mp plain).1⟩
  | literal _ _ => exact ⟨_, _, rfl, isBlank_quote⟩

theorem exists_of_text (text : List Char) : ∃ chunk rest, text = chunk ++ rest ∧ Chunk chunk rest := by
  cases text with
  | nil => exact ⟨[], [], rfl, .nil (by simp)⟩
  | cons c text =>
      by_cases blank : isBlank c
      · exact ⟨[], c :: text, rfl, .nil (by simpa using blank)⟩
      · by_cases quote : c = '"'
        · rcases LiteralTail.exists_of_text text with ⟨tail, behind, split, inside⟩
          have shorter : behind.length ≤ text.length := by simp [split]
          rcases exists_of_text behind with ⟨chunk, rest, rfl, later⟩
          exact ⟨'"' :: (tail ++ chunk), rest, by simp [quote, split], .literal inside later⟩
        · rcases exists_of_text text with ⟨chunk, rest, rfl, later⟩
          have plain : isPlainChar c := isPlainChar_iff.mpr ⟨by simpa using blank, quote⟩
          exact ⟨c :: chunk, rest, rfl, .char plain later⟩
termination_by text.length
decreasing_by all_goals simp; try omega

theorem eq_nil_of_apart {text : List Char} (first : Chunk chunk rest) (same : text = chunk ++ rest)
    (apart : ∀ c ∈ text.head?, isBlank c) : chunk = [] := by
  cases chunk with
  | nil => rfl
  | cons d chunk =>
      rcases first.front (by simp) with ⟨c, more, same', solid⟩
      have blank := apart c (by simp [same, same'])
      rw [solid] at blank
      cases blank

theorem unique {other rest' : List Char} (first : Chunk chunk rest) (second : Chunk other rest')
    (same : chunk ++ rest = other ++ rest') : chunk = other ∧ rest = rest' := by
  induction first generalizing other with
  | nil apart =>
      have none := second.eq_nil_of_apart same apart
      subst none
      exact ⟨rfl, same⟩
  | char plain first ih =>
      cases second with
      | nil apart => exact absurd ((first.char plain).eq_nil_of_apart same.symm apart) (by simp)
      | char _ later => grind
      | literal _ _ => grind [isPlainChar_iff]
  | literal inside first ih =>
      cases second with
      | nil apart => exact absurd ((first.literal inside).eq_nil_of_apart same.symm apart) (by simp)
      | char plain _ => grind [isPlainChar_iff]
      | literal inside' later =>
          simp only [List.cons_append, List.append_assoc, List.cons.injEq, true_and] at same
          rcases inside.unique inside' same with ⟨rfl, behind⟩
          rcases ih later behind with ⟨rfl, rfl⟩
          exact ⟨rfl, rfl⟩

theorem run (first : Chunk chunk rest) :
    Collapse.word.run (chunk ++ rest) = chunk ++ Collapse.word.run rest := by
  induction first with
  | nil _ => rfl
  | char plain _ ih =>
      simp [Collapse.run, Collapse.step, Collapse.afterKept, isPlainChar_iff.mp plain, ih]
  | literal inside _ ih =>
      simp [Collapse.run, Collapse.step, Collapse.afterKept, isBlank_quote, inside.run, ih]

theorem before {behind : List Char} (first : Chunk chunk rest) (cut : rest = [] → behind = [])
    (apart : ∀ c ∈ behind.head?, isBlank c) : Chunk chunk behind := by
  induction first with
  | nil _ => exact .nil apart
  | char plain _ ih => exact .char plain (ih cut)
  | literal inside _ ih =>
      apply Chunk.literal _ (ih cut)
      apply inside.before
      intro nothing
      rw [List.append_eq_nil_iff] at nothing
      rw [nothing.1, cut nothing.2]
      rfl

end Chunk

namespace Collapse

variable {gap text : List Char}

theorem start_run_gap (blank : gap.all isBlank) : start.run (gap ++ text) = start.run text := by
  induction gap with
  | nil => rfl
  | cons c gap ih =>
      rw [List.all_cons, Bool.and_eq_true] at blank
      simp [run, step, blank.1, ih blank.2]

theorem gap_run_gap (blank : gap.all isBlank) : Collapse.gap.run (gap ++ text) = Collapse.gap.run text := by
  induction gap with
  | nil => rfl
  | cons c gap ih =>
      rw [List.all_cons, Bool.and_eq_true] at blank
      simp [run, step, blank.1, ih blank.2]

theorem word_run_apart (apart : ∀ c ∈ text.head?, isBlank c) : word.run text = Collapse.gap.run text := by
  cases text with
  | nil => rfl
  | cons c text => simp [run, step, apart c rfl]

end Collapse

def spaced (chunks : List (List Char)) : List Char :=
  chunks.flatMap (' ' :: ·)

theorem intercalate_eq_spaced (chunk : List Char) (chunks : List (List Char)) :
    [' '].intercalate (chunk :: chunks) = chunk ++ spaced chunks := by
  induction chunks generalizing chunk with
  | nil => simp [spaced]
  | cons next chunks ih => simp [ih, spaced]

theorem spaced_apart (chunks : List (List Char)) : ∀ c ∈ (spaced chunks).head?, isBlank c := by
  have blank : isBlank ' ' := by decide
  cases chunks with
  | nil => simp [spaced]
  | cons chunk chunks => simp [spaced, blank]

theorem dropWhile_gap {gap body : List Char} (blank : gap.all isBlank)
    (solid : ∀ c ∈ body.head?, isBlank c = false) : (gap ++ body).dropWhile isBlank = body := by
  rw [List.dropWhile_append_of_pos (List.all_eq_true.mp blank)]
  cases body with
  | nil => rfl
  | cons c body => simp [solid c rfl]

theorem Chunk.head {chunk rest : List Char} (first : Chunk chunk rest) (present : chunk ≠ []) :
    ∀ c ∈ (chunk ++ rest).head?, isBlank c = false := by
  rcases first.front present with ⟨c, more, rfl, solid⟩
  simpa using solid

namespace SplitInto

variable {text : List Char} {chunks : List (List Char)}

theorem exists_of_text (text : List Char) : ∃ chunks, SplitInto text chunks := by
  have blank : (text.takeWhile isBlank).all isBlank := List.all_takeWhile
  rcases Chunk.exists_of_text (text.dropWhile isBlank) with ⟨chunk, rest, split, first⟩
  have whole : text = text.takeWhile isBlank ++ (chunk ++ rest) := by
    rw [← split, List.takeWhile_append_dropWhile]
  by_cases present : chunk = []
  · have solid := List.head?_dropWhile_not isBlank text
    have apart := first.apart
    rw [split, present, List.nil_append] at solid
    cases rest with
    | nil =>
        rw [present, List.nil_append, List.append_nil] at whole
        exact ⟨[], whole ▸ .done blank⟩
    | cons c rest =>
        have blank := apart c rfl
        rw [show isBlank c = false by simpa using solid] at blank
        cases blank
  · have shorter : rest.length < text.length := by
      have some := List.length_pos_iff.mpr present
      have total := congrArg List.length whole
      simp only [List.length_append] at total
      omega
    rcases exists_of_text rest with ⟨chunks, later⟩
    exact ⟨chunk :: chunks, whole ▸ .chunk blank present first later⟩
termination_by text.length

theorem unique {other : List Char} {others : List (List Char)} (first : SplitInto text chunks)
    (second : SplitInto other others) (same : text = other) : chunks = others := by
  induction first generalizing other others with
  | @done gap blank =>
      cases second with
      | done _ => rfl
      | chunk blank' present first _ =>
          have body := congrArg (List.dropWhile isBlank) same
          rw [dropWhile_gap blank' (first.head present), ← List.append_nil gap,
            dropWhile_gap blank (by simp)] at body
          exact absurd (List.append_eq_nil_iff.mp body.symm).1 present
  | chunk blank present first _ ih =>
      have body := congrArg (List.dropWhile isBlank) same
      rw [dropWhile_gap blank (first.head present)] at body
      cases second with
      | done blank' =>
          rw [← List.append_nil other, dropWhile_gap blank' (by simp)] at body
          exact absurd (List.append_eq_nil_iff.mp body).1 present
      | chunk blank' present' first' later' =>
          rw [dropWhile_gap blank' (first'.head present')] at body
          rcases first.unique first' body with ⟨rfl, rest⟩
          rw [ih later' rest]

theorem run_gap (split : SplitInto text chunks) : Collapse.gap.run text = spaced chunks := by
  induction split with
  | @done gap blank =>
      have run := @Collapse.gap_run_gap _ [] blank
      rwa [List.append_nil] at run
  | @chunk gap chunk rest chunks blank present first later ih =>
      rcases first.front present with ⟨c, more, same, solid⟩
      have run := first.run
      rw [Collapse.gap_run_gap blank, spaced, List.flatMap_cons, ← spaced, ← ih,
        ← Collapse.word_run_apart first.apart, List.cons_append, ← run, same]
      simp [Collapse.run, Collapse.step, solid]

theorem run_start (split : SplitInto text chunks) :
    Collapse.start.run text = [' '].intercalate chunks := by
  cases split with
  | done blank =>
      have run := @Collapse.start_run_gap _ [] blank
      rwa [List.append_nil] at run
  | @chunk gap chunk rest chunks blank present first later =>
      rcases first.front present with ⟨c, more, same, solid⟩
      have run := first.run
      rw [Collapse.start_run_gap blank, intercalate_eq_spaced, ← later.run_gap,
        ← Collapse.word_run_apart first.apart, ← run, same]
      simp [Collapse.run, Collapse.step, solid]

theorem of_nil (split : SplitInto [] chunks) : chunks = [] :=
  split.unique (@done [] rfl) rfl

theorem chunk_before {rest : List Char} {chunk : List Char} (first : Chunk chunk rest)
    (later : SplitInto rest chunks) : Chunk chunk (spaced chunks) := by
  apply first.before _ (spaced_apart chunks)
  rintro rfl
  rw [later.of_nil]
  rfl

theorem of_spaced (split : SplitInto text chunks) : SplitInto (spaced chunks) chunks := by
  induction split with
  | done _ => exact .done rfl
  | chunk _ present first later ih =>
      exact @chunk [' '] _ _ _ (by decide) present (chunk_before first later) ih

theorem of_intercalate (split : SplitInto text chunks) :
    SplitInto ([' '].intercalate chunks) chunks := by
  cases split with
  | done _ => exact .done rfl
  | chunk _ present first later =>
      rw [intercalate_eq_spaced]
      exact @chunk [] _ _ _ rfl present (chunk_before first later) later.of_spaced

theorem toList_collapse {source : String} (split : SplitInto source.toList chunks) :
    (collapse source).toList = [' '].intercalate chunks := by
  rw [collapse, String.toList_ofList, split.run_start]

theorem collapse {source : String} (split : SplitInto source.toList chunks) :
    SplitInto (Text.collapse source).toList chunks := by
  rw [split.toList_collapse]
  exact split.of_intercalate

theorem collapse_eq {source other : String} (split : SplitInto source.toList chunks)
    (otherSplit : SplitInto other.toList chunks) : Text.collapse other = Text.collapse source := by
  apply String.toList_inj.mp
  rw [otherSplit.toList_collapse, split.toList_collapse]

end SplitInto

/-- A text has its chunks in exactly one way, and collapsing it leaves the chunks with one space
between them. Collapsing once more changes nothing, and texts with the same chunks become one. -/
theorem collapse_chunks (source : String) : ∃ chunks : List (List Char),
    (∀ others, SplitInto source.toList others ↔ others = chunks) ∧
    (collapse source).toList = [' '].intercalate chunks ∧
    collapse (collapse source) = collapse source ∧
    ∀ other : String, SplitInto other.toList chunks → collapse other = collapse source := by
  rcases SplitInto.exists_of_text source.toList with ⟨chunks, split⟩
  refine ⟨chunks, fun others => ⟨fun second => second.unique split rfl, ?_⟩, split.toList_collapse,
    split.collapse_eq split.collapse, fun other => split.collapse_eq⟩
  rintro rfl
  exact split

example : collapse " a\t\t\"b  \\\" c\"d \n \"e  " = "a \"b  \\\" c\"d \"e  " := by decide +kernel

def Collapse.isOutside : Collapse → Bool
  | literal | escape => false
  | _ => true

theorem Collapse.step_quote {state : Collapse} (outside : state.isOutside) :
    (state.step '"').2 = literal := by
  cases state with
  | start => decide
  | word => decide
  | gap => decide
  | literal => cases outside
  | escape => cases outside

/-- A text that collapsing has nothing to do on: its chunks have one space between them, and the
collapser leaves every literal of it, and the text, on the outside. -/
structure Settled (text : String) : Prop where
  unchanged : collapse text = text
  spaced : ∃ chunks, SplitInto text.toList chunks ∧ text.toList = [' '].intercalate chunks
  outside : Collapse.start.after text.toList = .word
  literals : ∀ before behind, text.toList = before ++ '"' :: behind →
    (Collapse.start.after before).isOutside →
    ∃ tail rest, behind = tail ++ rest ∧ LiteralTail tail rest ∧
      Collapse.literal.run tail = tail ∧ Collapse.literal.after tail = .word

theorem Solid.settled {text : String} (solid : Solid text.toList) : Settled text := by
  have unchanged : collapse text = text := by
    rw [collapse, solid.run_start, String.ofList_toList]
  refine ⟨unchanged, ?_, solid.after_start, ?_⟩
  · rcases SplitInto.exists_of_text text.toList with ⟨chunks, split⟩
    have spacing := split.toList_collapse
    rw [unchanged] at spacing
    exact ⟨chunks, split, spacing⟩
  · intro before behind whole outside
    rcases LiteralTail.exists_of_text behind with ⟨tail, rest, rfl, ends⟩
    refine ⟨tail, rest, rfl, ends, ends.passes.1, ?_⟩
    rcases ends.passes.2 with closed | ⟨rfl, inside⟩
    · exact closed
    · -- A literal without an end would leave the collapser inside of it.
      have last := solid.after_start
      rw [whole, List.append_nil, Collapse.after_append, Collapse.after,
        Collapse.step_quote outside] at last
      exact absurd last inside

end GraphRequest.Text
