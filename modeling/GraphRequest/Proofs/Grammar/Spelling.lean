import GraphRequest.Proofs.Grammar.Lexer
import GraphRequest.Proofs.Text.Solid

/-!
Texts that spell tokens: the lexer takes them off the front of any text that does not go on with what
they end in, whether the text is collapsed first or not.
-/

namespace GraphRequest.Grammar

open Text

def separates (c : Char) : Bool :=
  !isNameContinue c && c ≠ '.' && c ≠ '"'

def Separate (rest : List Char) : Prop :=
  ∀ c ∈ rest.head?, separates c

theorem separates_iff {c : Char} :
    separates c ↔ isNameContinue c = false ∧ c ≠ '.' ∧ c ≠ '"' := by
  simp [separates, and_assoc]

theorem separate_nil : Separate [] := fun _ here => nomatch here

theorem separate_cons {c : Char} {rest : List Char} (apart : separates c) : Separate (c :: rest) := by
  intro d here
  cases here
  exact apart

theorem separates_ignored {c : Char} (member : c ∈ ignored) : separates c := by
  have all : ignored.all separates := by decide
  exact List.all_eq_true.mp all c member

theorem separates_mark {c : Char} (member : c ∈ marks) : separates c := by
  have all : marks.all separates := by decide
  exact List.all_eq_true.mp all c member

theorem Separate.append {first second : List Char} (left : Separate first)
    (right : Separate second) : Separate (first ++ second) := by
  cases first with
  | nil => exact right
  | cons c more => exact left

variable {text more rest : List Char} {tokens others : List Token} {c : Char}

theorem lex_ignored (member : c ∈ ignored) : lex (c :: rest) = lex rest := by
  rw [lex, if_pos member]

theorem lex_token {token : Token} {after : List Char} (kept : c ∉ ignored) (sign : c ≠ '#')
    (taken : tokenAt c rest = some (token, after)) (shorter : after.length ≤ rest.length) :
    lex (c :: rest) = (lex after).map (token :: ·) := by
  rw [lex, if_neg kept, if_neg sign, taken]
  dsimp only
  rw [if_pos shorter]

theorem lex_mark (member : c ∈ marks) : lex (c :: rest) = (lex rest).map (.mark c :: ·) := by
  have all : marks.all fun c => c ∉ ignored && c ≠ '#' := by decide
  have own := List.all_eq_true.mp all c member
  rw [Bool.and_eq_true, decide_eq_true_eq, decide_eq_true_eq] at own
  refine lex_token own.1 own.2 ?_ (Nat.le_refl _)
  unfold tokenAt
  rw [if_pos member]

theorem lex_spread : lex ('.' :: '.' :: '.' :: rest) = (lex rest).map (.spread :: ·) := by
  refine lex_token (by decide) (by decide) ?_ (by simp only [List.length_cons]; omega)
  unfold tokenAt
  rw [if_neg (by decide), if_pos rfl]
  rfl

/-- How a text comes before the lexer: as it is, or collapsed. -/
inductive View
  | whole
  | collapsed (state : Collapse)

namespace View

def isOutside : View → Bool
  | collapsed .literal | collapsed .escape => false
  | _ => true

def seen : View → List Char → List Char
  | whole, text => text
  | collapsed state, text => state.run text

def after : View → List Char → View
  | whole, _ => whole
  | collapsed state, text => collapsed (state.after text)

def settled : View → View
  | whole => whole
  | collapsed _ => collapsed .word

theorem after_nil (view : View) : view.after [] = view := by
  cases view <;> rfl

theorem seen_nil (view : View) : view.seen [] = [] := by
  cases view <;> rfl

theorem after_append (view : View) (first second : List Char) :
    view.after (first ++ second) = (view.after first).after second := by
  cases view with
  | whole => rfl
  | collapsed state => exact congrArg collapsed (state.after_append first second)

theorem settled_isOutside (view : View) : view.settled.isOutside := by
  cases view <;> rfl

/-- A space may be put in front of solid text, which changes nothing for the lexer. -/
theorem lex_solid {view : View} (outside : view.isOutside) (solid : Solid text) :
    view.after text = view.settled ∧
      ∀ rest, lex (view.seen (text ++ rest)) = lex (text ++ view.settled.seen rest) := by
  cases view with
  | whole => exact ⟨rfl, fun _ => rfl⟩
  | collapsed state =>
      rcases solid.cases with ⟨c, rest, rfl, front, run, after⟩
      have space : ∀ text, lex (' ' :: text) = lex text := fun _ => lex_ignored (by decide)
      cases state with
      | literal | escape => cases outside
      | start | word | gap =>
          simp [View.after, seen, settled, Collapse.after, Collapse.run, Collapse.step, front,
            Collapse.run_append, run, after, space]

theorem lex_blank {view : View} (outside : view.isOutside) (blank : isBlank c)
    (member : c ∈ ignored) : ∃ next : View, next.isOutside ∧
      ∀ rest, view.after (c :: rest) = next.after rest ∧
        lex (view.seen (c :: rest)) = lex (next.seen rest) := by
  cases view with
  | whole => exact ⟨whole, rfl, fun rest => ⟨rfl, lex_ignored member⟩⟩
  | collapsed state =>
      cases state with
      | literal | escape => cases outside
      | start =>
          refine ⟨collapsed .start, rfl, fun rest => ?_⟩
          simp [View.after, seen, Collapse.after, Collapse.run, Collapse.step, blank]
      | word | gap =>
          refine ⟨collapsed .gap, rfl, fun rest => ?_⟩
          simp [View.after, seen, Collapse.after, Collapse.run, Collapse.step, blank]

theorem separate_seen (view : View) (separate : Separate rest) :
    Separate (view.settled.seen rest) := by
  have gap : ∀ text, Separate (Collapse.gap.run text) := by
    intro text
    induction text with
    | nil => exact separate_nil
    | cons c text ih =>
        by_cases blank : isBlank c
        · simpa [Collapse.run, Collapse.step, blank] using ih
        · have space : Separate (' ' :: c :: (Collapse.afterKept c).run text) :=
            separate_cons (by decide)
          simpa [Collapse.run, Collapse.step, blank] using space
  cases view with
  | whole => exact separate
  | collapsed state =>
      cases rest with
      | nil => exact separate_nil
      | cons c rest =>
          by_cases blank : isBlank c
          · simpa [seen, settled, Collapse.run, Collapse.step, blank] using gap rest
          · have same : Separate (c :: (Collapse.afterKept c).run rest) :=
              separate_cons (separate c rfl)
            simpa [seen, settled, Collapse.run, Collapse.step, blank] using same

end View

/-- The tokens are read from the text wherever it stands, and what follows is read as it would be
without it. -/
structure Spells (text : List Char) (tokens : List Token) : Prop where
  outside : ∀ view : View, view.isOutside → (view.after text).isOutside
  lexed : ∀ view : View, view.isOutside → ∀ rest, Separate rest →
    lex (view.seen (text ++ rest)) = (lex ((view.after text).seen rest)).map (tokens ++ ·)

namespace Spells

theorem of_solid (solid : Solid text)
    (lexed : ∀ rest, Separate rest → lex (text ++ rest) = (lex rest).map (tokens ++ ·)) :
    Spells text tokens where
  outside view outside := by
    rw [(View.lex_solid outside solid).1]
    exact view.settled_isOutside
  lexed view outside rest separate := by
    obtain ⟨after, same⟩ := View.lex_solid outside solid
    rw [after, same, lexed _ (view.separate_seen separate)]

theorem nil : Spells [] [] where
  outside view outside := by rwa [view.after_nil]
  lexed view _ rest _ := by
    rw [view.after_nil, List.nil_append]
    exact Option.map_id'.symm

theorem append (first : Spells text tokens) (second : Spells more others) (apart : Separate more) :
    Spells (text ++ more) (tokens ++ others) where
  outside view outside := by
    rw [view.after_append]
    exact second.outside _ (first.outside view outside)
  lexed view outside rest separate := by
    rw [List.append_assoc, first.lexed view outside _ (apart.append separate),
      second.lexed _ (first.outside view outside) rest separate, Option.map_map, view.after_append]
    congr 1
    funext later
    exact (List.append_assoc tokens others later).symm

theorem lead {front : List Char} (solid : Solid front)
    (lexed : ∀ rest, lex (front ++ rest) = (lex rest).map (tokens ++ ·))
    (second : Spells more others) : Spells (front ++ more) (tokens ++ others) where
  outside view outside := by
    rw [view.after_append, (View.lex_solid outside solid).1]
    exact second.outside _ view.settled_isOutside
  lexed view outside rest separate := by
    obtain ⟨after, same⟩ := View.lex_solid outside solid
    rw [List.append_assoc, same, lexed, second.lexed _ view.settled_isOutside rest separate,
      Option.map_map, view.after_append, after]
    congr 1
    funext later
    exact (List.append_assoc tokens others later).symm

theorem mark (member : c ∈ marks) (second : Spells more others) :
    Spells (c :: more) (.mark c :: others) := by
  have plain : marks.all fun c => !isBlank c && [c].all isPlainChar := by decide
  have own := List.all_eq_true.mp plain c member
  rw [Bool.and_eq_true, Bool.not_eq_true'] at own
  have solid : Solid [c] := ⟨.of_plain own.2, c, rfl, own.1⟩
  have reads : ∀ rest, lex ([c] ++ rest) = (lex rest).map ([.mark c] ++ ·) := fun _ => lex_mark member
  exact lead solid reads second

theorem spread (second : Spells more others) :
    Spells ('.' :: '.' :: '.' :: more) (.spread :: others) := by
  have solid : Solid "...".toList := .of_plain (by decide)
  have reads : ∀ rest, lex ("...".toList ++ rest) = (lex rest).map ([.spread] ++ ·) :=
    fun _ => lex_spread
  exact lead solid reads second

theorem ignore (member : c ∈ ignored) (second : Spells more others) : Spells (c :: more) others := by
  by_cases blank : isBlank c
  · constructor
    · intro view outside
      obtain ⟨next, own, skips⟩ := View.lex_blank outside blank member
      rw [(skips more).1]
      exact second.outside next own
    · intro view outside rest separate
      obtain ⟨next, own, skips⟩ := View.lex_blank outside blank member
      rw [List.cons_append, (skips _).2, (skips more).1, second.lexed next own rest separate]
  · have plain : ignored.all fun c => isBlank c || [c].all isPlainChar := by decide
    have own := (Bool.or_eq_true _ _).mp (List.all_eq_true.mp plain c member)
    have solid : Solid [c] := ⟨.of_plain (own.resolve_left blank), c, rfl, by simpa using blank⟩
    have silent : ∀ rest, lex ([c] ++ rest) = (lex rest).map ([] ++ ·) := by
      intro rest
      rw [List.singleton_append, lex_ignored member]
      exact Option.map_id'.symm
    exact lead solid silent second

theorem blank {gap : List Char} (all : gap.all (· ∈ ignored)) (second : Spells more others) :
    Spells (gap ++ more) others := by
  induction gap with
  | nil => exact second
  | cons c gap ih =>
      rw [List.all_cons, Bool.and_eq_true, decide_eq_true_eq] at all
      exact .ignore all.1 (ih all.2)

theorem lex_seen (spells : Spells text tokens) {view : View} (outside : view.isOutside) :
    lex (view.seen text) = some tokens := by
  have lexed := spells.lexed view outside [] separate_nil
  rw [List.append_nil, View.seen_nil, lex, Option.map_some, List.append_nil] at lexed
  exact lexed

theorem lex_collapse {text : String} (spells : Spells text.toList tokens) :
    lex (collapse text).toList = some tokens := by
  rw [collapse, String.toList_ofList]
  exact @lex_seen _ _ spells (.collapsed .start) rfl

theorem of_nil (spells : Spells [] tokens) : tokens = [] := by
  have lexed := @lex_seen _ _ spells .whole rfl
  rw [View.seen, lex] at lexed
  exact (Option.some.inj lexed).symm

end Spells

/-- The text is taken for one token, wherever it may end. -/
def Takes (text : List Char) (token : Token) : Prop :=
  ∃ c more, text = c :: more ∧ c ∉ ignored ∧ c ≠ '#' ∧
    ∀ rest, Separate rest → tokenAt c (more ++ rest) = some (token, rest)

theorem Spells.of_takes {token : Token} (solid : Solid text) (takes : Takes text token) :
    Spells text [token] := by
  obtain ⟨c, more, rfl, kept, sign, taken⟩ := takes
  refine .of_solid solid fun rest separate => ?_
  rw [List.cons_append, lex_token kept sign (taken rest separate) (by simp)]
  rfl

theorem nameStart_excludes (start : isNameStart c) :
    c ∉ ignored ∧ c ≠ '#' ∧ c ∉ marks ∧ c ≠ '.' := by
  have excluded : (ignored ++ marks ++ ['#', '.']).all fun d => !isNameStart d := by decide
  have absent : c ∉ ignored ++ marks ++ ['#', '.'] := by
    intro member
    have other := List.all_eq_true.mp excluded c member
    rw [start] at other
    cases other
  simp only [List.mem_append, List.mem_cons, List.not_mem_nil, or_false, not_or] at absent
  exact ⟨absent.1.1, absent.2.1, absent.1.2, absent.2.2⟩

theorem Separate.endsName (separate : Separate rest) :
    rest.takeWhile isNameContinue = [] ∧ rest.dropWhile isNameContinue = rest := by
  cases rest with
  | nil => exact ⟨rfl, rfl⟩
  | cons c rest =>
      have other := (separates_iff.mp (separate c rfl)).1
      simp [other]

theorem isName_plain {name : String} (named : isName name) : isPlain name := by
  rw [isName] at named
  rw [isPlain, Bool.and_eq_true, decide_eq_true_eq, List.all_eq_true]
  cases chars : name.toList with
  | nil =>
      rw [chars] at named
      cases named
  | cons c rest =>
      rw [chars, Bool.and_eq_true, List.all_eq_true] at named
      rcases named with ⟨start, letters⟩
      refine ⟨?_, fun d member => ?_⟩
      · rintro rfl
        cases chars
      · rcases List.mem_cons.mp member with rfl | later
        · obtain ⟨low, high⟩ := isNameStart_bounds start
          exact isPlainChar_of_range (Nat.le_trans (by decide) low) high
        · obtain ⟨low, high⟩ := isNameContinue_bounds (letters d later)
          exact isPlainChar_of_range low high

theorem Takes.name {name : String} (valid : isName name) : Takes name.toList (.name name) := by
  rw [isName] at valid
  cases chars : name.toList with
  | nil =>
      rw [chars] at valid
      cases valid
  | cons c more =>
      rw [chars, Bool.and_eq_true, List.all_eq_true] at valid
      rcases valid with ⟨start, all⟩
      obtain ⟨kept, sign, unmarked, point⟩ := nameStart_excludes start
      have same : String.ofList (c :: more) = name := by rw [← chars, String.ofList_toList]
      refine ⟨c, more, rfl, kept, sign, fun rest separate => ?_⟩
      unfold tokenAt
      rw [if_neg unmarked, if_neg point, if_pos start,
        List.takeWhile_append_of_pos all, List.dropWhile_append_of_pos all, separate.endsName.1,
        separate.endsName.2, List.append_nil, same]

theorem Spells.name {name : String} (valid : isName name) : Spells name.toList [.name name] :=
  .of_takes (.of_plain (isName_plain valid)) (.name valid)

inductive Row : List String → List Token → Prop
  | nil : Row [] []
  | cons {text : String} {tokens : List Token} {texts : List String} {others : List Token}
      (first : Spells text.toList tokens) (rest : Row texts others) :
      Row (text :: texts) (tokens ++ others)

namespace Row

variable {texts later : List String}

theorem single {text : String} (spells : Spells text.toList tokens) : Row [text] tokens := by
  have row := Row.cons spells .nil
  rwa [List.append_nil] at row

theorem append (first : Row texts tokens) (second : Row later others) :
    Row (texts ++ later) (tokens ++ others) := by
  induction first with
  | nil => exact second
  | cons spells _ ih =>
      rw [List.cons_append, List.append_assoc]
      exact .cons spells ih

theorem intercalate {separator : String} (present : separator ≠ "")
    (gap : separator.toList.all (· ∈ ignored)) (row : Row texts tokens) :
    Spells (separator.intercalate texts).toList tokens := by
  have apart : ∀ more, Separate (separator.toList ++ more) := by
    intro more
    cases chars : separator.toList with
    | nil => exact absurd (String.toList_eq_nil_iff.mp chars) present
    | cons c between =>
        rw [chars, List.all_cons, Bool.and_eq_true, decide_eq_true_eq] at gap
        exact separate_cons (separates_ignored gap.1)
  induction row with
  | nil => exact .nil
  | @cons text tokens texts others spells rest ih =>
      cases texts with
      | nil =>
          cases rest
          rw [String.intercalate_singleton, List.append_nil]
          exact spells
      | cons next texts =>
          rw [String.intercalate_cons_cons, String.toList_append, String.toList_append,
            List.append_assoc]
          exact spells.append (.blank gap ih) (apart _)

theorem present (row : Row texts tokens) : Row (texts.filter (· ≠ "")) tokens := by
  induction row with
  | nil => exact .nil
  | @cons text tokens texts others spells rest ih =>
      by_cases vacant : text = ""
      · subst vacant
        rw [List.filter_cons_of_neg (by simp), spells.of_nil, List.nil_append]
        exact ih
      · rw [List.filter_cons_of_pos (by simpa using vacant)]
        exact .cons spells ih

theorem joinWords (row : Row texts tokens) : Spells (joinWords texts).toList tokens :=
  row.present.intercalate (by decide) (by decide)

theorem commas (row : Row texts tokens) : Spells (", ".intercalate texts).toList tokens :=
  row.intercalate (by decide) (by decide)

end Row

end GraphRequest.Grammar
