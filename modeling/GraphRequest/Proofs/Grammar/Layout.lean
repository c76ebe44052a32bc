import GraphRequest.Proofs.Grammar.Spelling
import GraphRequest.Proofs.Grammar.Syntax

/-!
Names and marks in any layout: what is read from a text without comments is read from it wherever it
is put, and after it is collapsed.
-/

namespace GraphRequest.Grammar

/-- Names and marks in a row, with white space and commas anywhere between them. -/
inductive Layout : List Char → List Token → Prop
  | nil : Layout [] []
  | ignored {c : Char} {text : List Char} {tokens : List Token} (member : c ∈ Grammar.ignored)
      (rest : Layout text tokens) : Layout (c :: text) tokens
  | mark {c : Char} {text : List Char} {tokens : List Token} (member : c ∈ marks)
      (rest : Layout text tokens) : Layout (c :: text) (.mark c :: tokens)
  | name {name : String} {text : List Char} {tokens : List Token} (valid : isName name)
      (apart : Separate text) (rest : Layout text tokens) :
      Layout (name.toList ++ text) (.name name :: tokens)

def Token.isBare : Token → Bool
  | .mark _ | .name _ => true
  | _ => false

theorem TypeNode.tokens_bare : (type : TypeNode) → type.tokens.all Token.isBare
  | .named _ => rfl
  | .list inner => by
      rw [tokens, List.all_cons, List.all_append, tokens_bare inner]
      rfl
  | .nonNull inner => by
      rw [tokens, List.all_append, tokens_bare inner]
      rfl

section Reading

variable {c : Char} {text rest after : List Char} {token : Token} {tokens : List Token}

theorem numberToken_not_bare (numeral : Json.Numeral) : (numberToken numeral).isBare = false := by
  rw [numberToken]
  split <;> rfl

theorem tokenAt_bare (taken : tokenAt c rest = some (token, after)) (bare : token.isBare) :
    (c ∈ marks ∧ token = .mark c ∧ after = rest) ∨
      isNameStart c ∧ token = .name (String.ofList (c :: rest.takeWhile isNameContinue)) ∧
        after = rest.dropWhile isNameContinue := by
  unfold tokenAt at taken
  -- marks, spreads, names, strings and numbers, in the order in which they are tried
  split at taken
  · next member =>
      cases taken
      exact .inl ⟨member, rfl, rfl⟩
  · split at taken
    · split at taken
      · cases taken
        cases bare
      · cases taken
    · split at taken
      · next start =>
          cases taken
          exact .inr ⟨start, rfl, rfl⟩
      · split at taken
        · split at taken
          · rcases Option.map_eq_some_iff.mp taken with ⟨_, _, same⟩
            cases same
            cases bare
          · rcases Option.map_eq_some_iff.mp taken with ⟨_, _, same⟩
            cases same
            cases bare
        · rw [numberAt] at taken
          split at taken
          · split at taken
            · cases taken
              rw [numberToken_not_bare] at bare
              cases bare
            · cases taken
          · cases taken

namespace Layout

theorem head_ne (layout : Layout text tokens) : ∀ c ∈ text.head?, c ≠ '.' ∧ c ≠ '"' := by
  intro c here
  cases layout with
  | nil => cases here
  | ignored member rest =>
      cases here
      exact (separates_iff.mp (separates_ignored member)).2
  | mark member rest =>
      cases here
      exact (separates_iff.mp (separates_mark member)).2
  | @name name text tokens valid apart rest =>
      rw [isName] at valid
      cases chars : name.toList with
      | nil =>
          rw [chars] at valid
          cases valid
      | cons d more =>
          rw [chars] at valid here
          cases here
          have low := (isNameStart_bounds ((Bool.and_eq_true _ _).mp valid).1).1
          constructor
          · rintro rfl
            exact absurd low (by decide)
          · rintro rfl
            exact absurd low (by decide)

theorem separate_dropWhile (layout : Layout (text.dropWhile isNameContinue) tokens) :
    Separate (text.dropWhile isNameContinue) := by
  intro c here
  have stops := List.head?_dropWhile_not isNameContinue text
  rw [Option.mem_def.mp here] at stops
  exact separates_iff.mpr ⟨stops, layout.head_ne c here⟩

theorem of_lex (uncommented : '#' ∉ text) (lexed : lex text = some tokens)
    (bare : tokens.all Token.isBare) : Layout text tokens := by
  induction text using lex.induct generalizing tokens with
  | case1 =>
      rw [lex] at lexed
      cases lexed
      exact .nil
  | case2 c rest member ih =>
      rw [lex_ignored member] at lexed
      exact .ignored member (ih (List.not_mem_of_not_mem_cons uncommented) lexed bare)
  | case3 rest => exact absurd List.mem_cons_self uncommented
  | case4 c rest kept sign none =>
      rw [lex, if_neg kept, if_neg sign, none] at lexed
      cases lexed
  | case5 c rest kept sign token after taken shorter ih =>
      rw [lex_token kept sign taken shorter] at lexed
      rcases Option.map_eq_some_iff.mp lexed with ⟨others, later, rfl⟩
      rw [List.all_cons, Bool.and_eq_true] at bare
      have absent := List.not_mem_of_not_mem_cons uncommented
      rcases tokenAt_bare taken bare.1 with ⟨member, rfl, rfl⟩ | ⟨start, rfl, rfl⟩
      · exact .mark member (ih absent later bare.2)
      · have inside := (List.dropWhile_sublist (l := rest) isNameContinue).subset
        have layout := ih (fun member => absent (inside member)) later bare.2
        have valid : isName (String.ofList (c :: rest.takeWhile isNameContinue)) := by
          rw [isName, String.toList_ofList, Bool.and_eq_true]
          exact ⟨start, List.all_takeWhile⟩
        have whole := Layout.name valid layout.separate_dropWhile layout
        rw [String.toList_ofList, List.cons_append, List.takeWhile_append_dropWhile] at whole
        exact whole
  | case6 c rest kept sign token after taken longer =>
      rw [lex, if_neg kept, if_neg sign, taken] at lexed
      dsimp only at lexed
      rw [if_neg longer] at lexed
      cases lexed

theorem spells (layout : Layout text tokens) : Spells text tokens := by
  induction layout with
  | nil => exact .nil
  | ignored member _ ih => exact .ignore member ih
  | mark member _ ih => exact .mark member ih
  | name valid apart _ ih => exact (Spells.name valid).append ih apart

theorem mem_of_mark (layout : Layout text tokens) (member : .mark c ∈ tokens) : c ∈ text := by
  induction layout with
  | nil => cases member
  | ignored _ _ ih => exact List.mem_cons_of_mem _ (ih member)
  | mark _ _ ih =>
      rcases List.mem_cons.mp member with same | later
      · cases same
        exact List.mem_cons_self
      · exact List.mem_cons_of_mem _ (ih later)
  | name _ _ _ ih =>
      rcases List.mem_cons.mp member with same | later
      · cases same
      · exact List.mem_append_right _ (ih later)

end Layout

end Reading

namespace TypeNode.WrittenAs

variable {type : TypeNode} {text : String}

theorem layout (written : type.WrittenAs text) : Layout text.toList type.tokens :=
  .of_lex written.uncommented written.lexed type.tokens_bare

end TypeNode.WrittenAs

end GraphRequest.Grammar
