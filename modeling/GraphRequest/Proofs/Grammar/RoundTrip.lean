import GraphRequest.Proofs.Grammar.Reader

/-!
What the tokens of a proper tree are read as is the tree itself. Each lemma is about tokens at the front
of others, which do not go on with what is read.
-/

namespace GraphRequest.Grammar

def Avoids (marks : List Char) (rest : List Token) : Prop :=
  ∀ c ∈ marks, rest.head? ≠ some (.mark c)

def Unnamed (rest : List Token) : Prop :=
  ∀ name others, rest ≠ .name name :: others

namespace Literal

theorem length_tokens_pos (value : Literal) : 0 < value.tokens.length := by
  cases value <;> simp [tokens]

theorem tokens_append_ne (value : Literal) (rest others : List Token) :
    value.tokens ++ rest ≠ .mark ']' :: others := by
  cases value <;> simp [tokens]

theorem nameLiteral_enum {name : String} (proper : name ∉ ["true", "false", "null"]) :
    nameLiteral name = .enum name := by
  simp only [List.mem_cons, List.not_mem_nil, or_false, not_or] at proper
  rcases proper with ⟨notTrue, notFalse, notNull⟩
  rw [nameLiteral, if_neg notTrue, if_neg notFalse, if_neg notNull]

mutual

theorem readLiteral_tokens (constant : Bool) : (value : Literal) → value.isProper constant →
    ∀ (limit : Nat) (rest : List Token), 2 * value.tokens.length ≤ limit →
      readLiteral constant limit (value.tokens ++ rest) = some (value, rest)
  | value, proper, 0, rest, enough => by
      have some := value.length_tokens_pos
      omega
  | reference name, proper, limit + 1, rest, _ => by
      have free : constant = false := by simpa [isProper] using proper
      rw [free]
      rfl
  | int value, _, limit + 1, rest, _ => rfl
  | float value, _, limit + 1, rest, _ => rfl
  | string text, _, limit + 1, rest, _ => rfl
  | block raw, _, limit + 1, rest, _ => rfl
  | bool value, _, limit + 1, rest, _ => by cases value <;> rfl
  | null, _, limit + 1, rest, _ => rfl
  | enum name, proper, limit + 1, rest, _ => by
      have other : name ∉ ["true", "false", "null"] := by simpa [isProper] using proper
      change some (nameLiteral name, rest) = _
      rw [nameLiteral_enum other]
  | list items, proper, limit + 1, rest, enough => by
      rw [isProper] at proper
      rw [tokens, List.length_cons, List.length_append, List.length_singleton] at enough
      have inside := readItems_tokens constant items proper limit rest (by omega)
      rw [tokens, List.cons_append, List.append_assoc, readLiteral]
      simp only [List.singleton_append, inside, Option.map_some]
  | object entries, proper, limit + 1, rest, enough => by
      rw [isProper] at proper
      rw [tokens, List.length_cons, List.length_append, List.length_singleton] at enough
      have inside := readEntries_tokens constant '\x7d' entries proper limit rest (by omega)
      rw [tokens, List.cons_append, List.append_assoc, readLiteral]
      simp only [List.singleton_append, inside, Option.map_some]

theorem readItems_tokens (constant : Bool) : (items : List Literal) → allProper constant items →
    ∀ (limit : Nat) (rest : List Token), 2 * (itemTokens items).length + 2 ≤ limit →
      readItems constant limit (itemTokens items ++ .mark ']' :: rest) = some (items, rest)
  | _, _, 0, _, enough => by omega
  | [], _, limit + 1, rest, _ => rfl
  | item :: items, proper, limit + 1, rest, enough => by
      rw [allProper, Bool.and_eq_true] at proper
      rw [itemTokens, List.length_append] at enough
      have positive := item.length_tokens_pos
      have first := readLiteral_tokens constant item proper.1 limit
        (itemTokens items ++ .mark ']' :: rest) (by omega)
      have others := readItems_tokens constant items proper.2 limit rest (by omega)
      rw [itemTokens, List.append_assoc, readItems]
      · simp only [first, others, Option.bind_eq_bind, Option.bind_some, Option.pure_def]
      · exact fun others same => tokens_append_ne item _ others same

theorem readEntries_tokens (constant : Bool) (close : Char) : (entries : List (String × Literal)) →
    entriesProper constant entries →
    ∀ (limit : Nat) (rest : List Token), 2 * (entryTokens entries).length + 2 ≤ limit →
      readEntries constant close limit (entryTokens entries ++ .mark close :: rest) =
        some (entries, rest)
  | _, _, 0, _, enough => by omega
  | [], _, limit + 1, rest, _ => by
      rw [entryTokens, List.nil_append, readEntries, if_pos rfl]
  | (key, value) :: entries, proper, limit + 1, rest, enough => by
      rw [entriesProper, Bool.and_eq_true] at proper
      rw [entryTokens, List.length_cons, List.length_cons, List.length_append] at enough
      have first := readLiteral_tokens constant value proper.1 limit
        (entryTokens entries ++ .mark close :: rest) (by omega)
      have others := readEntries_tokens constant close entries proper.2 limit rest (by omega)
      rw [entryTokens, List.cons_append, List.cons_append, List.append_assoc, readEntries]
      simp only [first, others, Option.bind_eq_bind, Option.bind_some, Option.pure_def]

end

end Literal

variable {marks : List Char} {rest : List Token}

theorem Avoids.mono {others : List Char} (avoids : Avoids marks rest)
    (included : ∀ c ∈ others, c ∈ marks) : Avoids others rest :=
  fun c member => avoids c (included c member)

theorem unnamed_mark {c : Char} : Unnamed (.mark c :: rest) := by
  intro name others same
  cases same

theorem avoids_mark {c : Char} (other : c ∉ marks) : Avoids marks (.mark c :: rest) := by
  intro d member same
  cases same
  exact other member

theorem readArguments_tokens {constant : Bool} {arguments : List (String × Literal)} (limit : Nat)
    (proper : Literal.entriesProper constant arguments)
    (enough : 2 * (Literal.argumentTokens arguments).length ≤ limit) (avoids : Avoids ['('] rest) :
    readArguments constant limit (Literal.argumentTokens arguments ++ rest) =
      some (arguments, rest) := by
  rw [Literal.argumentTokens] at enough ⊢
  cases arguments with
  | nil =>
      rw [List.isEmpty_nil, if_pos rfl, List.nil_append, readArguments]
      intro others same
      rw [same] at avoids
      exact avoids '(' List.mem_cons_self rfl
  | cons entry entries =>
      rw [List.isEmpty_cons, if_neg Bool.false_ne_true] at enough ⊢
      rw [List.length_cons, List.length_append, List.length_singleton] at enough
      have inside := Literal.readEntries_tokens constant ')' (entry :: entries) proper limit rest
        (by omega)
      rw [List.cons_append, List.append_assoc, List.singleton_append, readArguments, inside]
      rfl

theorem readDirectives_tokens {constant : Bool} {directives : List DirectiveNode} (limit : Nat)
    (proper : DirectiveNode.allProper constant directives)
    (enough : 2 * (DirectiveNode.allTokens directives).length + 2 ≤ limit)
    (avoids : Avoids ['(', '@'] rest) :
    readDirectives constant limit (DirectiveNode.allTokens directives ++ rest) =
      some (directives, rest) := by
  induction directives generalizing limit with
  | nil =>
      obtain ⟨limit, rfl⟩ := Nat.exists_eq_succ_of_ne_zero (show limit ≠ 0 by omega)
      have apart : ∀ others, rest ≠ .mark '@' :: others := by
        intro others same
        rw [same] at avoids
        exact avoids '@' (by simp) rfl
      change readDirectives constant (limit + 1) rest = _
      rw [readDirectives]
      · exact fun _ others same => apart _ same
      · exact fun others same => apart _ same
  | cons directive directives ih =>
      obtain ⟨limit, rfl⟩ := Nat.exists_eq_succ_of_ne_zero (show limit ≠ 0 by omega)
      rw [DirectiveNode.allProper, List.all_cons, Bool.and_eq_true] at proper
      rw [DirectiveNode.allTokens, List.flatMap_cons, ← DirectiveNode.allTokens] at enough ⊢
      rw [DirectiveNode.tokens, List.length_append, List.length_cons, List.length_cons] at enough
      have later : Avoids ['('] (DirectiveNode.allTokens directives ++ rest) := by
        cases directives with
        | nil => exact avoids.mono (by simp)
        | cons next others => exact avoids_mark (by decide)
      have first := readArguments_tokens limit proper.1 (by omega) later
      have others := ih limit proper.2 (by omega)
      rw [DirectiveNode.tokens, List.cons_append, List.cons_append, List.cons_append,
        List.cons_append, List.append_assoc, readDirectives]
      simp only [first, others, Option.bind_eq_bind, Option.bind_some, Option.pure_def]

theorem readMark_of_avoids {type : TypeNode} (avoids : Avoids ['!'] rest) :
    readMark type rest = (type, rest) := by
  rw [readMark]
  intro others same
  rw [same] at avoids
  exact avoids '!' List.mem_cons_self rfl

theorem readType_list {inner : TypeNode} {limit : Nat} {rest : List Token}
    (inside : readType limit (inner.tokens ++ .mark ']' :: rest) = some (inner, .mark ']' :: rest)) :
    readType (limit + 1) ((TypeNode.list inner).tokens ++ rest) =
      some (readMark (.list inner) rest) := by
  rw [TypeNode.tokens, List.cons_append, List.append_assoc, List.singleton_append, readType, inside]
  rfl

theorem readType_tokens : (type : TypeNode) → type.isProper → ∀ (limit : Nat) (rest : List Token),
    2 * type.tokens.length ≤ limit → Avoids ['!'] rest →
      readType limit (type.tokens ++ rest) = some (type, rest)
  | .named name, _, limit, rest, enough, avoids => by
      obtain ⟨limit, rfl⟩ := Nat.exists_eq_succ_of_ne_zero (show limit ≠ 0 by
        rw [TypeNode.tokens, List.length_singleton] at enough
        omega)
      change some (readMark (.named name) rest) = _
      rw [readMark_of_avoids avoids]
  | .list inner, proper, limit, rest, enough, avoids => by
      rw [TypeNode.tokens, List.length_cons, List.length_append, List.length_singleton] at enough
      obtain ⟨limit, rfl⟩ := Nat.exists_eq_succ_of_ne_zero (show limit ≠ 0 by omega)
      have inside := readType_tokens inner proper limit (.mark ']' :: rest) (by omega)
        (avoids_mark (by decide))
      rw [readType_list inside, readMark_of_avoids avoids]
  | .nonNull (.named name), _, limit, rest, enough, _ => by
      obtain ⟨limit, rfl⟩ := Nat.exists_eq_succ_of_ne_zero (show limit ≠ 0 by
        rw [TypeNode.tokens, TypeNode.tokens, List.length_append] at enough
        simp at enough
        omega)
      rfl
  | .nonNull (.list inner), proper, limit, rest, enough, _ => by
      rw [TypeNode.tokens, TypeNode.tokens, List.length_append, List.length_cons,
        List.length_append, List.length_singleton, List.length_singleton] at enough
      obtain ⟨limit, rfl⟩ := Nat.exists_eq_succ_of_ne_zero (show limit ≠ 0 by omega)
      have inside := readType_tokens inner proper limit (.mark ']' :: .mark '!' :: rest) (by omega)
        (avoids_mark (by decide))
      rw [TypeNode.tokens, List.append_assoc, List.singleton_append, readType_list inside]
      rfl

theorem readFallback_tokens {fallback : Option Literal} (limit : Nat)
    (proper : fallback.all fun value => value.isProper true)
    (enough : 2 * (fallbackTokens fallback).length ≤ limit) (avoids : Avoids ['='] rest) :
    readFallback limit (fallbackTokens fallback ++ rest) = some (fallback, rest) := by
  cases fallback with
  | none =>
      change readFallback limit rest = _
      rw [readFallback]
      intro others same
      rw [same] at avoids
      exact avoids '=' List.mem_cons_self rfl
  | some value =>
      rw [fallbackTokens, Option.elim_some, List.length_cons] at enough
      have inside := Literal.readLiteral_tokens true value proper limit rest (by omega)
      change (readLiteral true limit (value.tokens ++ rest)).map _ = _
      rw [inside]
      rfl

theorem avoids_directiveTokens (directives : List DirectiveNode) (other : '@' ∉ marks)
    (avoids : Avoids marks rest) : Avoids marks (DirectiveNode.allTokens directives ++ rest) := by
  cases directives with
  | nil => exact avoids
  | cons directive others => exact avoids_mark other

theorem unnamed_directiveTokens (directives : List DirectiveNode) (unnamed : Unnamed rest) :
    Unnamed (DirectiveNode.allTokens directives ++ rest) := by
  cases directives with
  | nil => exact unnamed
  | cons directive others => exact unnamed_mark

theorem avoids_fallbackTokens (fallback : Option Literal) (other : '=' ∉ marks)
    (avoids : Avoids marks rest) : Avoids marks (fallbackTokens fallback ++ rest) := by
  cases fallback with
  | none => exact avoids
  | some value => exact avoids_mark other

theorem readVariables_tokens {inputs : List VariableNode} (limit : Nat) (rest : List Token)
    (proper : inputs.all VariableNode.isProper)
    (enough : 2 * (inputs.flatMap VariableNode.tokens).length + 2 ≤ limit) :
    readVariables limit (inputs.flatMap VariableNode.tokens ++ .mark ')' :: rest) =
      some (inputs, rest) := by
  induction inputs generalizing limit with
  | nil =>
      obtain ⟨limit, rfl⟩ := Nat.exists_eq_succ_of_ne_zero (show limit ≠ 0 by omega)
      rfl
  | cons node inputs ih =>
      obtain ⟨limit, rfl⟩ := Nat.exists_eq_succ_of_ne_zero (show limit ≠ 0 by omega)
      rw [List.all_cons, Bool.and_eq_true, VariableNode.isProper, Bool.and_eq_true,
        Bool.and_eq_true] at proper
      rcases proper with ⟨⟨⟨type, fallback⟩, directives⟩, others⟩
      rw [List.flatMap_cons, VariableNode.tokens] at enough ⊢
      simp only [List.length_append, List.length_cons] at enough
      have behind : Avoids ['(', '@', '=', '!']
          (inputs.flatMap VariableNode.tokens ++ .mark ')' :: rest) := by
        cases inputs with
        | nil => exact avoids_mark (by decide)
        | cons next later => exact avoids_mark (by decide)
      have fourth := ih limit others (by omega)
      have third := readDirectives_tokens limit directives (by omega) (behind.mono (by simp))
      have second := readFallback_tokens limit fallback (by omega)
        (avoids_directiveTokens node.directives (by decide) (behind.mono (by simp)))
      have first := readType_tokens node.type type limit _ (by omega)
        (avoids_fallbackTokens node.fallback (by decide)
          (avoids_directiveTokens node.directives (by decide) (behind.mono (by simp))))
      simp only [List.cons_append, List.append_assoc] at first second third ⊢
      rw [readVariables]
      simp only [first, second, third, fourth, Option.bind_eq_bind, Option.bind_some,
        Option.pure_def]

theorem readInputs_tokens {inputs : List VariableNode} (limit : Nat)
    (proper : inputs.all VariableNode.isProper)
    (enough : 2 * (VariableNode.listTokens inputs).length ≤ limit) (avoids : Avoids ['('] rest) :
    readInputs limit (VariableNode.listTokens inputs ++ rest) = some (inputs, rest) := by
  rw [VariableNode.listTokens] at enough ⊢
  cases inputs with
  | nil =>
      rw [List.isEmpty_nil, if_pos rfl, List.nil_append, readInputs]
      intro others same
      rw [same] at avoids
      exact avoids '(' List.mem_cons_self rfl
  | cons node inputs =>
      rw [List.isEmpty_cons, if_neg Bool.false_ne_true] at enough ⊢
      rw [List.length_cons, List.length_append, List.length_singleton] at enough
      have inside := readVariables_tokens limit rest proper (by omega)
      rw [List.cons_append, List.append_assoc, List.singleton_append, readInputs, inside]
      rfl

theorem readFieldName_none {name : String} (avoids : Avoids [':'] rest) :
    readFieldName name rest = some ((none, name), rest) := by
  rw [readFieldName]
  · exact fun _ others same => by
      rw [same] at avoids
      exact avoids ':' List.mem_cons_self rfl
  · exact fun others same => by
      rw [same] at avoids
      exact avoids ':' List.mem_cons_self rfl

theorem avoids_argumentTokens (arguments : List (String × Literal)) (other : '(' ∉ marks)
    (avoids : Avoids marks rest) : Avoids marks (Literal.argumentTokens arguments ++ rest) := by
  rw [Literal.argumentTokens]
  split
  · exact avoids
  · exact avoids_mark other

theorem Selection.avoids_tokens (selection : Selection) : Avoids marks (selection.tokens ++ rest) := by
  intro c _ same
  cases selection with
  | field aliasName name arguments directives selections =>
      cases aliasName <;> simp [Selection.tokens] at same
  | spread fragment directives => simp [Selection.tokens] at same
  | inline typeCondition directives selections => simp [Selection.tokens] at same

theorem Selection.avoids_closing (selections : List Selection) (other : '\x7d' ∉ marks) :
    Avoids marks (Selection.allTokens selections ++ .mark '\x7d' :: rest) := by
  cases selections with
  | nil => exact avoids_mark other
  | cons selection more =>
      rw [Selection.allTokens, List.append_assoc]
      exact selection.avoids_tokens

namespace Selection

theorem length_tokens_pos (selection : Selection) : 0 < selection.tokens.length := by
  cases selection with
  | field aliasName name arguments directives selections =>
      rw [tokens, List.length_append, List.length_cons]
      omega
  | spread fragment directives => exact Nat.succ_pos _
  | inline typeCondition directives selections => exact Nat.succ_pos _

theorem field_tokens (aliasName : Option String) (name : String) {behind : List Token}
    (avoids : Avoids [':'] behind) : ∃ first after,
      (aliasName.elim [] fun key => [.name key, .mark ':']) ++ .name name :: behind =
        .name first :: after ∧ readFieldName first after = some ((aliasName, name), behind) := by
  cases aliasName with
  | none => exact ⟨name, behind, rfl, readFieldName_none avoids⟩
  | some key => exact ⟨key, .mark ':' :: .name name :: behind, rfl, rfl⟩

theorem readCondition_tokens (typeCondition : Option String) {behind : List Token}
    (unnamed : Unnamed behind) :
    spreadName? ((typeCondition.elim [] fun name => [.name "on", .name name]) ++ behind) = none ∧
    readCondition ((typeCondition.elim [] fun name => [.name "on", .name name]) ++ behind) =
      some (typeCondition, behind) := by
  cases typeCondition with
  | none =>
      constructor
      · change spreadName? behind = none
        rw [spreadName?]
        exact unnamed
      · change readCondition behind = _
        rw [readCondition]
        · exact fun word name others => unnamed word _
        · exact unnamed
  | some name => exact ⟨rfl, rfl⟩

theorem readBody_tokens {selections : List Selection} (block : Reader (List Selection))
    (avoids : Avoids ['\x7b'] rest)
    (inside : selections ≠ [] →
      block (allTokens selections ++ .mark '\x7d' :: rest) = some (selections, rest)) :
    readBody block ((if selections.isEmpty then [] else blockTokens (allTokens selections)) ++ rest) =
      some (selections, rest) := by
  cases selections with
  | nil =>
      rw [List.isEmpty_nil, if_pos rfl, List.nil_append, readBody]
      intro others same
      rw [same] at avoids
      exact avoids '\x7b' List.mem_cons_self rfl
  | cons inner more =>
      rw [List.isEmpty_cons, if_neg Bool.false_ne_true, blockTokens, List.cons_append,
        List.append_assoc]
      exact inside (by simp)

theorem avoids_body (marks : List Char) (selections : List Selection) (other : '\x7b' ∉ marks)
    (avoids : Avoids marks rest) :
    Avoids marks ((if selections.isEmpty then [] else blockTokens (allTokens selections)) ++ rest) := by
  split
  · exact avoids
  · exact avoids_mark other

mutual

theorem readSelection_tokens : (selection : Selection) → selection.isProper →
    ∀ (limit : Nat) (rest : List Token), 2 * selection.tokens.length + 1 ≤ limit →
      Avoids [':', '(', '@', '\x7b'] rest →
      readSelection limit (selection.tokens ++ rest) = some (selection, rest)
  | _, _, 0, _, enough, _ => by omega
  | field aliasName name arguments directives selections, proper, limit + 1, rest, enough, avoids => by
      rw [isProper, Bool.and_eq_true, Bool.and_eq_true] at proper
      rcases proper with ⟨⟨argumentsProper, directivesProper⟩, selectionsProper⟩
      rw [tokens] at enough ⊢
      simp only [List.length_append, List.length_cons] at enough
      have room : selections ≠ [] → 2 * (allTokens selections).length + 2 ≤ limit := by
        intro present
        rw [if_neg (by simpa using present), blockTokens, List.length_cons, List.length_append,
          List.length_singleton] at enough
        omega
      have behind := avoids_body [':', '(', '@'] selections (by decide)
        (avoids.mono (by simp))
      have third := readBody_tokens (readBlock limit) (avoids.mono (by simp)) fun present =>
        readBlock_tokens selections selectionsProper present limit rest (room present)
      have second := readDirectives_tokens limit directivesProper (by omega)
        (behind.mono (by simp))
      have first := readArguments_tokens limit argumentsProper (by omega)
        (avoids_directiveTokens directives (by decide) (behind.mono (by simp)))
      obtain ⟨start, after, spelled, named⟩ := field_tokens aliasName name
        (avoids_argumentTokens arguments (by decide)
          (avoids_directiveTokens directives (by decide) (behind.mono (by simp))))
      simp only [List.append_assoc, List.cons_append]
      rw [spelled, readSelection]
      simp only [named, first, second, third, Option.bind_eq_bind, Option.bind_some, Option.pure_def]
  | spread fragment directives, proper, limit + 1, rest, enough, avoids => by
      rw [isProper, Bool.and_eq_true] at proper
      rw [tokens, List.length_cons, List.length_cons] at enough
      have other : fragment ≠ "on" := by simpa using proper.1
      have inside := readDirectives_tokens limit proper.2 (by omega) (avoids.mono (by simp))
      rw [tokens, List.cons_append, List.cons_append, readSelection, spreadName?, if_neg other]
      simp only [inside, Option.bind_eq_bind, Option.bind_some, Option.pure_def]
  | inline typeCondition directives selections, proper, limit + 1, rest, enough, _ => by
      rw [isProper, Bool.and_eq_true, Bool.and_eq_true] at proper
      rcases proper with ⟨⟨directivesProper, present⟩, selectionsProper⟩
      rw [tokens, blockTokens] at enough ⊢
      simp only [List.length_append, List.length_cons, List.length_nil] at enough
      have braces : Avoids ['(', '@']
          (.mark '\x7b' :: (allTokens selections ++ .mark '\x7d' :: rest)) :=
        avoids_mark (by decide)
      have third := readBlock_tokens selections selectionsProper (by simpa using present) limit rest
        (by omega)
      have second := readDirectives_tokens limit directivesProper (by omega) braces
      have unnamed : Unnamed (DirectiveNode.allTokens directives ++
          .mark '\x7b' :: (allTokens selections ++ .mark '\x7d' :: rest)) :=
        unnamed_directiveTokens directives unnamed_mark
      obtain ⟨noSpread, condition⟩ := readCondition_tokens typeCondition unnamed
      simp only [List.append_assoc, List.cons_append, List.nil_append]
      rw [readSelection, noSpread]
      simp only [condition, second, third, readBraces, Option.bind_eq_bind, Option.bind_some,
        Option.pure_def]

theorem readBlock_tokens : (selections : List Selection) → allProper selections → selections ≠ [] →
    ∀ (limit : Nat) (rest : List Token), 2 * (allTokens selections).length + 2 ≤ limit →
      readBlock limit (allTokens selections ++ .mark '\x7d' :: rest) = some (selections, rest)
  | _, _, _, 0, _, enough => by omega
  | [], _, present, _, _, _ => absurd rfl present
  | [only], proper, _, limit + 1, rest, enough => by
      rw [allProper, Bool.and_eq_true] at proper
      rw [allTokens, allTokens, List.append_nil] at enough ⊢
      have first := readSelection_tokens only proper.1 limit (.mark '\x7d' :: rest) (by omega)
        (avoids_mark (by decide))
      rw [readBlock]
      simp only [first, Option.bind_eq_bind, Option.bind_some, Option.pure_def]
  | first :: second :: more, proper, _, limit + 1, rest, enough => by
      rw [allProper, Bool.and_eq_true] at proper
      rw [allTokens, List.length_append] at enough
      have some := first.length_tokens_pos
      have others := readBlock_tokens (second :: more) proper.2 (by simp) limit rest (by omega)
      have start := readSelection_tokens first proper.1 limit
        (allTokens (second :: more) ++ .mark '\x7d' :: rest) (by omega)
        (avoids_closing _ (by decide))
      have closing : Avoids ['\x7d'] (allTokens (second :: more) ++ .mark '\x7d' :: rest) := by
        rw [allTokens, List.append_assoc]
        exact second.avoids_tokens
      rw [allTokens, List.append_assoc, readBlock, start, Option.bind_eq_bind, Option.bind_some]
      dsimp only
      split
      · next same =>
          rw [same] at closing
          exact absurd rfl (closing '\x7d' List.mem_cons_self)
      · rw [others]
        rfl

end

end Selection

theorem readBraces_tokens {selections : List Selection} (limit : Nat) (rest : List Token)
    (proper : Selection.allProper selections) (present : selections ≠ [])
    (enough : 2 * (Selection.allTokens selections).length + 2 ≤ limit) :
    readBraces (readBlock limit) (blockTokens (Selection.allTokens selections) ++ rest) =
      some (selections, rest) := by
  rw [blockTokens, List.cons_append, List.append_assoc]
  exact Selection.readBlock_tokens selections proper present limit rest enough

theorem unnamed_listTokens (inputs : List VariableNode) (unnamed : Unnamed rest) :
    Unnamed (VariableNode.listTokens inputs ++ rest) := by
  rw [VariableNode.listTokens]
  split
  · exact unnamed
  · exact unnamed_mark

theorem readOperationName_tokens (name : Option String) (unnamed : Unnamed rest) :
    readOperationName ((name.elim [] fun name => [.name name]) ++ rest) = some (name, rest) := by
  cases name with
  | none =>
      change readOperationName rest = _
      rw [readOperationName]
      exact unnamed
  | some name => rfl

theorem keywordType?_keyword (type : OperationType) : keywordType? type.keyword = some type := by
  cases type <;> decide

theorem length_definition_pos (definition : Definition) : 0 < definition.tokens.length := by
  cases definition <;> simp [Definition.tokens]

theorem readDefinition_tokens (definition : Definition) (limit : Nat) (rest : List Token)
    (proper : definition.isProper) (enough : 2 * definition.tokens.length ≤ limit) :
    readDefinition limit (definition.tokens ++ rest) = some (definition, rest) := by
  cases definition with
  | operation type name inputs directives selections =>
      simp only [Definition.isProper, Bool.and_eq_true] at proper
      rcases proper with ⟨⟨⟨inputsProper, directivesProper⟩, present⟩, selectionsProper⟩
      rw [Definition.tokens, blockTokens] at enough
      simp only [List.length_append, List.length_cons, List.length_nil] at enough
      have braces : Avoids ['(', '@'] (blockTokens (Selection.allTokens selections) ++ rest) :=
        avoids_mark (by decide)
      have unnamed : Unnamed (blockTokens (Selection.allTokens selections) ++ rest) := unnamed_mark
      have fourth := readBraces_tokens limit rest selectionsProper (by simpa using present)
        (by omega)
      have third := readDirectives_tokens limit directivesProper (by omega) braces
      have second := readInputs_tokens limit inputsProper (by omega)
        (avoids_directiveTokens directives (by decide) (braces.mono (by simp)))
      have first := readOperationName_tokens name
        (unnamed_listTokens inputs (unnamed_directiveTokens directives unnamed))
      rw [Definition.tokens, List.cons_append, readDefinition, keywordType?_keyword]
      simp only [List.append_assoc, readOperation, first, second, third, fourth,
        Option.bind_eq_bind, Option.bind_some, Option.pure_def]
  | fragment name typeCondition directives selections =>
      simp only [Definition.isProper, Bool.and_eq_true] at proper
      rcases proper with ⟨⟨⟨other, directivesProper⟩, present⟩, selectionsProper⟩
      rw [Definition.tokens, blockTokens] at enough
      simp only [List.length_append, List.length_cons, List.length_nil] at enough
      have braces : Avoids ['(', '@'] (blockTokens (Selection.allTokens selections) ++ rest) :=
        avoids_mark (by decide)
      have second := readBraces_tokens limit rest selectionsProper (by simpa using present)
        (by omega)
      have first := readDirectives_tokens limit directivesProper (by omega) braces
      have named : (name = "on" || "on" ≠ "on") = false := by simpa using other
      have word : keywordType? "fragment" = none := by decide
      simp only [Definition.tokens, List.cons_append, List.nil_append, List.append_assoc]
      rw [readDefinition, word]
      dsimp only
      rw [if_pos rfl, readFragment, named]
      simp only [first, second, Bool.false_eq_true, if_false, Option.bind_eq_bind,
        Option.bind_some, Option.pure_def]

theorem readDefinitions_tokens {definitions : List Definition} (limit : Nat)
    (proper : ∀ definition ∈ definitions, definition.isProper) (present : definitions ≠ [])
    (enough : 2 * (definitions.flatMap Definition.tokens).length + 1 ≤ limit) :
    readDefinitions limit (definitions.flatMap Definition.tokens) = some definitions := by
  induction definitions generalizing limit with
  | nil => exact absurd rfl present
  | cons definition definitions ih =>
      obtain ⟨limit, rfl⟩ := Nat.exists_eq_succ_of_ne_zero (show limit ≠ 0 by omega)
      rw [List.flatMap_cons, List.length_append] at enough
      have positive := length_definition_pos definition
      have first := readDefinition_tokens definition limit
        (definitions.flatMap Definition.tokens) (proper definition List.mem_cons_self) (by omega)
      rw [List.flatMap_cons, readDefinitions, first, Option.bind_eq_bind, Option.bind_some]
      dsimp only
      cases definitions with
      | nil => rfl
      | cons second more =>
          have others := ih limit
            (fun definition member => proper definition (List.mem_cons_of_mem _ member)) (by simp)
            (by omega)
          have nonempty : ((second :: more).flatMap Definition.tokens).isEmpty = false := by
            have positive := length_definition_pos second
            rw [List.isEmpty_eq_false_iff, ← List.length_pos_iff, List.flatMap_cons,
              List.length_append]
            omega
          rw [nonempty, if_neg Bool.false_ne_true, others]
          rfl

/-- A text that is taken apart into the tokens of proper definitions is read as these. -/
theorem read?_of_lex {text : String} {definitions : List Definition}
    (lexed : lex text.toList = some (definitions.flatMap Definition.tokens))
    (proper : ∀ definition ∈ definitions, definition.isProper) (present : definitions ≠ []) :
    read? text = some definitions := by
  rw [read?, lexed, Option.bind_eq_bind, Option.bind_some]
  exact readDefinitions_tokens _ proper present (by omega)

end GraphRequest.Grammar
