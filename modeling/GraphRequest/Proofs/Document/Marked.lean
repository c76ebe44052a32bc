import GraphRequest.Proofs.Walk.Reference

/-!
The words of a document with those marked that spread a fragment. Without the marks they are the
words that are written, and the marked ones are the declared spreads in their order.
-/

namespace GraphRequest

namespace Document

inductive Word
  | spread (fragment : String)
  | other (text : String)
  deriving DecidableEq, Repr

namespace Word

def text : Word → String
  | spread fragment => "..." ++ fragment
  | other text => text

def spread? : Word → Option String
  | spread fragment => some fragment
  | other _ => none

def spreads (words : List Word) : List String :=
  words.filterMap spread?

def block (words : List Word) : List Word :=
  .other "\x7b" :: (words ++ [.other "\x7d"])

theorem map_text_other (words : List String) : (words.map other).map text = words := by
  rw [List.map_map]
  exact List.map_id _

theorem map_text_block (words : List Word) :
    (block words).map text = Document.block (words.map text) := by
  simp [block, Document.block, text]

theorem spreads_append (first second : List Word) :
    spreads (first ++ second) = spreads first ++ spreads second :=
  List.filterMap_append

theorem spreads_other (words : List String) : spreads (words.map other) = [] := by
  rw [spreads, List.filterMap_map]
  exact List.filterMap_eq_nil_iff.mpr fun _ _ => rfl

theorem spreads_block (words : List Word) : spreads (block words) = spreads words := by
  simp [block, spreads, spread?, List.filterMap_cons]

end Word

namespace Selection

mutual

def marked : Selection → List Word
  | scalar name => [.other name]
  | spread fragment => [.spread fragment]
  | field head selections =>
      head.words.map .other ++
        if selections.isEmpty then [] else Word.block (allMarked selections)

def allMarked : List Selection → List Word
  | [] => []
  | selection :: rest => marked selection ++ allMarked rest

end

mutual

theorem marked_text : (selection : Selection) → (marked selection).map Word.text = words selection
  | scalar name => rfl
  | spread fragment => rfl
  | field head selections => by
      rw [marked, words, List.map_append, Word.map_text_other]
      cases selections.isEmpty with
      | true => rfl
      | false =>
          rw [if_neg Bool.false_ne_true, if_neg Bool.false_ne_true, Word.map_text_block,
            allMarked_text selections]

theorem allMarked_text : (selections : List Selection) →
    (allMarked selections).map Word.text = allWords selections
  | [] => rfl
  | selection :: rest => by
      rw [allMarked, allWords, List.map_append, marked_text selection, allMarked_text rest]

end

theorem allMarked_append (first second : List Selection) :
    allMarked (first ++ second) = allMarked first ++ allMarked second := by
  induction first with
  | nil => rfl
  | cons selection rest ih =>
      rw [List.cons_append, allMarked, allMarked, ih, List.append_assoc]

theorem spreads_field (head : FieldHead) (selections : List Selection) :
    Word.spreads (marked (field head selections)) = Word.spreads (allMarked selections) := by
  rw [marked, Word.spreads_append, Word.spreads_other, List.nil_append]
  cases selections with
  | nil => rfl
  | cons first rest => exact Word.spreads_block _

theorem spreads_leaves (scalars spreads : List String) :
    Word.spreads (allMarked (Assembly.leaves scalars spreads)) = spreads := by
  rw [Assembly.leaves, allMarked_append, Word.spreads_append]
  have none : Word.spreads (allMarked (scalars.map scalar)) = [] := by
    induction scalars with
    | nil => rfl
    | cons name rest ih => exact ih
  have all : Word.spreads (allMarked (spreads.map spread)) = spreads := by
    induction spreads with
    | nil => rfl
    | cons name rest ih => exact congrArg (name :: ·) ih
  rw [none, all, List.nil_append]

end Selection

namespace Fragment

def marked (fragment : Fragment) : List Word :=
  ["fragment", fragment.name, "on", fragment.typeCondition].map .other ++
    Word.block (Selection.allMarked fragment.selections)

theorem marked_text (fragment : Fragment) : fragment.marked.map Word.text = fragment.words := by
  rw [marked, words, List.map_append, Word.map_text_other, Word.map_text_block,
    Selection.allMarked_text]

end Fragment

namespace Operation

def marked (operation : Operation) : List Word :=
  ([operation.type.keyword, operation.name, VariableDefinition.listText operation.definitions] ++
    operation.directives.map Directive.source).map .other ++
    Word.block (Selection.allMarked operation.selections)

theorem marked_text (operation : Operation) : operation.marked.map Word.text = operation.words := by
  rw [marked, words, List.map_append, Word.map_text_other, Word.map_text_block,
    Selection.allMarked_text]

end Operation

def marked (document : Document) : List Word :=
  (document.fragments.map Fragment.marked).flatten ++ document.operation.marked

theorem marked_text (document : Document) : document.marked.map Word.text = document.words := by
  have fragments : (Fragment.marked · |>.map Word.text) = Fragment.words :=
    funext Fragment.marked_text
  rw [marked, words, List.map_append, Operation.marked_text, List.map_flatten, List.map_map,
    ← fragments]
  rfl

end Document

namespace Assembly

mutual

theorem spreads_fieldNode (key : String) : (declared : DeclaredField) →
    Document.Word.spreads (fieldNode key declared).marked = declared.spreadNames
  | .mk attributes nested => by
      rw [fieldNode, Document.Selection.spreads_field, Document.Selection.allMarked_append,
        Document.Word.spreads_append, Document.Selection.spreads_leaves, spreads_fieldNodes nested,
        DeclaredField.spreadNames]

theorem spreads_fieldNodes : (declared : List (String × DeclaredField)) →
    Document.Word.spreads (Document.Selection.allMarked (fieldNodes declared)) =
      DeclaredField.allSpreadNames declared
  | [] => rfl
  | (key, declared) :: rest => by
      rw [fieldNodes, Document.Selection.allMarked, Document.Word.spreads_append,
        spreads_fieldNode key declared, spreads_fieldNodes rest, DeclaredField.allSpreadNames]

end

end Assembly

end GraphRequest
