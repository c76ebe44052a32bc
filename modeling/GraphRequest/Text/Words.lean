/-!
Words and keys: joining them, and finding a word inside a name.
-/

namespace GraphRequest.Text

/-- Single spaces between the words; an empty word leaves no gap. -/
def joinWords (words : List String) : String :=
  " ".intercalate (words.filter (· ≠ ""))

/-- The path of the entry `key` of what stands at `path`; the root has no path. -/
def dotted (path key : String) : String :=
  if path = "" then key else path ++ "." ++ key

def occursIn (word : List Char) : List Char → Bool
  | [] => word.isEmpty
  | c :: rest => word.isPrefixOf (c :: rest) || occursIn word rest

def mentions (text word : String) : Bool :=
  occursIn word.toList text.toList

theorem occursIn_iff (word text : List Char) : occursIn word text ↔ word <:+: text := by
  induction text with
  | nil => simp [occursIn]
  | cons c rest ih => simp [occursIn, ih, List.infix_cons_iff]

end GraphRequest.Text
