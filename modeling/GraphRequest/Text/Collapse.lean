import GraphRequest.Text.Blank

/-!
Collapsing white space outside string literals. The collapser is a transducer: `step` says what
one character adds to the result in each state, and `run_append` lets a text be taken in parts.
-/

namespace GraphRequest.Text

/-- What stands directly before the next character. -/
inductive Collapse
  /-- nothing that was kept -/
  | start
  /-- kept text outside any literal -/
  | word
  /-- white space after kept text -/
  | gap
  /-- the inside of a string literal -/
  | literal
  /-- a backslash that escapes inside a string literal -/
  | escape
  deriving DecidableEq, Repr

namespace Collapse

def afterKept (c : Char) : Collapse :=
  if c = '"' then literal else word

def step (state : Collapse) (c : Char) : List Char × Collapse :=
  match state with
  | start => if isBlank c then ([], start) else ([c], afterKept c)
  | word => if isBlank c then ([], gap) else ([c], afterKept c)
  | gap => if isBlank c then ([], gap) else ([' ', c], afterKept c)
  | literal => ([c], if c = '\\' then escape else if c = '"' then word else literal)
  | escape => ([c], literal)

def run (state : Collapse) : List Char → List Char
  | [] => []
  | c :: rest => (state.step c).1 ++ run (state.step c).2 rest

def after (state : Collapse) : List Char → Collapse
  | [] => state
  | c :: rest => after (state.step c).2 rest

theorem run_append (state : Collapse) (first second : List Char) :
    state.run (first ++ second) = state.run first ++ (state.after first).run second := by
  induction first generalizing state with
  | nil => rfl
  | cons c rest ih => simp [run, after, ih]

theorem after_append (state : Collapse) (first second : List Char) :
    state.after (first ++ second) = (state.after first).after second := by
  induction first generalizing state with
  | nil => rfl
  | cons c rest ih => simp [after, ih]

end Collapse

/-- Each run of white space outside string literals becomes one space, and none is left at the
ends. -/
def collapse (source : String) : String :=
  String.ofList (Collapse.start.run source.toList)

end GraphRequest.Text
