import GraphRequest.Field.Basic
import GraphRequest.Path
import GraphRequest.Value.Json

/-!
What a response is expected to hold for each selected field. `Expectation.of` derives it from the
declaration of the field and the site of its selection.
-/

namespace GraphRequest

/-- Where a set of selections stands: the place of the object that holds them, the level of the
fields among them, and the local type that these fields inherit. -/
structure Site where
  path : Path
  level : Nat
  inherited : Option String
  deriving DecidableEq, Repr

def Site.root : Site := ⟨.root, 1, none⟩

structure Expectation where
  aliasName : Option String
  arguments : OrderedMap String Value
  key : String
  level : Nat
  localType : Option String
  path : Path
  responseKey : String
  shape : Shape
  deriving Repr

abbrev ResponseSlot := String × Nat

abbrev Expectations := OrderedMap ResponseSlot Expectation

namespace Expectation

def slot (e : Expectation) : ResponseSlot :=
  (e.responseKey, e.level)

def inner (e : Expectation) : Site where
  path := e.path
  level := e.level + 1
  inherited := if e.shape.passesLocalType then e.localType else none

/-- The local types of a node and of what contains it, if both are given and differ. -/
def conflict? (own inherited : Option String) : Option (String × String) :=
  match own, inherited with
  | some declared, some expected => if declared = expected then none else some (declared, expected)
  | _, _ => none

def build (site : Site) (key : String) (attributes : FieldAttributes) (shape : Shape) :
    Expectation where
  aliasName := attributes.aliasName
  arguments := attributes.arguments.getD .empty
  key := key
  level := site.level
  localType := if shape.keepsLocalType then attributes.localType.or site.inherited else none
  path := site.path.extend (attributes.responseKey key) (attributes.yieldsList key)
  responseKey := attributes.responseKey key
  shape := shape

/-- A node may not contradict the local type it inherits, and a composite field has to select
something. -/
def of (site : Site) (key : String) (field : DeclaredField) : Except RequestError Expectation :=
  let attributes := field.attributes
  let shape := (attributes.evidence (!field.fields.isEmpty) key site.inherited).shape
  let e := build site key attributes shape
  match if shape = .node then conflict? attributes.localType site.inherited else none with
  | some (declared, expected) => .error (.conflictingTypes e.path.text declared expected)
  | none =>
      if shape.needsSelection && !field.selectsAnything then .error (.nothingSelected e.path.text)
      else .ok e

def optionJson : Option String → Json
  | some text => .string text
  | none => .null

def toJson (e : Expectation) : Json :=
  .object [("alias", optionJson e.aliasName),
    ("arguments", .object (Value.entriesToJson e.arguments.entries)),
    ("key", .string e.key),
    ("level", .integer e.level),
    ("localTypeName", optionJson e.localType),
    ("path", e.path.toJson),
    ("responseKey", .string e.responseKey),
    ("shape", .string e.shape.text)]

end Expectation

namespace Expectations

/-- An expectation under a known key takes the place of the earlier one. -/
def put (expectations : Expectations) (e : Expectation) : Expectations :=
  expectations.insert e.slot e

def putAll (expectations : Expectations) (met : List Expectation) : Expectations :=
  met.foldl put expectations

end Expectations

end GraphRequest
