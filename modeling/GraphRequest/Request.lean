import GraphRequest.Assembly.Operation
import GraphRequest.Json.Writer
import GraphRequest.Text.Collapse

/-!
Requests from a list of fragments and operations, one request for each operation. Each operation has
an assembly of its own, and all of the fragments are introduced to it.
-/

namespace GraphRequest

inductive Part
  | fragment (declared : Fragment)
  | operation (declared : Operation)
  deriving Repr

namespace Part

def fragments (parts : List Part) : List Fragment :=
  parts.filterMap fun
    | fragment declared => some declared
    | operation _ => none

def operations (parts : List Part) : List Operation :=
  parts.filterMap fun
    | operation declared => some declared
    | fragment _ => none

end Part

structure Request where
  operationName : String
  query : String
  payload : OrderedMap String Value
  deriving Repr

def Request.toJson (request : Request) : Json :=
  .object [("operationName", .string request.operationName),
    ("query", .string request.query),
    ("variables", .object (Value.entriesToJson request.payload.entries))]

/-- A request with the document it was written from and the assembly that knows what to expect of
the response. -/
structure AssembledRequest where
  request : Request
  document : Document
  assembly : Assembly
  deriving Repr

def AssembledRequest.of (document : Document) (assembly : Assembly) : AssembledRequest where
  request := {
    operationName := assembly.name
    query := Text.collapse document.text
    payload := assembly.payload }
  document := document
  assembly := assembly

def assembleOne (fragments : List Fragment) (operation : Operation) :
    Except RequestError AssembledRequest :=
  let steps : AssemblyM Document := do
    Assembly.introduceFragments fragments
    operation.assemble
  match steps (Assembly.new operation.effectiveName) with
  | .ok document assembly => .ok (.of document assembly)
  | .error e _ => .error e

def assembleEach (fragments : List Fragment) :
    List Operation → Except RequestError (List AssembledRequest)
  | [] => .ok []
  | operation :: rest => do
      let first ← assembleOne fragments operation
      return first :: (← assembleEach fragments rest)

/-- The requests of all operations, in their order. Fragments serve every operation, wherever they
stand in the list. -/
def assemble (parts : List Part) : Except RequestError (List AssembledRequest) :=
  assembleEach (Part.fragments parts) (Part.operations parts)

end GraphRequest
