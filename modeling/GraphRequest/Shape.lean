import GraphRequest.Text.Words

/-!
The shape that a field is expected to have in a response, inferred from its declaration.
-/

namespace GraphRequest

inductive Shape
  /-- a connection that wraps a list of edges -/
  | connection
  | edges
  /-- no shape could be inferred -/
  | negligible
  /-- one object of a local type -/
  | node
  /-- a plain list of objects of a local type -/
  | nodeList
  /-- an object without a local type -/
  | record
  | scalar
  deriving DecidableEq, Repr

namespace Shape

def text : Shape → String
  | connection => "connection"
  | edges => "edges"
  | negligible => "negligible"
  | node => "node"
  | nodeList => "nodeList"
  | record => "record"
  | scalar => "scalar"

def needsSelection : Shape → Bool
  | negligible | scalar => false
  | _ => true

def keepsLocalType : Shape → Bool
  | connection | edges | node | nodeList => true
  | _ => false

def passesLocalType : Shape → Bool
  | connection | edges | nodeList => true
  | _ => false

end Shape

structure ShapeHints where
  connection : Bool := false
  edges : Bool := false
  list : Bool := false
  node : Bool := false
  deriving DecidableEq, Repr

structure ShapeEvidence where
  key : String
  localType : Option String
  inherited : Option String
  flags : ShapeHints
  hasArguments : Bool
  hasSpreads : Bool
  hasFields : Bool
  hasScalars : Bool
  deriving DecidableEq, Repr

namespace ShapeEvidence

def anyLocalType (e : ShapeEvidence) : Bool :=
  e.localType.isSome || e.inherited.isSome

def hasContent (e : ShapeEvidence) : Bool :=
  e.hasFields || e.hasArguments || e.hasScalars || e.hasSpreads

def mentionsConnection (e : ShapeEvidence) : Bool :=
  Text.mentions e.key "Connection" || Text.mentions e.key "connection" || e.flags.connection

def mentionsNode (e : ShapeEvidence) : Bool :=
  Text.mentions e.key "Node" || Text.mentions e.key "node" || e.flags.node

/-- The first rule that applies decides. -/
def shape (e : ShapeEvidence) : Shape :=
  if e.localType.isSome && e.mentionsConnection then .connection
  else if e.anyLocalType && e.flags.list then .nodeList
  else if e.anyLocalType && e.key = "edges" || e.flags.edges then .edges
  else if e.anyLocalType && e.key = "node" || e.mentionsNode then .node
  else if !e.anyLocalType && e.hasContent then .record
  else if e.localType.isNone && !e.hasContent then .scalar
  else .negligible

end ShapeEvidence

end GraphRequest
