/-!
The kinds of operations.
-/

namespace GraphRequest

inductive OperationType
  | query
  | mutation
  | subscription
  deriving DecidableEq, Repr

namespace OperationType

def keyword : OperationType → String
  | query => "query"
  | mutation => "mutation"
  | subscription => "subscription"

def defaultName : OperationType → String
  | query => "Query"
  | mutation => "Mutation"
  | subscription => "Subscription"

def singleRoot : OperationType → Bool
  | query => false
  | mutation => true
  | subscription => true

def all : List OperationType :=
  [query, mutation, subscription]

end OperationType

end GraphRequest
