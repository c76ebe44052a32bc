import GraphRequest.Value.Source

/-!
Directives on fields and operations.
-/

namespace GraphRequest

structure Directive where
  name : String
  arguments : OrderedMap String Value := .empty
  deriving Repr

namespace Directive

def withArgument (directive : Directive) (name : String) (value : Value) : Directive :=
  { directive with arguments := directive.arguments.insert name value }

def check (known : Variables) (directive : Directive) : Except RequestError Unit :=
  Value.checkEntries known directive.arguments.entries

def checkAll (known : Variables) : List Directive → Except RequestError Unit
  | [] => .ok ()
  | directive :: rest => do
      directive.check known
      checkAll known rest

def source (directive : Directive) : String :=
  "@" ++ directive.name ++ Value.argumentsSource directive.arguments.entries

def same (a b : Directive) : Bool :=
  a.name = b.name && Value.sameArguments a.arguments b.arguments

def sameAll : List Directive → List Directive → Bool
  | [], [] => true
  | a :: as, b :: bs => a.same b && sameAll as bs
  | _, _ => false

end Directive

end GraphRequest
