import GraphRequest.Text.Label
import GraphRequest.Text.Utf8

/-!
Files that hold declarations, as far as loading depends on them.
-/

namespace GraphRequest

inductive SourceFile
  | missing
  | directory
  | bytes (content : List UInt8)
  deriving DecidableEq, Repr

inductive FileError
  | notAFile (path : String)
  | invalidText (path : String) (offset : Nat)
  deriving DecidableEq, Repr

namespace FileError

def message : FileError → String
  | notAFile path => "Declaration path " ++ Text.label path ++ " is not a file"
  | invalidText path offset =>
      "Declaration file " ++ Text.label path ++ " is not valid UTF-8 (first bad byte at offset " ++
        Nat.repr offset ++ ")"

end FileError

namespace SourceFile

def read (path : String) : SourceFile → Except FileError String
  | missing => .error (.notAFile path)
  | directory => .error (.notAFile path)
  | bytes content => (Text.Utf8.decode content).mapError (.invalidText path ·)

end SourceFile

end GraphRequest
