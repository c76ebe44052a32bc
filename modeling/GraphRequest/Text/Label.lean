import GraphRequest.Text.Printable

/-!
Labels: quoted text for messages, in which every character can be made out.
-/

namespace GraphRequest.Text

/-- Characters without a short escape are given by their number in hexadecimal. -/
def labelChar (c : Char) : List Char :=
  if c = '"' || c = '\\' then ['\\', c]
  else if c = '\t' then ['\\', 't']
  else if c = '\n' then ['\\', 'n']
  else if c = '\r' then ['\\', 'r']
  else if c = '\x00' then ['\\', '0']
  else if isPrintable c then [c]
  else ['\\', 'u', '\x7b'] ++ Nat.toDigits 16 c.toNat ++ ['\x7d']

def label (text : String) : String :=
  String.ofList ('"' :: (text.toList.flatMap labelChar ++ ['"']))

end GraphRequest.Text
