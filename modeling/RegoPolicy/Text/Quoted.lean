import RegoPolicy.Text.Concealed
import RegoPolicy.Text.Extending
import RegoPolicy.Text.Hex

/-!
Names quoted for a message: between double quotes, with nothing invisible and nothing that could
run into its neighbour.
-/
namespace RegoPolicy.Text

def shown (c : Char) : List Char :=
  if c = '"' then ['\\', '"']
  else if c = '\\' then ['\\', '\\']
  else if c = '\n' then ['\\', 'n']
  else if c = '\r' then ['\\', 'r']
  else if c = '\t' then ['\\', 't']
  else if c = '\x00' then ['\\', '0']
  else if isExtending c || isConcealed c then
    ['\\', 'u', '{'] ++ hexDigits c.toNat ++ ['}']
  else [c]

def quoted (s : String) : String :=
  String.ofList (['"'] ++ s.toList.flatMap shown ++ ['"'])

end RegoPolicy.Text
