/-!
Numbers in hexadecimal digits.
-/
namespace RegoPolicy.Text

def hexDigits (n : Nat) : List Char := Nat.toDigits 16 n

def hexPair (n : Nat) : List Char := [Nat.digitChar (n / 16), Nat.digitChar (n % 16)]

end RegoPolicy.Text
