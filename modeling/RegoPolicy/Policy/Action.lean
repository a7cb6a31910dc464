/-!
What a rule does with the data it applies to.
-/
namespace RegoPolicy.Policy

inductive Action where
  | allow
  | block
  | mask
  | decrypt
  deriving DecidableEq

namespace Action

def all : List Action := [.allow, .block, .mask, .decrypt]

def name : Action → String
  | .allow => "allow"
  | .block => "block"
  | .mask => "mask"
  | .decrypt => "decrypt"

def named : List (String × Action) := all.map fun a => (a.name, a)

def ofName? (s : String) : Option Action := named.lookup s

/-- Masking and decrypting act on columns, so they need to be told which. -/
def requiresTarget : Action → Bool
  | .mask | .decrypt => true
  | _ => false

theorem ofName?_name (a : Action) : ofName? a.name = some a := by
  cases a <;> decide

end Action
end RegoPolicy.Policy
