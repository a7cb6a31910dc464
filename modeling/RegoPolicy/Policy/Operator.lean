/-!
The tests a condition can make.
-/
namespace RegoPolicy.Policy

inductive Operator where
  | equals
  | notEquals
  | member
  | notMember
  | anyMember
  | allMember
  | noMember
  | contains
  | notContains
  | startsWith
  | endsWith
  | matchesRegex
  | greater
  | less
  | greaterOrEqual
  | lessOrEqual
  | present
  | absent
  deriving DecidableEq

namespace Operator

/-- Every operator, in the order in which they are listed to the user. -/
def all : List Operator :=
  [.equals, .notEquals, .member, .notMember, .anyMember, .allMember, .noMember, .contains,
   .notContains, .startsWith, .endsWith, .matchesRegex, .greater, .less, .greaterOrEqual,
   .lessOrEqual, .present, .absent]

def name : Operator → String
  | .equals => "equals"
  | .notEquals => "not_equals"
  | .member => "in"
  | .notMember => "not_in"
  | .anyMember => "any_in"
  | .allMember => "all_in"
  | .noMember => "none_in"
  | .contains => "contains"
  | .notContains => "not_contains"
  | .startsWith => "starts_with"
  | .endsWith => "ends_with"
  | .matchesRegex => "regex"
  | .greater => "greater_than"
  | .less => "less_than"
  | .greaterOrEqual => "greater_than_or_equal"
  | .lessOrEqual => "less_than_or_equal"
  | .present => "exists"
  | .absent => "not_exists"

def named : List (String × Operator) := all.map fun o => (o.name, o)

def ofName? (s : String) : Option Operator := named.lookup s

def before (o : Operator) : List Operator := all.takeWhile (· ≠ o)

def isMembership : Operator → Bool
  | .member | .notMember | .anyMember | .allMember | .noMember => true
  | _ => false

def isExistence : Operator → Bool
  | .present | .absent => true
  | _ => false

theorem mem_all (o : Operator) : o ∈ all := by
  cases o <;> decide

theorem ofName?_name (o : Operator) : ofName? o.name = some o := by
  cases o <;> decide

end Operator
end RegoPolicy.Policy
