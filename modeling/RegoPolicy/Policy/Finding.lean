import RegoPolicy.Policy.Document
import RegoPolicy.Text.Quoted

/-!
What a check can find in a document, where, and the message that tells it.
-/
namespace RegoPolicy.Policy

open Text

inductive Location where
  | constant (index : Nat) (name : String)
  | predicate (index : Nat) (name : String)
  /-- the block is told when several blocks share the name of the predicate -/
  | condition (owner : String) (block : Option Nat) (index : Nat)
  | rule (index : Nat) (name : String)
  deriving DecidableEq

def bracketed (n : Nat) : String := "[" ++ toString n ++ "]"

def Location.text : Location → String
  | .constant index name => "constant" ++ bracketed index ++ " " ++ quoted name
  | .predicate index name => "predicate" ++ bracketed index ++ " " ++ quoted name
  | .condition owner none index =>
    "predicate " ++ quoted owner ++ " condition" ++ bracketed index
  | .condition owner (some block) index =>
    "predicate " ++ quoted owner ++ bracketed block ++ " condition" ++ bracketed index
  | .rule index name => "rule" ++ bracketed index ++ " " ++ quoted name

inductive Holder where
  | constant
  | predicate
  | earlierConstant
  | earlierDefault
  deriving DecidableEq

def Holder.text : Holder → String
  | .constant => "a constant"
  | .predicate => "a predicate"
  | .earlierConstant => "an earlier constant"
  | .earlierDefault => "an earlier default rule"

inductive Gap where
  | conditions
  | subject
  | values (operator : Operator)
  deriving DecidableEq

def Gap.field : Gap → String
  | .conditions => "condition"
  | .subject => "variable"
  | .values _ => "values"

def Gap.hint : Gap → String
  | .conditions => "a predicate requires at least one condition block"
  | .subject => "specify the input path to check (e.g., \"user.groups\", \"resource.name\")"
  | .values operator =>
    quoted operator.name ++ " test requires 'values' or 'constant' to compare against"

inductive ReferenceKind where
  | constant
  | predicate
  deriving DecidableEq

def ReferenceKind.text : ReferenceKind → String
  | .constant => "constant"
  | .predicate => "predicate"

inductive Issue where
  | nameInvalid (name : String)
  | nameReserved (name : String)
  | nameTaken (holder : Holder)
  | missing (gap : Gap)
  | literalInvalid
  | pathInvalid (path : String)
  | valuesAndConstant
  | undefined (kind : ReferenceKind) (name : String) (available : List String)
  | conditionalDefault
  | filteringDefault (action : Action)
  | noTarget (action : Action)
  | severalTargets (action : Action)
  deriving DecidableEq

def Issue.text : Issue → String
  | .nameInvalid name => quoted name ++ " is not a valid identifier (use snake_case identifiers)"
  | .nameReserved name => quoted name ++ " is a reserved name (use snake_case identifiers)"
  | .nameTaken holder => "name already used by " ++ holder.text ++ " - choose a different name"
  | .missing gap => "missing '" ++ gap.field ++ "' - " ++ gap.hint
  | .literalInvalid =>
    "value is not valid JSON - encode strings, lists and objects as JSON text"
  | .pathInvalid path =>
    quoted path ++ " is not a valid variable path - use dotted identifiers (e.g., \"user.groups\")"
  | .valuesAndConstant =>
    "'values' and 'constant' are mutually exclusive - use one or the other"
  | .undefined kind name available =>
    "references undefined " ++ kind.text ++ " " ++ quoted name ++ " - available " ++ kind.text ++
      "s: [" ++ String.intercalate ", " available ++ "]"
  | .conditionalDefault =>
    "default rules cannot have 'when_all_of' - they define fallback behavior"
  | .filteringDefault action =>
    "default " ++ action.name ++ " rules cannot filter columns - use 'all_columns = true' or " ++
      "move the 'data_label'/'column_name' target to a conditional rule"
  | .noTarget action =>
    action.name ++ " effect needs a target - add 'data_label', 'column_name', or " ++
      "'all_columns = true' to the effect block"
  | .severalTargets action =>
    action.name ++ " effect has more than one target - keep exactly one of 'data_label', " ++
      "'column_name', or 'all_columns = true'"

structure Finding where
  location : Location
  issue : Issue
  deriving DecidableEq

def Finding.message (f : Finding) : String := f.location.text ++ ": " ++ f.issue.text

end RegoPolicy.Policy
