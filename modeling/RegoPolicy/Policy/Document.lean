import RegoPolicy.Json.Shape
import RegoPolicy.Policy.Action
import RegoPolicy.Policy.Operator

/-!
Policy documents and their JSON form. A document declares constants, predicates, which hold when
their conditions do, and rules, which have an effect when their predicates hold.
-/
namespace RegoPolicy.Policy

open Json

structure Constant where
  name : String
  value : String
  deriving DecidableEq

structure Condition where
  operator : Operator
  subject : Option String
  values : List String
  constant : Option String
  deriving DecidableEq

structure Predicate where
  name : String
  conditions : List Condition
  deriving DecidableEq

structure Reference where
  name : String
  negated : Bool
  deriving DecidableEq

structure Effect where
  action : Action
  kind : Option String
  subKind : Option String
  typesafe : Option String
  message : Option String
  reason : Option String
  dataLabel : Option String
  columnName : Option String
  allColumns : Bool
  deriving DecidableEq

/-- Rules keep the place they have in their document. -/
structure Rule where
  name : String
  isDefault : Bool
  effect : Effect
  whenAllOf : List Reference
  index : Nat
  deriving DecidableEq

structure Document where
  description : Option String
  connectors : List String
  constants : List Constant
  predicates : List Predicate
  rules : List Rule
  rawRego : Option String
  deriving DecidableEq

inductive Target where
  | allColumns
  | dataLabel (label : String)
  | columnName (name : String)
  deriving DecidableEq

/-- A text that is set and not empty. -/
def filled (s : Option String) : Option String := s.filter (· ≠ "")

def Condition.path (c : Condition) : Option String := filled c.subject

def Condition.constantName (c : Condition) : Option String := filled c.constant

/-- One exclamation mark in front negates. -/
def Reference.ofString (s : String) : Reference :=
  match s.toList with
  | '!' :: name => ⟨String.ofList name, true⟩
  | _ => ⟨s, false⟩

def Reference.toString (r : Reference) : String :=
  if r.negated then "!" ++ r.name else r.name

/-- Every target that is set, in the order in which they count. -/
def Effect.targets (e : Effect) : List Target :=
  (if e.allColumns then [.allColumns] else []) ++
    (filled e.dataLabel).toList.map .dataLabel ++ (filled e.columnName).toList.map .columnName

def Effect.target (e : Effect) : Option Target := e.targets.head?

def Document.empty : Document := ⟨none, [], [], [], [], none⟩

def required {α τ σ : Type} (name : String) (shape : Shape α) (rest : Fields τ σ) :
    Fields (α × τ) (Option α × σ) :=
  .field name [] shape none (fun _ => false) rest

/-- A text that may be left out, and is if it is not set. -/
def optionalText {τ σ : Type} (name : String) (rest : Fields τ σ) :
    Fields (Option String × τ) (Option (Option String) × σ) :=
  .field name [] (.optional .text) (some none) Option.isNone rest

/-- A list that may be left out, and is always written. -/
def listed {α τ σ : Type} (name : String) (aliases : List String) (shape : Shape α)
    (rest : Fields τ σ) : Fields (List α × τ) (Option (List α) × σ) :=
  .field name aliases (.sequence shape) (some []) (fun _ => false) rest

/-- A list that may be left out, and is if it is empty. -/
def optionalList {α τ σ : Type} (name : String) (shape : Shape α) (rest : Fields τ σ) :
    Fields (List α × τ) (Option (List α) × σ) :=
  .field name [] (.sequence shape) (some []) List.isEmpty rest

def Constant.shape : Shape Constant :=
  .record "Constant"
    (required "name" .text (required "value" .literal .done))
    (fun (name, value, ()) => ⟨name, value⟩)
    (fun c => (c.name, c.value, ()))

def Operator.shape : Shape Operator := .choice named name

def Action.shape : Shape Action := .choice named name

def Condition.shape : Shape Condition :=
  .record "Condition"
    (.field "operator" ["test"] Operator.shape none (fun _ => false)
      (optionalText "variable"
        (optionalList "values" .literal
          (optionalText "constant" .done))))
    (fun (operator, subject, values, constant, ()) => ⟨operator, subject, values, constant⟩)
    (fun c => (c.operator, c.subject, c.values, c.constant, ()))

def Predicate.shape : Shape Predicate :=
  .record "Predicate"
    (required "name" .text (listed "conditions" ["condition"] Condition.shape .done))
    (fun (name, conditions, ()) => ⟨name, conditions⟩)
    (fun p => (p.name, p.conditions, ()))

def Reference.shape : Shape Reference := .via .text ofString toString

def Effect.shape : Shape Effect :=
  .record "Effect"
    (required "action" Action.shape
      (optionalText "type"
        (optionalText "sub_type"
          (optionalText "typesafe"
            (optionalText "message"
              (optionalText "reason"
                (optionalText "data_label"
                  (optionalText "column_name"
                    (.field "all_columns" [] .flag (some false) (fun b => !b) .done)))))))))
    (fun (action, kind, subKind, typesafe, message, reason, dataLabel, columnName, allColumns, ()) =>
      ⟨action, kind, subKind, typesafe, message, reason, dataLabel, columnName, allColumns⟩)
    (fun e => (e.action, e.kind, e.subKind, e.typesafe, e.message, e.reason, e.dataLabel,
      e.columnName, e.allColumns, ()))

/-- The place of a rule is not part of its JSON form. -/
def Rule.shape : Shape Rule :=
  .record "Rule"
    (required "name" .text
      (.field "default" [] .flag (some false) (fun _ => false)
        (required "effect" Effect.shape
          (optionalList "when_all_of" Reference.shape .done))))
    (fun (name, isDefault, effect, whenAllOf, ()) => ⟨name, isDefault, effect, whenAllOf, 0⟩)
    (fun r => (r.name, r.isDefault, r.effect, r.whenAllOf, ()))

def Document.shape : Shape Document :=
  .record "PolicyDocument"
    (optionalText "description"
      (optionalList "included_connectors" .text
        (listed "constants" ["constant"] Constant.shape
          (listed "predicates" ["predicate"] Predicate.shape
            (listed "rules" ["rule"] Rule.shape
              (optionalText "raw_rego" .done))))))
    (fun (description, connectors, constants, predicates, rules, rawRego, ()) =>
      ⟨description, connectors, constants, predicates, rules, rawRego⟩)
    (fun d => (d.description, d.connectors, d.constants, d.predicates, d.rules, d.rawRego, ()))

def Document.pretty (d : Document) : String := (Document.shape.write d).pretty

end RegoPolicy.Policy
