import RegoPolicy.Policy.Finding
import RegoPolicy.Policy.Name

/-!
Checks of single declarations. A check gives every finding there is, so that all that is wrong
with a document is told at once.
-/
namespace RegoPolicy.Policy

def only {α : Type} (holds : Bool) (a : α) : List α := if holds then [a] else []

def checkName (name : String) : List Issue :=
  match nameFault? name with
  | some .invalid => [.nameInvalid name]
  | some .reserved => [.nameReserved name]
  | none => []

def Constant.issues (c : Constant) : List Issue :=
  checkName c.name ++ only (!Json.isLiteral c.value) .literalInvalid

def Predicate.issues (declared : String → Bool) (p : Predicate) : List Issue :=
  checkName p.name ++ only (declared p.name) (.nameTaken .constant) ++
    only p.conditions.isEmpty (.missing .conditions)

def Condition.badPath (c : Condition) : Option String := c.path.filter fun p => !isPath p

/-- Existence tests need nothing to compare with and may look at the whole input. -/
def Condition.issues (c : Condition) : List Issue :=
  let compares := !c.operator.isExistence
  only (compares && c.path.isNone) (.missing .subject) ++
    c.badPath.toList.map .pathInvalid ++
    only (compares && c.values.isEmpty && c.constantName.isNone) (.missing (.values c.operator)) ++
    only (!c.values.isEmpty && c.constantName.isSome) .valuesAndConstant

def Effect.filters (e : Effect) : Bool :=
  match e.target with
  | some (.dataLabel _) | some (.columnName _) => true
  | _ => false

def Effect.issues (e : Effect) : List Issue :=
  if e.action.requiresTarget && e.targets.isEmpty then [.noTarget e.action]
  else only (1 < e.targets.length) (.severalTargets e.action)

/-- A default rule has no body, so nothing can limit it. -/
def Rule.issues (r : Rule) : List Issue :=
  checkName r.name ++ only (r.isDefault && !r.whenAllOf.isEmpty) .conditionalDefault ++
    only (r.isDefault && r.effect.filters) (.filteringDefault r.effect.action) ++ r.effect.issues

def findingsAt (location : Location) (issues : List Issue) : List Finding :=
  issues.map fun issue => ⟨location, issue⟩

def Rule.location (r : Rule) : Location := .rule r.index r.name

end RegoPolicy.Policy
