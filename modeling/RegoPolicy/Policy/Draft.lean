import RegoPolicy.Policy.Check
import RegoPolicy.Table

/-!
A draft is a policy in the making: what has been declared so far, and what has been found wrong
with it. Constants and predicates stand by name, and a predicate may have several blocks.
-/
namespace RegoPolicy.Policy

structure Draft where
  description : Option String
  connectors : List String
  constants : Table String
  predicates : Table (List Predicate)
  rules : List Rule
  rawRego : Option String
  findings : List Finding

namespace Draft

def empty : Draft := ⟨none, [], .empty, .empty, [], none, []⟩

def isValid (d : Draft) : Bool := d.findings.isEmpty

def report (d : Draft) (findings : List Finding) : Draft :=
  { d with findings := d.findings ++ findings }

def addConstant (d : Draft) (c : Constant) : Draft :=
  { d with constants := d.constants.insert c.name c.value }

def addPredicate (d : Draft) (key : String) (p : Predicate) : Draft :=
  let blocks := (d.predicates.get? key).getD []
  { d with predicates := d.predicates.insert key (blocks ++ [p]) }

def addRule (d : Draft) (r : Rule) : Draft := { d with rules := d.rules ++ [r] }

/-- Declares the constant at a place of a document. The first constant of a name counts. -/
def declareConstant (d : Draft) (index : Nat) (c : Constant) : Draft :=
  let location := Location.constant index c.name
  let d := d.report (findingsAt location c.issues)
  if d.constants.contains c.name then
    d.report (findingsAt location [.nameTaken .earlierConstant])
  else d.addConstant c

def declarePredicate (d : Draft) (index : Nat) (p : Predicate) : Draft :=
  (d.report (findingsAt (.predicate index p.name) (p.issues d.constants.contains))).addPredicate
    p.name p

def ruleConflicts (d : Draft) (r : Rule) : List Issue :=
  (if d.predicates.contains r.name then [.nameTaken .predicate]
    else only (d.constants.contains r.name) (.nameTaken .constant)) ++
  only (r.isDefault && d.rules.any fun s => s.isDefault && s.name = r.name)
    (.nameTaken .earlierDefault)

def declareRule (d : Draft) (index : Nat) (r : Rule) : Draft :=
  let r := { r with index := index }
  (d.report (findingsAt r.location (r.issues ++ d.ruleConflicts r))).addRule r

/-- Declares all that a document holds. References are left for `checkReferences`. -/
def ofDocument (doc : Document) : Draft :=
  let d : Draft :=
    { empty with
      description := doc.description, connectors := doc.connectors, rawRego := doc.rawRego }
  let d := doc.constants.zipIdx.foldl (fun d (c, index) => d.declareConstant index c) d
  let d := doc.predicates.zipIdx.foldl (fun d (p, index) => d.declarePredicate index p) d
  doc.rules.zipIdx.foldl (fun d (r, index) => d.declareRule index r) d

def conditionIssues (d : Draft) (c : Condition) : List Issue :=
  let undeclared := c.constantName.filter fun name => !d.constants.contains name
  c.issues ++ undeclared.toList.map fun name => .undefined .constant name d.constants.keys

def blockFindings (d : Draft) (name : String) (blocks : List Predicate) : List Finding :=
  blocks.zipIdx.flatMap fun (p, block) =>
    p.conditions.zipIdx.flatMap fun (c, index) =>
      let shown := if 1 < blocks.length then some block else none
      findingsAt (.condition name shown index) (d.conditionIssues c)

def ruleReferenceFindings (d : Draft) (r : Rule) : List Finding :=
  let undeclared := r.whenAllOf.filter fun ref => !d.predicates.contains ref.name
  findingsAt r.location
    (undeclared.map fun ref => .undefined .predicate ref.name d.predicates.keys)

def referenceFindings (d : Draft) : List Finding :=
  d.predicates.entries.flatMap (fun (name, blocks) => d.blockFindings name blocks) ++
    d.rules.flatMap d.ruleReferenceFindings

def checkReferences (d : Draft) : Draft := d.report d.referenceFindings

end Draft
end RegoPolicy.Policy
