import RegoPolicy.Command.Arguments
import RegoPolicy.Command.Files
import RegoPolicy.Command.Report
import RegoPolicy.Decimal.Double
import RegoPolicy.Decimal.Shortest
import RegoPolicy.Digest
import RegoPolicy.Json.Fault
import RegoPolicy.Json.Lexeme
import RegoPolicy.Json.Numeral
import RegoPolicy.Json.Read
import RegoPolicy.Json.Scan
import RegoPolicy.Json.Shape
import RegoPolicy.Json.Value
import RegoPolicy.Main
import RegoPolicy.Policy.Action
import RegoPolicy.Policy.Check
import RegoPolicy.Policy.Compile
import RegoPolicy.Policy.Document
import RegoPolicy.Policy.Draft
import RegoPolicy.Policy.Finding
import RegoPolicy.Policy.Name
import RegoPolicy.Policy.Operator
import RegoPolicy.Policy.Source
import RegoPolicy.Rego.Condition
import RegoPolicy.Rego.Module
import RegoPolicy.Rego.Rule
import RegoPolicy.Table
import RegoPolicy.Text.Blank
import RegoPolicy.Text.Concealed
import RegoPolicy.Text.Extending
import RegoPolicy.Text.Hex
import RegoPolicy.Text.Quoted
import RegoPolicy.Text.Symbol
import RegoPolicy.Proofs.Grammar
import RegoPolicy.Proofs.Scanner
import RegoPolicy.Proofs.Declarations
import RegoPolicy.Proofs.Names
import RegoPolicy.Proofs.WellFormed
import RegoPolicy.Proofs.BodyLines
import RegoPolicy.Proofs.ModuleHeads
import RegoPolicy.Proofs.NameCapture
import RegoPolicy.Proofs.NameClashes
import RegoPolicy.Proofs.SortedNames
import RegoPolicy.Proofs.DeclarationOrder
import RegoPolicy.Proofs.Diagnosis
import RegoPolicy.Proofs.ReadBack
import RegoPolicy.Proofs.RoundTrip
import RegoPolicy.Proofs.KeywordImports
import RegoPolicy.Proofs.ReportLines
import RegoPolicy.Proofs.DefinedBefore
import RegoPolicy.Proofs.ModuleLayout
import RegoPolicy.Proofs.Outputs
import RegoPolicy.Proofs.DescriptionComments
import RegoPolicy.Proofs.Utf8
import RegoPolicy.Proofs.Quotations
import RegoPolicy.Proofs.Numerals
import RegoPolicy.Proofs.Trees
import RegoPolicy.Proofs.Decoding
import RegoPolicy.Proofs.ShapeDecoding
import RegoPolicy.Proofs.WrittenNumbers
import RegoPolicy.Proofs.WrittenValues
import RegoPolicy.Proofs.FailureReports
import RegoPolicy.Proofs.Respelling
import RegoPolicy.Proofs.ConstantSpellings
import RegoPolicy.Proofs.Operands
import RegoPolicy.Proofs.Templates
import RegoPolicy.Proofs.EffectObjects
import RegoPolicy.Proofs.RuleTexts
import RegoPolicy.Proofs.LocationTexts
import RegoPolicy.Proofs.ColumnBindings
import RegoPolicy.Proofs.IntegerLiterals
import RegoPolicy.Proofs.LiteralPlaces
import RegoPolicy.Proofs.StructuredValues
import RegoPolicy.Proofs.PathPatterns
import RegoPolicy.Proofs.ModuleFrame
import RegoPolicy.Proofs.ConditionLines
