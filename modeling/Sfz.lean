import Sfz.Check
import Sfz.Check.Sample
import Sfz.Check.Structure
import Sfz.Check.Value
import Sfz.CommandLine
import Sfz.CommandLine.Arguments
import Sfz.Data
import Sfz.Document
import Sfz.Document.Builder
import Sfz.File.Tree
import Sfz.Finding
import Sfz.HeaderKind
import Sfz.Inclusion
import Sfz.Json
import Sfz.Json.Reader
import Sfz.Lint
import Sfz.Macro
import Sfz.Main
import Sfz.Node
import Sfz.Node.Comment
import Sfz.Node.Parser
import Sfz.Number.Binary64
import Sfz.Number.Decimal
import Sfz.Number.Digits
import Sfz.Number.Note
import Sfz.Number.Numeral
import Sfz.Number.Shortest
import Sfz.Number.Stepwise
import Sfz.Opcode.Catalog
import Sfz.Opcode.Entry
import Sfz.Opcode.Load
import Sfz.Opcode.Registry
import Sfz.Opcode.Source
import Sfz.Opcode.Standard
import Sfz.Opcode.Table
import Sfz.Opcode.Template
import Sfz.Path
import Sfz.Proofs.CheckSwitches
import Sfz.Proofs.CheckedProblems
import Sfz.Proofs.CommentLayout
import Sfz.Proofs.CurveReferences
import Sfz.Proofs.DefinitionsInForce
import Sfz.Proofs.DirectorySearch
import Sfz.Proofs.ErasedDirectives
import Sfz.Proofs.ExpansionLaws
import Sfz.Proofs.FailFast
import Sfz.Proofs.FilePaths
import Sfz.Proofs.FindingPlaces
import Sfz.Proofs.FreshAnswers
import Sfz.Proofs.InclusionCycles
import Sfz.Proofs.InclusionRun
import Sfz.Proofs.InheritedLookup
import Sfz.Proofs.InvertedRanges
import Sfz.Proofs.JoinedTexts
import Sfz.Proofs.JsonLines
import Sfz.Proofs.KeptListings
import Sfz.Proofs.LineEnds
import Sfz.Proofs.LineLayout
import Sfz.Proofs.LineReading
import Sfz.Proofs.MacroExpansion
import Sfz.Proofs.NameShapes
import Sfz.Proofs.NodeSpans
import Sfz.Proofs.NodeWriting
import Sfz.Proofs.NoteNames
import Sfz.Proofs.NumberTexts
import Sfz.Proofs.Outcome
import Sfz.Proofs.ParsedNodes
import Sfz.Proofs.RefusedDirectives
import Sfz.Proofs.RegistryLookup
import Sfz.Proofs.ReorderedTrees
import Sfz.Proofs.ReportOrder
import Sfz.Proofs.Respelling
import Sfz.Proofs.SampleWalk
import Sfz.Proofs.ScopeLinks
import Sfz.Proofs.Separators
import Sfz.Proofs.Splicing
import Sfz.Proofs.TableForm
import Sfz.Proofs.TableRules
import Sfz.Proofs.TemplateForm
import Sfz.Proofs.TemplateLanguage
import Sfz.Proofs.TemplateNormalForm
import Sfz.Proofs.TemplateText
import Sfz.Proofs.TextComposition
import Sfz.Proofs.UnknownOpcodes
import Sfz.Proofs.ValueChecks
import Sfz.Proofs.VisitedNodes
import Sfz.Report
import Sfz.Settings
import Sfz.Text.Blank
import Sfz.Text.CaseTable
import Sfz.Text.Lines
import Sfz.Text.Lowercase
import Sfz.Text.Word
import Sfz.Version
import Sfz.Yaml
import Sfz.Yaml.Block
import Sfz.Yaml.Mark
import Sfz.Yaml.Reader
import Sfz.Yaml.Scalar
import Sfz.Yaml.Tag
import Sfz.Yaml.Token
