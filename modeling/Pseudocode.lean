import Pseudocode.Text.Case
import Pseudocode.Json
import Pseudocode.Source.Validation
import Pseudocode.Translation
import Pseudocode.Script.Expression
import Pseudocode.Script.Statement
import Pseudocode.Script.Phrase
import Pseudocode.Script.Program
import Pseudocode.Limits
import Pseudocode.Script.Evaluation
import Pseudocode.Report.Compose
import Pseudocode.Wire.Event
import Pseudocode.Wire.Message
import Pseudocode.Run.Dialogue
import Pseudocode.Session
import Pseudocode.Server
import Pseudocode.Main
import Pseudocode.Proofs.BlockGrammar
import Pseudocode.Proofs.ValidationGrammar
import Pseudocode.Proofs.Text
import Pseudocode.Proofs.Operands
import Pseudocode.Proofs.LineAlignment
import Pseudocode.Proofs.EvaluationRelation
import Pseudocode.Proofs.EvaluationFuel
import Pseudocode.Proofs.Interruption
import Pseudocode.Proofs.Rounding
import Pseudocode.Proofs.ShortestDigits
import Pseudocode.Proofs.Reading
import Pseudocode.Proofs.Meaning
import Pseudocode.Proofs.PhraseReading
import Pseudocode.Proofs.Levels
import Pseudocode.Proofs.Outline
import Pseudocode.Proofs.LineShapes
import Pseudocode.Proofs.OperandTokens
import Pseudocode.Proofs.OutlineLines
import Pseudocode.Proofs.OutlineScript
import Pseudocode.Proofs.SentenceReading
import Pseudocode.Proofs.OutlinePhrases
import Pseudocode.Proofs.OutlineReading
import Pseudocode.Proofs.OutlineTranslation
import Pseudocode.Proofs.Truncation
import Pseudocode.Proofs.EventStream
import Pseudocode.Proofs.Declarations
import Pseudocode.Proofs.Frames
import Pseudocode.Proofs.Discipline
import Pseudocode.Proofs.DisciplinedEvaluation
import Pseudocode.Proofs.Constants
import Pseudocode.Proofs.Enclosure
import Pseudocode.Proofs.Survey
import Pseudocode.Proofs.Wrapper
import Pseudocode.Proofs.Containment
import Pseudocode.Proofs.Correspondence
import Pseudocode.Proofs.Written
import Pseudocode.Proofs.Checking
import Pseudocode.Proofs.Nesting
import Pseudocode.Proofs.Positions
import Pseudocode.Proofs.Legality
import Pseudocode.Proofs.EvaluationProperty
import Pseudocode.Proofs.LegalEvaluation
import Pseudocode.Proofs.Traces
import Pseudocode.Proofs.TracedFailures
import Pseudocode.Proofs.Placement
import Pseudocode.Proofs.LocatedFailures
import Pseudocode.Proofs.Literal
import Pseudocode.Proofs.Tree
import Pseudocode.Proofs.TreeReading
import Pseudocode.Proofs.TreeParsing
import Pseudocode.Proofs.Indentation
import Pseudocode.Proofs.SelfConversion
import Pseudocode.Proofs.Printing
import Pseudocode.Proofs.Relocation
import Pseudocode.Proofs.Margins
import Pseudocode.Proofs.Twins
import Pseudocode.Proofs.IndentedScripts
import Pseudocode.Proofs.Document
import Pseudocode.Proofs.WireFormat
import Pseudocode.Proofs.Serving
import Pseudocode.Proofs.CompoundAssignment
import Pseudocode.Proofs.Lateness
import Pseudocode.Proofs.Cancellation
import Pseudocode.Proofs.Verbatim
import Pseudocode.Proofs.InputCalls
import Pseudocode.Proofs.DoubleFields
import Pseudocode.Proofs.LoopRounds
import Pseudocode.Proofs.LoopHeaders
import Pseudocode.Proofs.SteppedLoops
import Pseudocode.Proofs.LiteralSteps
import Pseudocode.Proofs.DeclaredNames
import Pseudocode.Proofs.Respelling
import Pseudocode.Proofs.Scanning
import Pseudocode.Proofs.Tallies
import Pseudocode.Proofs.ArrayElements
import Pseudocode.Proofs.Brackets
import Pseudocode.Proofs.ListItems
import Pseudocode.Proofs.BalancedScripts
import Pseudocode.Proofs.EqualitySigns
import Pseudocode.Proofs.CallFrames
import Pseudocode.Proofs.Scoping
import Pseudocode.Proofs.ArraySizes
import Pseudocode.Proofs.LiteralContents
import Pseudocode.Proofs.Environments
import Pseudocode.Proofs.ArrayTexts
import Pseudocode.Proofs.LooseEquality
import Pseudocode.Proofs.NumberTexts
import Pseudocode.Proofs.LeadingDecimals
import Pseudocode.Proofs.WordColumns
import Pseudocode.Proofs.WordCounts
import Pseudocode.Proofs.LineParts
import Pseudocode.Proofs.LineLayouts
import Pseudocode.Proofs.OperandColumns
import Pseudocode.Proofs.ReadTexts
import Pseudocode.Proofs.StatementColumns
import Pseudocode.Proofs.AdjacentSigns
import Pseudocode.Proofs.SessionHistory
import Pseudocode.Proofs.Offsets
