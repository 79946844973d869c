import Lisplet.Text.Character
import Lisplet.Text.Printable
import Lisplet.Number
import Lisplet.Token
import Lisplet.Datum
import Lisplet.Failure
import Lisplet.Datum.Write
import Lisplet.Report
import Lisplet.Literal
import Lisplet.Stream
import Lisplet.Reading
import Lisplet.Equality
import Lisplet.Primitive
import Lisplet.Evaluation
import Lisplet.Session
import Lisplet.CommandLine
import Lisplet.Main
import Lisplet.Proofs.TokenLanguage
import Lisplet.Proofs.Lexeme
import Lisplet.Proofs.LongestMatch
import Lisplet.Proofs.MaximalMunch
import Lisplet.Proofs.DecimalNumeral
import Lisplet.Proofs.LiteralMeaning
import Lisplet.Proofs.ReadingMachine
import Lisplet.Proofs.Simulation
import Lisplet.Proofs.ReadingRun
import Lisplet.Proofs.Outcome
import Lisplet.Proofs.ReadingRoom
import Lisplet.Proofs.Grammar
import Lisplet.Proofs.GrammarCompleteness
import Lisplet.Proofs.GrammarSoundness
import Lisplet.Proofs.SourceReading
import Lisplet.Proofs.WrittenTokens
import Lisplet.Proofs.Relexing
import Lisplet.Proofs.TextGrammar
import Lisplet.Proofs.ViablePrefix
import Lisplet.Proofs.WholeText
import Lisplet.Proofs.StreamPlace
import Lisplet.Proofs.LookAhead
import Lisplet.Proofs.Respacing
import Lisplet.Proofs.RoundTrip
import Lisplet.Proofs.WritingLimit
import Lisplet.Proofs.NumberLiteral
import Lisplet.Proofs.StringLiteral
import Lisplet.Proofs.Normalisation
import Lisplet.Proofs.StrictEquality
import Lisplet.Proofs.LeadingNumeral
import Lisplet.Proofs.WeakEquality
import Lisplet.Proofs.IntegerText
import Lisplet.Proofs.Comparison
import Lisplet.Proofs.Form
import Lisplet.Proofs.MoreRoom
import Lisplet.Proofs.EvaluationValue
import Lisplet.Proofs.EvaluationRoom
import Lisplet.Proofs.EvaluationRules
import Lisplet.Proofs.FailureKinds
import Lisplet.Proofs.Clauses
import Lisplet.Proofs.EvaluationContext
import Lisplet.Proofs.IntegerFold
import Lisplet.Proofs.IntegerDivision
import Lisplet.Proofs.ValueParts
import Lisplet.Proofs.Pairs
import Lisplet.Proofs.Demand
import Lisplet.Proofs.NumericAgreement
import Lisplet.Proofs.PrimitiveFaults
import Lisplet.Proofs.Transcript
import Lisplet.Proofs.SessionAnswer
