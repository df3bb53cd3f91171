import DigitiserSums.Aggregator
import DigitiserSums.Binary.Double
import DigitiserSums.Binary.Format
import DigitiserSums.Binary.Rounding
import DigitiserSums.Binary.Single
import DigitiserSums.Choice
import DigitiserSums.CommandLine
import DigitiserSums.Decimal.Digit
import DigitiserSums.Decimal.ExtendedReal
import DigitiserSums.Decimal.Natural
import DigitiserSums.Decimal.Scientific
import DigitiserSums.Decimal.Shortest
import DigitiserSums.Decimator
import DigitiserSums.Description
import DigitiserSums.EdgeCounter
import DigitiserSums.Files
import DigitiserSums.Json.Lexer
import DigitiserSums.Json.Number
import DigitiserSums.Json.Reader
import DigitiserSums.Json.Text
import DigitiserSums.Json.Token
import DigitiserSums.Main
import DigitiserSums.MovingSum
import DigitiserSums.OutputBuffer
import DigitiserSums.Pipeline
import DigitiserSums.Program
import DigitiserSums.Rectifier
import DigitiserSums.Refusal
import DigitiserSums.RingBuffer
import DigitiserSums.Sample
import DigitiserSums.SampleLine
import DigitiserSums.Scan
import DigitiserSums.Session
import DigitiserSums.SessionFlags
import DigitiserSums.SocketAddress
import DigitiserSums.Text.Blank
import DigitiserSums.Text.Encoding
import DigitiserSums.Text.Hidden
import DigitiserSums.Text.Line
import DigitiserSums.Text.Quoted
import DigitiserSums.Proofs.Ring
import DigitiserSums.Proofs.Aggregators
import DigitiserSums.Proofs.Crossings
import DigitiserSums.Proofs.History
import DigitiserSums.Proofs.Checked
import DigitiserSums.Proofs.Lines
import DigitiserSums.Proofs.Numerals
import DigitiserSums.Proofs.Output
import DigitiserSums.Proofs.Json.Numerals
import DigitiserSums.Proofs.Json.Strings
import DigitiserSums.Proofs.Json.Value
import DigitiserSums.Proofs.Json.Layout
import DigitiserSums.Proofs.Json.Skip
import DigitiserSums.Proofs.Json.Readers
import DigitiserSums.Proofs.Fields
import DigitiserSums.Proofs.Description
import DigitiserSums.Proofs.Buffering
import DigitiserSums.TriggerSource
import DigitiserSums.Proofs.Streams
import DigitiserSums.Proofs.Json.Continuation
import DigitiserSums.Proofs.Json.Cuts
import DigitiserSums.Proofs.Json.Steady
import DigitiserSums.Proofs.Refusals
import DigitiserSums.Proofs.Truncations
import DigitiserSums.Proofs.BlockEnds
import DigitiserSums.Proofs.Accounts
import DigitiserSums.Proofs.Spellings
import DigitiserSums.Proofs.Json.Contexts
import DigitiserSums.Proofs.Json.Reaching
import DigitiserSums.Proofs.Judging
import DigitiserSums.Proofs.MemberSets
import DigitiserSums.Proofs.SideBySide
import DigitiserSums.Proofs.Folding
import DigitiserSums.Proofs.WholeNumbers
import DigitiserSums.Proofs.Mirrored
import DigitiserSums.Proofs.SessionFiles
import DigitiserSums.Proofs.SocketAddresses
import DigitiserSums.Proofs.Resizing
import DigitiserSums.Proofs.HiddenState
import DigitiserSums.Proofs.Signals
import DigitiserSums.Proofs.Spacing
import DigitiserSums.Proofs.BlockRuns
import DigitiserSums.Proofs.StartingOver
import DigitiserSums.Proofs.Laziness
import DigitiserSums.Proofs.TriggerPlaces
import DigitiserSums.Proofs.Alternation
import DigitiserSums.Proofs.RoundedSums
import DigitiserSums.Proofs.ExactValues
import DigitiserSums.Proofs.ExactCounter
import DigitiserSums.Proofs.Replies
import DigitiserSums.Proofs.ExactTriggers
import DigitiserSums.Proofs.FirstFault
import DigitiserSums.Proofs.Unquoting
import DigitiserSums.Proofs.OutputLines
import DigitiserSums.Proofs.SumRanges
import DigitiserSums.Proofs.NestedBlocks
import DigitiserSums.Proofs.CounterStates
