import PlainSteps.Action
import PlainSteps.Action.Record
import PlainSteps.Address
import PlainSteps.Base64
import PlainSteps.Bridge.Client
import PlainSteps.Bridge.Connection
import PlainSteps.Bridge.Message
import PlainSteps.Bridge.Planned
import PlainSteps.Bridge.Traffic
import PlainSteps.Browser
import PlainSteps.Browser.Scripted
import PlainSteps.CaseFile
import PlainSteps.CaseRun
import PlainSteps.Command
import PlainSteps.Command.Classify
import PlainSteps.Command.Host
import PlainSteps.Command.Invocation
import PlainSteps.Command.RunCases
import PlainSteps.Command.Settings
import PlainSteps.Command.Usage
import PlainSteps.Digest
import PlainSteps.Evidence
import PlainSteps.Json
import PlainSteps.Json.Reader
import PlainSteps.Json.Record
import PlainSteps.Json.Writer
import PlainSteps.Locator
import PlainSteps.Login
import PlainSteps.Main
import PlainSteps.NetworkLog
import PlainSteps.Number.Binary64
import PlainSteps.Number.Layout
import PlainSteps.Number.Read
import PlainSteps.Number.Shortest
import PlainSteps.Path
import PlainSteps.Pattern
import PlainSteps.Proofs.AsciiCharacters
import PlainSteps.Proofs.Attempts
import PlainSteps.Proofs.BridgeMessages
import PlainSteps.Proofs.CandidatesTried
import PlainSteps.Proofs.CapitalLetters
import PlainSteps.Proofs.CaseIsolation
import PlainSteps.Proofs.CaseLoading
import PlainSteps.Proofs.CaseRecords
import PlainSteps.Proofs.CaseSteps
import PlainSteps.Proofs.CaseVariables
import PlainSteps.Proofs.CaseVerdict
import PlainSteps.Proofs.ChosenSettings
import PlainSteps.Proofs.Classification
import PlainSteps.Proofs.ClientTraffic
import PlainSteps.Proofs.ConditionChains
import PlainSteps.Proofs.ConditionEnds
import PlainSteps.Proofs.ConditionalDepth
import PlainSteps.Proofs.Deadline
import PlainSteps.Proofs.DecimalDigits
import PlainSteps.Proofs.DoubleDecimals
import PlainSteps.Proofs.ElementErrors
import PlainSteps.Proofs.EnclosingMarks
import PlainSteps.Proofs.EvidenceKept
import PlainSteps.Proofs.EvidencePaths
import PlainSteps.Proofs.EvidenceRoot
import PlainSteps.Proofs.Execution
import PlainSteps.Proofs.ExitCode
import PlainSteps.Proofs.ExplicitTargets
import PlainSteps.Proofs.FolderLoading
import PlainSteps.Proofs.FormWays
import PlainSteps.Proofs.JsonRecords
import PlainSteps.Proofs.JsonText
import PlainSteps.Proofs.LetterCase
import PlainSteps.Proofs.ListNumbering
import PlainSteps.Proofs.LocatorsInTurn
import PlainSteps.Proofs.LoginStages
import PlainSteps.Proofs.LowerCaseText
import PlainSteps.Proofs.NearestDouble
import PlainSteps.Proofs.NetworkAttribution
import PlainSteps.Proofs.ObligingBrowser
import PlainSteps.Proofs.PairedRuns
import PlainSteps.Proofs.PasswordSecrecy
import PlainSteps.Proofs.PathNames
import PlainSteps.Proofs.PatternWays
import PlainSteps.Proofs.PhraseChecks
import PlainSteps.Proofs.PhraseWaits
import PlainSteps.Proofs.PlaceholderScan
import PlainSteps.Proofs.PresencePhrases
import PlainSteps.Proofs.ProgressStream
import PlainSteps.Proofs.Quotation
import PlainSteps.Proofs.QuotedCheck
import PlainSteps.Proofs.QuotedCondition
import PlainSteps.Proofs.QuotedFill
import PlainSteps.Proofs.QuotedLocators
import PlainSteps.Proofs.QuotedOperand
import PlainSteps.Proofs.QuotedSegments
import PlainSteps.Proofs.ReplyMatching
import PlainSteps.Proofs.RequestTrace
import PlainSteps.Proofs.Requests
import PlainSteps.Proofs.ResponseRouting
import PlainSteps.Proofs.RunAccounts
import PlainSteps.Proofs.RunPhases
import PlainSteps.Proofs.SavedFiles
import PlainSteps.Proofs.SavedSettings
import PlainSteps.Proofs.ScreenshotsHarmless
import PlainSteps.Proofs.ScriptedBrowser
import PlainSteps.Proofs.SentenceCapitals
import PlainSteps.Proofs.ShortestDigits
import PlainSteps.Proofs.SiteAddresses
import PlainSteps.Proofs.StepContext
import PlainSteps.Proofs.StepScreenshots
import PlainSteps.Proofs.StopWordEdges
import PlainSteps.Proofs.StoreSentence
import PlainSteps.Proofs.StoredAgain
import PlainSteps.Proofs.StoredReports
import PlainSteps.Proofs.StoredText
import PlainSteps.Proofs.SubstitutedStore
import PlainSteps.Proofs.Substitution
import PlainSteps.Proofs.TimestampText
import PlainSteps.Proofs.TomlDocuments
import PlainSteps.Proofs.TomlNumbers
import PlainSteps.Proofs.TomlStrings
import PlainSteps.Proofs.TomlValues
import PlainSteps.Proofs.TrafficSteps
import PlainSteps.Proofs.Trimming
import PlainSteps.Proofs.TypedValues
import PlainSteps.Proofs.ValueEnds
import PlainSteps.Proofs.VariableFlow
import PlainSteps.Proofs.WellFormedActions
import PlainSteps.Proofs.WordCharacters
import PlainSteps.Proofs.WordCounts
import PlainSteps.Quote
import PlainSteps.Report
import PlainSteps.Result
import PlainSteps.Result.Record
import PlainSteps.Routine
import PlainSteps.Run
import PlainSteps.Sentence.Classify
import PlainSteps.Sentence.Grammar
import PlainSteps.Sentence.Operand
import PlainSteps.Session
import PlainSteps.Settings
import PlainSteps.Settings.File
import PlainSteps.Settings.Record
import PlainSteps.Step
import PlainSteps.Table
import PlainSteps.Target
import PlainSteps.TestCase
import PlainSteps.Text.Ascii
import PlainSteps.Text.Blank
import PlainSteps.Text.CodeSet
import PlainSteps.Text.Columns
import PlainSteps.Text.Escape
import PlainSteps.Text.Hidden
import PlainSteps.Text.Lowercase
import PlainSteps.Text.WordChar
import PlainSteps.Timestamp
import PlainSteps.Toml
import PlainSteps.Toml.Reader
import PlainSteps.Toml.Writer
import PlainSteps.Variables
import PlainSteps.Yaml
import PlainSteps.Yaml.Cursor
import PlainSteps.Yaml.Node
import PlainSteps.Yaml.Outline
import PlainSteps.Yaml.Reader
import PlainSteps.Yaml.Scalar
import PlainSteps.Yaml.Token
import PlainSteps.Yaml.Writer
