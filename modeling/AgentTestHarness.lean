import AgentTestHarness.Runs
import AgentTestHarness.AsyncQueue
import AgentTestHarness.MessageQueue
import AgentTestHarness.OrderedDict
import AgentTestHarness.PyText
import AgentTestHarness.PyJson
import AgentTestHarness.Storage
import AgentTestHarness.StorageLatest
import AgentTestHarness.JsonWriting
import AgentTestHarness.SameAsYesterday
import AgentTestHarness.Scenarios
import AgentTestHarness.ScenarioReselection
import AgentTestHarness.FeatureFiles
import AgentTestHarness.RetriedResults
import AgentTestHarness.WaitForState
import AgentTestHarness.PresentationSelection
import AgentTestHarness.CommandLine
import AgentTestHarness.AgentArgs
import AgentTestHarness.StartArgs
import AgentTestHarness.PercentEncoding
import AgentTestHarness.CommandRequests
import AgentTestHarness.JsonText
import AgentTestHarness.JsonReading
import AgentTestHarness.StateTranslation
import AgentTestHarness.JsonMember
import AgentTestHarness.JsonReplacing
import AgentTestHarness.JsonReplacedValue
import AgentTestHarness.MemberReplacement
import AgentTestHarness.StateReplacement
import AgentTestHarness.Webhooks
import AgentTestHarness.ResponsePolls
import AgentTestHarness.PollAccounting
import AgentTestHarness.ExchangeSwaps
import AgentTestHarness.ExchangeIds
import AgentTestHarness.JsonRoundTrip
import AgentTestHarness.AdminPosts
import AgentTestHarness.FailedPosts
import AgentTestHarness.SwapPolls
import AgentTestHarness.CustomParameters
import AgentTestHarness.PollErrors
import AgentTestHarness.PresentationExchanges
import AgentTestHarness.CredentialExchanges
import AgentTestHarness.ForeignCredentialMessages
import AgentTestHarness.CredentialNegotiation
import AgentTestHarness.ConnectionStates
import AgentTestHarness.ProofRequests
import AgentTestHarness.WrittenStates
import AgentTestHarness.WrittenWords
import AgentTestHarness.CutEscapes
import AgentTestHarness.RoleDetection
import AgentTestHarness.ConnectionLists
import AgentTestHarness.AfgoThreads
import AgentTestHarness.ThreadIsolation
import AgentTestHarness.ConnectionRouting
import AgentTestHarness.ResolvableDid
import AgentTestHarness.RepeatedPops
import AgentTestHarness.RepeatedGets
import AgentTestHarness.AnoncredsDetails
import AgentTestHarness.FieldMoves
import AgentTestHarness.LedgerIds
import AgentTestHarness.CredentialDefinitions
import AgentTestHarness.QueryStrings
import AgentTestHarness.RevocationCommands
import AgentTestHarness.RevocationQueries
import AgentTestHarness.CredentialIds
import AgentTestHarness.LegacyIds
import AgentTestHarness.RelativeTimes
import AgentTestHarness.PresentationFilling
import AgentTestHarness.JsonPaths
import AgentTestHarness.FilterAmending
import AgentTestHarness.KeyPadding
import AgentTestHarness.ProcessArgs
import AgentTestHarness.UnboundedPolls
import AgentTestHarness.ManageOptions
import AgentTestHarness.ExpectedStates
import AgentTestHarness.VersionNumbers
import AgentTestHarness.SortedPayloads
import AgentTestHarness.ServiceCalls
import AgentTestHarness.PresentationMapping
import AgentTestHarness.AdminRequests
import AgentTestHarness.AdminQueries
import AgentTestHarness.AdminWrites
import AgentTestHarness.AdminGuards
import AgentTestHarness.AdminAnswers
import AgentTestHarness.PresentationRequests
import AgentTestHarness.ServiceHistories
import AgentTestHarness.ConnectionSteps
import AgentTestHarness.ConnectionHistories
import AgentTestHarness.OwnConnectionIds
import AgentTestHarness.AgentProcesses
import AgentTestHarness.AdminCreations
import AgentTestHarness.IssuanceSteps
import AgentTestHarness.ProofSteps
import AgentTestHarness.ExchangeHistories
import AgentTestHarness.ToldIssuances
import AgentTestHarness.ToldProofs
