import AiSOC.TransitionSystem
import AiSOC.InboxTokenStore
import AiSOC.ExpiringStore
import AiSOC.FusionEngine
import AiSOC.DeduplicationWindow
import AiSOC.PropertyGraph
import AiSOC.HashChain
import AiSOC.AuditHash
import AiSOC.AuditEmission
import AiSOC.ResponseActions
import AiSOC.GraphExtractor
import AiSOC.GraphWriter
import AiSOC.ActionApproval
import AiSOC.PlaybookApproval
import AiSOC.GlobPattern
import AiSOC.AwsDenials
import AiSOC.LakeSqlTree
import AiSOC.LakeSqlRewriter
import AiSOC.LakeSqlSemantics
import AiSOC.LakeSqlIsolation
import AiSOC.LakeSqlAllowlist
import AiSOC.ActionHandover
import AiSOC.ChatOpsCallback
import AiSOC.GraphBroadcaster
import AiSOC.GraphWriterQueue
import AiSOC.KeyedGraph
import AiSOC.KeyedUpsert
import AiSOC.PlaybookTermination
import AiSOC.GraphProjection
import AiSOC.GraphBatching
import AiSOC.GraphReferences
import AiSOC.ConnectorPolling
import AiSOC.CodeText
import AiSOC.JsonText
import AiSOC.RegexSearch
import AiSOC.JsonParser
import AiSOC.LlmContract
import AiSOC.JsonWriter
import AiSOC.PromptSanitizer
import AiSOC.FloatOrder
import AiSOC.OrderedDict
import AiSOC.Guardrails
import AiSOC.EventPayload
import AiSOC.EventSanitiser
import AiSOC.EventSizeBound
import AiSOC.Pagination
import AiSOC.AlertQueue
import AiSOC.AlertClaim
import AiSOC.BreadthFirst
import AiSOC.AttackChainRanker
import AiSOC.AttackChainOrder
import AiSOC.AttackChainExact
import AiSOC.StableSort
import AiSOC.AttackChainRows
import AiSOC.PythonValue
import AiSOC.BusinessContext
import AiSOC.BusinessContextPreview
import AiSOC.RuleResolver
import AiSOC.RuleResolverSlots
import AiSOC.RuleResolverOrder
import AiSOC.TokenBucket
import AiSOC.LakeRateLimit
import AiSOC.SigmaRules
import AiSOC.SigmaImport
import AiSOC.IpAddress
import AiSOC.TrustedProxy
import AiSOC.ByteText
import AiSOC.CefParser
import AiSOC.CefExtension
import AiSOC.CefHeader
import AiSOC.CefRoundTrip
import AiSOC.CefBatch
import AiSOC.SqlTokens
import AiSOC.OsqueryAllowlist
import AiSOC.Base64
import AiSOC.TextEncoding
import AiSOC.JsonRoundTrip
import AiSOC.EmailApproval
import AiSOC.NestedMaps
import AiSOC.InboxTemplate
import AiSOC.InboxTemplateOrder
import AiSOC.ConfigCache
import AiSOC.ConfigSnapshot
import AiSOC.ReadCommitted
import AiSOC.CaseLifecycle
import AiSOC.OAuthCallback
import AiSOC.Passkeys
import AiSOC.Rbac
import AiSOC.TenantScope
import AiSOC.InboxItsm
import AiSOC.SigmaReimport
import AiSOC.PlaybookModel
import AiSOC.RecordRebuild
import AiSOC.PlaybookStore
import AiSOC.PluginManager
import AiSOC.RestrictedQuery
import AiSOC.CaseReads
import AiSOC.CaseIsolation
import AiSOC.UuidText
import AiSOC.IncidentCorrelator
import AiSOC.SharedObjects
import AiSOC.Welford
import AiSOC.EntityBaseline
import AiSOC.SecondaryIndex
import AiSOC.PushManager
import AiSOC.ApprovalTimeout
import AiSOC.EvalGate
import AiSOC.DetectionProposals
import AiSOC.ProposalPromotion
import AiSOC.BloomFilter
import AiSOC.CallHistory
import AiSOC.ThreatIntelIngest
import AiSOC.EasmDrift
import AiSOC.OAuthRefresh
import AiSOC.LiteralScan
import AiSOC.FederatedQuery
import AiSOC.FederatedTranslators
import AiSOC.FirstMaximum
import AiSOC.EnrichmentMerge
import AiSOC.EnrichmentTiming
import AiSOC.ApprovalDecision
import AiSOC.OsqueryDistributed
import AiSOC.UniqueIndex
import AiSOC.AlertSubmission
import AiSOC.WaitlistProvision
import AiSOC.JsonLeaves
import AiSOC.CredentialVault
import AiSOC.AwsNarrowing
import AiSOC.AwsUnmodelled
import AiSOC.SigmaCondition
import AiSOC.UrlText
import AiSOC.OAuthRedirects
import AiSOC.PlaybookFailure
import AiSOC.LakeRetryAfter
import AiSOC.AttackChainGraph
import AiSOC.AuditRedaction
import AiSOC.SensitiveKeys
import AiSOC.AuditStability
import AiSOC.RankedSet
import AiSOC.ExpiringKeys
import AiSOC.TopSelection
import AiSOC.FloatRound
import AiSOC.EntityRisk
import AiSOC.EntityPromotion
import AiSOC.EntityQueue
import AiSOC.AddressRanges
import AiSOC.SsrfGuard
import AiSOC.FloatError
import AiSOC.FloatDecimal
import AiSOC.FusedConfidence
import AiSOC.ConfidenceConsistency
import AiSOC.TextSearch
import AiSOC.PlaybookExpression
import AiSOC.LiteralReading
import AiSOC.ExpressionAgreement
import AiSOC.RuleAllowlist
import AiSOC.BusinessContextLaw
import AiSOC.ChatOpsToken
import AiSOC.TokenFailure
import AiSOC.SigmaIsolation
import AiSOC.IntegerText
import AiSOC.EsqlGrammar
import AiSOC.RegexReplace
import AiSOC.SanitizerFixedPoint
import AiSOC.PromptSerialization
import AiSOC.CefAuthority
import AiSOC.InboxSeverity
import AiSOC.EventNormalizer
import AiSOC.EventIdentity
import AiSOC.FeatureStatistics
import AiSOC.KeyedUnion
import AiSOC.SubAgentJoin
import AiSOC.WordSplit
import AiSOC.OsqueryValidation
import AiSOC.FilterRules
import AiSOC.KeyedMerge
import AiSOC.ObservableGraph
import AiSOC.NestedFrames
import AiSOC.MappedFields
import AiSOC.BroadcastHistory
import AiSOC.BusinessContextYaml
import AiSOC.BusinessContextReparse
import AiSOC.FallibleRuns
import AiSOC.UebaConsumer
import AiSOC.UebaGuard
