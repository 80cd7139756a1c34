import CairnObs.GuardedRuns
import CairnObs.GoTime
import CairnObs.GoTimeFormat
import CairnObs.AlertTransition
import CairnObs.AlertDebounce
import CairnObs.AlertNotify
import CairnObs.AlertStore
import CairnObs.AlertConcurrency
import CairnObs.DeliveryWorker
import CairnObs.DeliveryExclusive
import CairnObs.DeliveryOrder
import CairnObs.GoHttp
import CairnObs.WebhookTarget
import CairnObs.IngestConsumer
import CairnObs.IngestDelivery
import CairnObs.SearchIndexer
import CairnObs.SearchDurability
import CairnObs.SearchRegistry
import CairnObs.EscapedQuote
import CairnObs.QueryLexer
import CairnObs.QueryAst
import CairnObs.QueryParser
import CairnObs.QueryStages
import CairnObs.QueryRender
import CairnObs.QueryRoundTrip
import CairnObs.QueryReading
import CairnObs.Utf8
import CairnObs.LexerPositions
import CairnObs.QueryLocal
import CairnObs.QuerySegments
import CairnObs.QueryPlanner
import CairnObs.QueryClauses
import CairnObs.QuerySql
import CairnObs.QueryInjection
import CairnObs.QueryPipeline
import CairnObs.QueryOr
import CairnObs.QueryNarrowing
import CairnObs.QueryTimes
import CairnObs.CostGuard
import CairnObs.QueryCapture
import CairnObs.TextSearch
import CairnObs.SqlSpacing
import CairnObs.GoStrings
import CairnObs.RustStr
import CairnObs.JsStd
import CairnObs.SqlGuard
import CairnObs.WebTimes
import CairnObs.WebWallClock
import CairnObs.TantivyQuery
import CairnObs.QueryText
import CairnObs.QueryPrefix
import CairnObs.QueryAppend
import CairnObs.WebTimeRange
import CairnObs.WebQueryTimes
import CairnObs.WebDrillDown
import CairnObs.QueryPhrases
import CairnObs.QueryTextMeaning
import CairnObs.QueryTail
import CairnObs.QueryExecute
import CairnObs.SeparatedFields
import CairnObs.QueryStatsNames
import CairnObs.HashChain
import CairnObs.GoText
import CairnObs.PgColumns
import CairnObs.AlertRules
import CairnObs.Jsonb
import CairnObs.Authz
import CairnObs.AuditLog
import CairnObs.AuditVerify
import CairnObs.AuditRoundTrip
import CairnObs.AuditTamper
import CairnObs.AuditConcurrency
import CairnObs.LocalAuth
import CairnObs.LocalAuthOwner
import CairnObs.LocalAuthSessions
import CairnObs.LocalAuthAdmin
import CairnObs.RbacStore
import CairnObs.SsoUsers
import CairnObs.TenantOwnership
import CairnObs.TenantWriter
import CairnObs.AgentConfig
import CairnObs.LogRetention
import CairnObs.RetentionRequests
import CairnObs.RetentionFloor
import CairnObs.AgentFilePaths
import CairnObs.CliAgents
import CairnObs.RetentionDelete
import CairnObs.AgentOverride
import CairnObs.RustVec
import CairnObs.AgentBatcher
import CairnObs.AgentBatches
import CairnObs.Channels
import CairnObs.AgentLoop
import CairnObs.TextLines
import CairnObs.FileTail
import CairnObs.Scanner
import CairnObs.Syslog
import CairnObs.SyslogData
import CairnObs.AgentDuration
import CairnObs.AgentCommands
import CairnObs.TenantServing
import CairnObs.Attempts
import CairnObs.ClickHouse
import CairnObs.TenantProvision
import CairnObs.TenantActivation
import CairnObs.ProjectedRuns
import CairnObs.Dashboards
import CairnObs.DashboardRequests
import CairnObs.KeyedRows
import CairnObs.DashboardRows
import CairnObs.DashboardWrites
import CairnObs.DashboardHistory
import CairnObs.DashboardIsolation
import CairnObs.DashboardAccess
import CairnObs.Arrangements
import CairnObs.DashboardExport
import CairnObs.LoginTokens
import CairnObs.SlidingWindow
import CairnObs.LoginLimiter
