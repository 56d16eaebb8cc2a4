import BtApiBase.PyText
import BtApiBase.PyDict
import BtApiBase.PyIndexes
import BtApiBase.PyReplace
import BtApiBase.PyValue
import BtApiBase.PyJson
import BtApiBase.Runs
import BtApiBase.Effects
import BtApiBase.Ownership
import BtApiBase.OrderMap
import BtApiBase.OrderMapRuns
import BtApiBase.OrderMapIds
import BtApiBase.OrderMapStale
import BtApiBase.OrderRef
import BtApiBase.OrderRefCrash
import BtApiBase.OrderMatching
import BtApiBase.Protocol
import BtApiBase.Health
import BtApiBase.Subscriptions
import BtApiBase.RuntimeRemote
import BtApiBase.RuntimeFrame
import BtApiBase.RuntimeCommands
import BtApiBase.RuntimeSurvival
import BtApiBase.ForwardingRuntime
import BtApiBase.ForwardingAcks
import BtApiBase.RuntimeOrders
import BtApiBase.RuntimeReferences
import BtApiBase.RuntimeSubscriptions
import BtApiBase.RuntimeLifecycle
import BtApiBase.ConnectionPools
import BtApiBase.PoolCalls
import BtApiBase.PoolCapacity
import BtApiBase.PoolConservation
import BtApiBase.PoolWaiters
import BtApiBase.AsyncPools
import BtApiBase.AsyncPermits
import BtApiBase.PoolOwnership
import BtApiBase.WebSocketMessages
import BtApiBase.WebSocketDispatch
import BtApiBase.WebSocketFrames
import BtApiBase.WebSocketTasks
import BtApiBase.WebSocketReconnects
import BtApiBase.Registry
import BtApiBase.WebSocketManagers
import BtApiBase.WebSocketIds
import BtApiBase.WebSocketStops
import BtApiBase.WebSocketClosing
import BtApiBase.ChargeLogs
import BtApiBase.RateLimits
import BtApiBase.RateLimitLedgers
import BtApiBase.RateLimitDenials
import BtApiBase.RateLimitWindows
import BtApiBase.RateLimitCoverage
import BtApiBase.TickWriters
import BtApiBase.TickFlushes
import BtApiBase.PluginRegistries
import BtApiBase.PluginLoading
import BtApiBase.PluginCommits
import BtApiBase.PluginTakeovers
import BtApiBase.PluginCompleteness
import BtApiBase.PluginFailures
import BtApiBase.Instruments
import BtApiBase.InstrumentIndexes
import BtApiBase.InstrumentVenues
import BtApiBase.Redaction
import BtApiBase.SubscriptionCounts
import BtApiBase.CircuitBreakers
import BtApiBase.PyBase64
import BtApiBase.Credentials
import BtApiBase.ExpiringMaps
import BtApiBase.Caches
import BtApiBase.EventServices
import BtApiBase.WebSocketApps
import BtApiBase.WebSocketBatches
import BtApiBase.WebSocketWatchdogs
import BtApiBase.WebSocketVerdicts
import BtApiBase.WebSocketGivenUp
import BtApiBase.PyScan
import BtApiBase.RedactionPatterns
import BtApiBase.BearerTokens
import BtApiBase.CacheServices
import BtApiBase.SlidingWindows
import BtApiBase.RateLimitServices
import BtApiBase.TickRecords
import BtApiBase.PyJsonReading
import BtApiBase.GatewayTicks
import BtApiBase.HttpRetries
import BtApiBase.RegistryObjects
import BtApiBase.OrderRefRecovery
import BtApiBase.EventEnrichment
import BtApiBase.RepeatedEvents
import BtApiBase.EnrichmentRuns
import BtApiBase.StrategyRegistrations
import BtApiBase.RateLimitUsage
import BtApiBase.RateLimitAttempts
import BtApiBase.RateLimitWaits
import BtApiBase.RateLimitTimeouts
import BtApiBase.WebSocketSubscribes
import BtApiBase.ReconnectAttempts
import BtApiBase.WebSocketPools
import BtApiBase.PoolAnswers
import BtApiBase.WebSocketCallbacks
import BtApiBase.WebSocketBackoffs
import BtApiBase.TickPartitions
import BtApiBase.PluginReloads
import BtApiBase.InstrumentHolders
import BtApiBase.InstrumentSpellings
import BtApiBase.AdapterRegistries
import BtApiBase.PyControl
import BtApiBase.HttpAttempts
import BtApiBase.RedactionPositions
import BtApiBase.AsyncRetries
import BtApiBase.CachedCalls
import BtApiBase.ReentrantHandlers
import BtApiBase.EventBuses
import BtApiBase.DIContainers
import BtApiBase.PyStrips
import BtApiBase.PyDictFills
import BtApiBase.BalanceMaps
import BtApiBase.GatewayConfigs
import BtApiBase.GatewayEndpoints
import BtApiBase.TickPayloads
import BtApiBase.OkxTopics
import BtApiBase.RecentTrades
import BtApiBase.AutoInits
import BtApiBase.OrderAliases
import BtApiBase.SocketWorkers
import BtApiBase.ConnectionOrigins
import BtApiBase.ConnectionServices
import BtApiBase.ServiceAnswers
import BtApiBase.ServiceCalls
import BtApiBase.ForwardingLifecycle
import BtApiBase.ForwardingOutput
import BtApiBase.PyDictValues
import BtApiBase.OrderMapQueries
import BtApiBase.OnceInits
import BtApiBase.AdapterLookups
import BtApiBase.RuntimeTurns
import BtApiBase.OnDemand
import BtApiBase.HttpClients
import BtApiBase.AsyncSessions
import BtApiBase.ContainerInits
