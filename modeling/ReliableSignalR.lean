import ReliableSignalR.EventRuns
import ReliableSignalR.RetainedEffects
import ReliableSignalR.IdempotentReceiver
import ReliableSignalR.KeyedTable
import ReliableSignalR.DotNet
import ReliableSignalR.Messages
import ReliableSignalR.IdentityInfrastructure
import ReliableSignalR.BrokerConnectionManager
import ReliableSignalR.AuditEndpoint
import ReliableSignalR.BackOfficeHub
import ReliableSignalR.HubRuns
import ReliableSignalR.ReplayCounts
import ReliableSignalR.HubEndpoint
import ReliableSignalR.AuthorizationProvider
import ReliableSignalR.HubConnectionManager
import ReliableSignalR.ReplacedConnections
import ReliableSignalR.DocumentHandler
import ReliableSignalR.MessageStoreCreation
import ReliableSignalR.RemotePath
import ReliableSignalR.RegistryOrder
import ReliableSignalR.RegistryHistory
import ReliableSignalR.AuditLogRuns
import ReliableSignalR.HandlerDeliveries
import ReliableSignalR.HubAttempts
import ReliableSignalR.AgreementSaga
import ReliableSignalR.SagaEmissions
import ReliableSignalR.UserKeys
import ReliableSignalR.FailedConnects
import ReliableSignalR.ReplayFidelity
import ReliableSignalR.TokenThrottle
import ReliableSignalR.Noninterference
import ReliableSignalR.BrokerShares
import ReliableSignalR.BrokerIsolation
import ReliableSignalR.BearerToken
import ReliableSignalR.ConcurrentReplays
import ReliableSignalR.AgreementDelivery
import ReliableSignalR.RemoteStations
import ReliableSignalR.AgreementLifeCycle
import ReliableSignalR.DocumentDelivery
import ReliableSignalR.StartAccounting
import ReliableSignalR.CommandRecovery
import ReliableSignalR.AgreementRecovery
import ReliableSignalR.MessageStoreContents
import ReliableSignalR.ConnectionLog
import ReliableSignalR.ReplayLimit
import ReliableSignalR.Reconnection
import ReliableSignalR.DurableSubscriber
