import Columbia.Lib.Transition
import Columbia.Lib.OrderedMap
import Columbia.Lib.RemoteTable
import Columbia.Js.Value
import Columbia.Issuer.StateStore
import Columbia.Issuer.Ledger
import Columbia.Issuer.Replicas
import Columbia.Issuer.QuotaRecord
import Columbia.Relay.RedemptionStore
import Columbia.Issuer.AzureDevices
import Columbia.Issuer.AzureLedger
import Columbia.Issuer.SaltGuard
import Columbia.Relay.RelayRequests
import Columbia.Relay.GatewayFlight
import Columbia.Commons.Resources
import Columbia.Commons.Cache
import Columbia.Commons.SingleFlight
import Columbia.Commons.Provenance
import Columbia.Commons.Contents
import Columbia.Js.Base64
import Columbia.Js.Bytes
import Columbia.Relay.Redeemer
import Columbia.Relay.IssuerKeyCache
import Columbia.Relay.KeyCacheRuns
import Columbia.Relay.AccessToken
import Columbia.Lib.Reader
import Columbia.Lib.Logged
import Columbia.Js.Utf8
import Columbia.Js.Http
import Columbia.Relay.Dispatch
import Columbia.Issuer.AppAttest.Cbor
import Columbia.Issuer.AppAttest.CborEncode
import Columbia.Issuer.AppAttest.CborAllocations
import Columbia.Issuer.AppAttest.Der
import Columbia.Issuer.AppAttest.DerTermination
import Columbia.Issuer.AppAttest.AuthData
import Columbia.Issuer.AppAttest.Validate
import Columbia.Issuer.AppAttest.Gate
import Columbia.Issuer.AppAttest.CertChain
import Columbia.Issuer.AppAttest.DerSearch
import Columbia.Issuer.AppAttest.Fixtures
import Columbia.Issuer.Issue
import Columbia.Issuer.Authorisation
import Columbia.Issuer.EpochKeys
import Columbia.Issuer.KeyProvider
import Columbia.Issuer.IssueRoute
import Columbia.Issuer.Issuance
import Columbia.Issuer.Overlap
import Columbia.Issuer.DeviceRows
import Columbia.Issuer.Binding
import Columbia.Gateway.RateLimit
import Columbia.Gateway.Handler
import Columbia.Lib.TokenBucket
import Columbia.Gateway.RateBound
import Columbia.Lib.FixedWindow
import Columbia.Relay.RateLimited
import Columbia.Relay.SpendSet
import Columbia.Js.Url
import Columbia.Commons.UpstreamBase
import Columbia.Gateway.SummaryMetrics
import Columbia.Gateway.SummaryLabels
import Columbia.Gateway.Varint
import Columbia.Gateway.Bhttp
import Columbia.Gateway.Hpke
import Columbia.Gateway.Ohttp
import Columbia.Gateway.AppHandler
import Columbia.Gateway.Resource
import Columbia.Lib.Routes
import Columbia.Gateway.ServeMux
import Columbia.Gateway.Main
import Columbia.Gateway.InfoBuffer
import Columbia.Relay.Service
import Columbia.Relay.Passthrough
import Columbia.Exchange
