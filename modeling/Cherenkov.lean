import Cherenkov.Library.Machine
import Cherenkov.Library.Feed
import Cherenkov.Library.DashMap
import Cherenkov.Library.Broadcast
import Cherenkov.Protocol
import Cherenkov.Core
import Cherenkov.PubSub
import Cherenkov.MemoryBroker
import Cherenkov.Session
import Cherenkov.Hub.Model
import Cherenkov.Hub.Steps
import Cherenkov.Hub.Gate
import Cherenkov.Hub.Stages
import Cherenkov.Hub.Flow
import Cherenkov.Hub.Delivery
import Cherenkov.Hub.Provenance
import Cherenkov.Hub.References
import Cherenkov.Hub.Tasks
import Cherenkov.Hub.Ownership
import Cherenkov.Hub.Recovery
import Cherenkov.Hub.Resume
import Cherenkov.ConcurrentBroker
import Cherenkov.Hub.Index
import Cherenkov.Codec
import Cherenkov.Library.Subject
import Cherenkov.NatsBroker
import Cherenkov.Hub.Isolation
import Cherenkov.Hub.Departure
import Cherenkov.Hub.Sequential
import Cherenkov.Hub.Balance
import Cherenkov.Library.Message
import Cherenkov.ChannelHistory
import Cherenkov.Hub.Order
import Cherenkov.Hub.Turns
import Cherenkov.Hub.Refusal
import Cherenkov.Hub.Identity
import Cherenkov.Hub.Shutdown
import Cherenkov.Transport.Kick
import Cherenkov.Transport.Sse
import Cherenkov.Transport.Cleanup
import Cherenkov.Crdt
import Cherenkov.Jwt
import Cherenkov.Schema
import Cherenkov.Server
import Cherenkov.Hub.Claims
import Cherenkov.Hub.Subscribe
import Cherenkov.Hub.Rivals
import Cherenkov.Transport.Outbox
import Cherenkov.Transport.Replies
import Cherenkov.Transport.Farewell
import Cherenkov.Hub.Carriage
import Cherenkov.RedisBroker
import Cherenkov.Cluster
import Cherenkov.Replay
import Cherenkov.Expiry
import Cherenkov.Retention
import Cherenkov.Library.FirstMatch
import Cherenkov.AclPolicy
import Cherenkov.StreamAccounts
import Cherenkov.Library.Framing
import Cherenkov.Transport.Framing
import Cherenkov.Library.Digits
import Cherenkov.Library.Http
import Cherenkov.Transport.Query
import Cherenkov.Library.Base64
import Cherenkov.Library.Json
import Cherenkov.Transport.Events
import Cherenkov.Hub.Metrics
import Cherenkov.Library.TypeScript
import Cherenkov.Sdk.Payloads
import Cherenkov.Sdk.Exports
import Cherenkov.Hub.Silence
import Cherenkov.Hub.Progress
import Cherenkov.Hub.Reckoning
import Cherenkov.Hub.Upkeep
import Cherenkov.Library.Atomic
import Cherenkov.Linearization
import Cherenkov.Hub.Effects
import Cherenkov.Hub.Outside
import Cherenkov.Transport.Post
import Cherenkov.Admin.Model
import Cherenkov.Admin.Listing
import Cherenkov.Admin.Disconnect
import Cherenkov.Policy
import Cherenkov.Refusal
