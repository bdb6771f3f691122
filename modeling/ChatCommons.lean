import ChatCommons.Archive.Absorbing
import ChatCommons.Archive.Checks
import ChatCommons.Archive.Commands
import ChatCommons.Archive.Import
import ChatCommons.Archive.ImportOrder
import ChatCommons.Archive.RoundTrip
import ChatCommons.Archive.Spread
import ChatCommons.Chat.Appending
import ChatCommons.Chat.Bootstrap
import ChatCommons.Chat.Candidates
import ChatCommons.Chat.Communal
import ChatCommons.Chat.Conversation
import ChatCommons.Chat.Founding
import ChatCommons.Chat.Genesis
import ChatCommons.Chat.Governance
import ChatCommons.Chat.History
import ChatCommons.Chat.Invitation
import ChatCommons.Chat.Judged
import ChatCommons.Chat.LocalRuns
import ChatCommons.Chat.Redemption
import ChatCommons.Chat.Reference
import ChatCommons.Chat.Removal
import ChatCommons.Chat.Resolution
import ChatCommons.Chat.TipEvent
import ChatCommons.Chat.TipResolution
import ChatCommons.Chat.Trace
import ChatCommons.Chat.Verdict
import ChatCommons.Chat.Views
import ChatCommons.Chat.Writing
import ChatCommons.Core.AncestryExact
import ChatCommons.Core.AncestrySpec
import ChatCommons.Core.Confluence
import ChatCommons.Core.EventValidity
import ChatCommons.Core.Growth
import ChatCommons.Core.Heads
import ChatCommons.Core.IngestSpec
import ChatCommons.Core.Listed
import ChatCommons.Core.NodeHistory
import ChatCommons.Core.StoreHistory
import ChatCommons.Core.WireFormat
import ChatCommons.Desktop.Redaction
import ChatCommons.General.AntiEntropy
import ChatCommons.General.AntiEntropyAgreement
import ChatCommons.General.AntiEntropyDelivery
import ChatCommons.General.AntiEntropyRequests
import ChatCommons.General.AntiEntropyResumption
import ChatCommons.General.AntiEntropyTermination
import ChatCommons.General.Bytes
import ChatCommons.General.Collections
import ChatCommons.General.Dag
import ChatCommons.General.Fallible
import ChatCommons.General.Framing
import ChatCommons.General.Gossip
import ChatCommons.General.JsonCode
import ChatCommons.General.JsonText
import ChatCommons.General.LastWord
import ChatCommons.General.Rounds
import ChatCommons.General.RoundsDepth
import ChatCommons.General.Scanning
import ChatCommons.General.Simulation
import ChatCommons.General.Since
import ChatCommons.General.SlidingWindow
import ChatCommons.General.Stateful
import ChatCommons.General.TopologicalOrder
import ChatCommons.General.Weight
import ChatCommons.Model.Archive
import ChatCommons.Model.ArchiveCommands
import ChatCommons.Model.ArchiveImport
import ChatCommons.Model.Auth
import ChatCommons.Model.Bootstrap
import ChatCommons.Model.Commands
import ChatCommons.Model.Crypto
import ChatCommons.Model.Diagnostics
import ChatCommons.Model.FaultyPeer
import ChatCommons.Model.FaultyStore
import ChatCommons.Model.Invite
import ChatCommons.Model.Join
import ChatCommons.Model.LocalCommands
import ChatCommons.Model.Network
import ChatCommons.Model.NetworkMessage
import ChatCommons.Model.NetworkPair
import ChatCommons.Model.NetworkRun
import ChatCommons.Model.NodeCore
import ChatCommons.Model.Profile
import ChatCommons.Model.Protocol
import ChatCommons.Model.RequestSession
import ChatCommons.Model.Resolver
import ChatCommons.Model.ReviewHandler
import ChatCommons.Model.ReviewServer
import ChatCommons.Model.Serve
import ChatCommons.Model.Storage
import ChatCommons.Model.SyncMessage
import ChatCommons.Model.SyncPeer
import ChatCommons.Model.SyncSession
import ChatCommons.Network.Authorization
import ChatCommons.Network.Channels
import ChatCommons.Network.Connections
import ChatCommons.Network.DeclaredEndpoint
import ChatCommons.Network.Disclosure
import ChatCommons.Network.FollowUps
import ChatCommons.Network.Footprint
import ChatCommons.Network.Formats
import ChatCommons.Network.FrameSize
import ChatCommons.Network.GrantLimits
import ChatCommons.Network.Grants
import ChatCommons.Network.HeadsGate
import ChatCommons.Network.InvitationCode
import ChatCommons.Network.JoinTrace
import ChatCommons.Network.Moves
import ChatCommons.Network.Relays
import ChatCommons.Network.Responses
import ChatCommons.Network.Returned
import ChatCommons.Network.Revocations
import ChatCommons.Network.Routes
import ChatCommons.Network.ServerQuota
import ChatCommons.Network.Sessions
import ChatCommons.Network.SignedBytes
import ChatCommons.Network.Unapproved
import ChatCommons.Review.Auditing
import ChatCommons.Review.Exchanges
import ChatCommons.Review.Limiting
import ChatCommons.Review.Overtaking
import ChatCommons.Sample.Brawl
import ChatCommons.Sample.Chain
import ChatCommons.Sample.ChainPeers
import ChatCommons.Sample.Club
import ChatCommons.Sample.Host
import ChatCommons.Sample.LengthHash
import ChatCommons.Sample.Server
import ChatCommons.Sample.Sponsor
import ChatCommons.Sample.Star
import ChatCommons.Sample.Talk
import ChatCommons.Sync.AcceptSpec
import ChatCommons.Sync.Agreement
import ChatCommons.Sync.Confinement
import ChatCommons.Sync.LongHistory
import ChatCommons.Sync.Meetings
import ChatCommons.Sync.MessageSize
import ChatCommons.Sync.MessageSpec
import ChatCommons.Sync.Packing
import ChatCommons.Sync.PendingLimit
import ChatCommons.Sync.ProperMessages
import ChatCommons.Sync.Quota
import ChatCommons.Sync.ReceiveSpec
import ChatCommons.Sync.Refinement
import ChatCommons.Sync.Requests
import ChatCommons.Sync.Resumption
import ChatCommons.Sync.Serving
import ChatCommons.Sync.SessionRefinement
import ChatCommons.Sync.Steady
