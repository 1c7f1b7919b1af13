import TalkSphere.BigEndian
import TalkSphere.Api
import TalkSphere.Header
import TalkSphere.Control
import TalkSphere.Registry
import TalkSphere.StreamIds
import TalkSphere.Framing
import TalkSphere.Session
import TalkSphere.SessionCalls
import TalkSphere.Endpoint
import TalkSphere.FiniteMap
import TalkSphere.SessionSteps
import TalkSphere.SessionAnswers
import TalkSphere.SessionWorks
import TalkSphere.SessionLocal
import TalkSphere.SessionReceive
import TalkSphere.Scheduler
import TalkSphere.EndpointRuns
import TalkSphere.Party
import TalkSphere.Flow
import TalkSphere.FlowSender
import TalkSphere.FlowSteps
import TalkSphere.SessionKeeps
import TalkSphere.Joint
import TalkSphere.Link
import TalkSphere.EventGrammar
import TalkSphere.SessionClosure
import TalkSphere.SessionEvents
import TalkSphere.Carried
import TalkSphere.LinkBytes
import TalkSphere.LinkGoaway
import TalkSphere.SlowConsumer
import TalkSphere.HandshakeAgreement
import TalkSphere.IntegrityChannel
import TalkSphere.FramingRoundTrip
import TalkSphere.WireCodecs
import TalkSphere.EventMemory
import TalkSphere.SchedulerOrder
import TalkSphere.SessionActs
import TalkSphere.FramingWriter
import TalkSphere.Connection
import TalkSphere.ConnectionMoves
import TalkSphere.ConnectionSound
import TalkSphere.ClosedSession
import TalkSphere.Budget
import TalkSphere.ByteStreams
import TalkSphere.WireStages
import TalkSphere.ConnectionEvents
import TalkSphere.PhaseAgreement
import TalkSphere.SessionVoice
import TalkSphere.ConnectionVoice
import TalkSphere.Roster
import TalkSphere.Driver
import TalkSphere.DriverLifecycle
import TalkSphere.Rejection
import TalkSphere.SessionEmits
import TalkSphere.StreamIsolation
import TalkSphere.ReceiveBounds
import TalkSphere.PingLedger
import TalkSphere.SessionConduct
import TalkSphere.NormalClosure
import TalkSphere.ConnectionCourse
import TalkSphere.Outcome
import TalkSphere.Json
import TalkSphere.JsonTokens
import TalkSphere.JsonParser
import TalkSphere.Document
import TalkSphere.DocumentLanguage
import TalkSphere.JsonNumbers
import TalkSphere.Integers
import TalkSphere.Values
import TalkSphere.Offerings
import TalkSphere.Definitions
import TalkSphere.Prepared
import TalkSphere.StreamHistory
import TalkSphere.Schemas
import TalkSphere.Regrouping
import TalkSphere.IdentityText
import TalkSphere.Envelope
import TalkSphere.EnvelopeSealing
import TalkSphere.Separated
import TalkSphere.Contacts
import TalkSphere.ContactSnapshots
import TalkSphere.Fidelity
import TalkSphere.RecordCodec
import TalkSphere.JsonWeights
import TalkSphere.StoredBoards
import TalkSphere.Durable
import TalkSphere.Replacement
import TalkSphere.Anchoring
import TalkSphere.BoardStore
import TalkSphere.IdentityStore
import TalkSphere.Retention
import TalkSphere.Selection
import TalkSphere.Provider
import TalkSphere.ProviderRuns
import TalkSphere.Cache
import TalkSphere.CacheRuns
import TalkSphere.ProviderSelection
import TalkSphere.ServerConfig
import TalkSphere.Server
import TalkSphere.ServerRuns
import TalkSphere.ServerRouting
