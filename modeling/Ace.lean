import Ace.Properties.TranscriptResume
import Ace.Properties.ClientView
import Ace.Properties.RetainedTail
import Ace.Properties.Terminality
import Ace.Properties.HandshakeAgreement
import Ace.Properties.QueueOrder
import Ace.Properties.Resume
import Ace.Properties.SubscriptionFrames
import Ace.Properties.Fencing
import Ace.Properties.Routing
import Ace.Properties.CheckpointNumbers
import Ace.Properties.Leases
import Ace.Properties.WireTrimming
import Ace.Properties.ChannelDelivery
import Ace.Properties.LineFraming
import Ace.Properties.StringElision
import Ace.Properties.SettingsDecode
import Ace.Properties.EventStreams
import Ace.Properties.SerialLines
import Ace.Properties.ConflictSegments
import Ace.Properties.CredentialCover
import Ace.Properties.ChunkedRedaction
import Ace.Properties.BoundedPages
import Ace.Properties.Budgets
import Ace.Properties.CacheCoherence
import Ace.Properties.PathRace
import Ace.Properties.Rejections
import Ace.Properties.PublicationScans
import Ace.Properties.SettleFixpoint
import Ace.Properties.OutputStreams
import Ace.Properties.SpanUnion
import Ace.Properties.Base64
import Ace.Properties.SidebarPaging
import Ace.Properties.PeerBudgets
import Ace.Properties.GlobalSettings
import Ace.Properties.TicketRuns
import Ace.Properties.IdRuns
import Ace.Properties.WindowedLines
import Ace.Properties.FactBatches
import Ace.Properties.Stops
