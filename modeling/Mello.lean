import Mello.Library.BitFields
import Mello.Library.Serial
import Mello.Library.Consecutive
import Mello.Library.Linked
import Mello.Library.Runs
import Mello.Library.Extents
import Mello.Library.Faults
import Mello.Library.Journal
import Mello.Library.Parity
import Mello.Transport.Twcc
import Mello.Transport.TwccBounds
import Mello.Transport.TwccChunks
import Mello.Transport.TwccPlan
import Mello.Transport.TwccReport
import Mello.Transport.TwccRoundTrip
import Mello.Transport.TwccLedger
import Mello.Transport.TwccStamp
import Mello.Transport.GoogCc
import Mello.Transport.GoogCcHistory
import Mello.Transport.GoogCcAccounting
import Mello.Transport.GoogCcMatching
import Mello.Transport.AnnexB
import Mello.Transport.RtpDatagrams
import Mello.Transport.RtpH264Accounts
import Mello.Transport.RtpH264Memory
import Mello.Transport.RtpH264Prompt
import Mello.Transport.RtpH264Repairs
import Mello.Transport.RtpH264Units
import Mello.Transport.RtpVideoSender
import Mello.Transport.SenderChain
import Mello.Transport.SenderGate
import Mello.Transport.SenderIdrFlag
import Mello.Transport.ResendBudget
import Mello.Transport.H264Packetization
import Mello.Transport.H264Reads
import Mello.Transport.Ulpfec
import Mello.Transport.UlpfecGroup
import Mello.Transport.UlpfecRepair
import Mello.Transport.UlpfecStream
import Mello.Replay.VideoRing
import Mello.Replay.VideoRingIndex
import Mello.Replay.VideoRingPins
import Mello.Replay.VideoRingWindows
import Mello.Library.Documents
import Mello.Backend.CrewDocuments
import Mello.Backend.GameSession
import Mello.Backend.VoiceRooms
import Mello.Backend.VoiceReconcile
import Mello.Backend.VoiceMembership
import Mello.Backend.VoiceRegion
import Mello.Backend.VoiceSessions
import Mello.Library.BigEndian
import Mello.Replay.Mp4Box
import Mello.Replay.Mp4Demux
import Mello.Replay.Mp4Samples
import Mello.Replay.Mp4Safety
import Mello.Replay.Mp4Write
import Mello.Replay.Mp4Parse
import Mello.Replay.Mp4Tables
import Mello.Replay.Mp4Times
import Mello.Replay.AvccRoundTrip
import Mello.Library.Guards
import Mello.Backend.VoiceChannels
import Mello.Backend.CrewSubscribers
import Mello.Backend.VoicePushes
import Mello.Library.Versioned
import Mello.Library.Wheel
import Mello.Library.Workers
import Mello.Backend.StreamViewers
import Mello.Backend.EmojiSlots
import Mello.Backend.InviteNames
import Mello.Backend.Head2head
import Mello.Backend.StreamRecords
import Mello.Library.Calendar
import Mello.Backend.StreamResume
import Mello.Backend.PushQueue
import Mello.Backend.PushSends
import Mello.Library.Keyed
import Mello.Backend.PushCoalesce
import Mello.Backend.MentionPushes
import Mello.Backend.WeeklyRecaps
import Mello.Library.Pages
import Mello.Library.Buckets
import Mello.Library.Latest
import Mello.Backend.FeedZones
import Mello.Backend.FeedHistory
import Mello.Backend.GameStats
import Mello.Backend.ActivityStats
import Mello.Library.MapOrder
import Mello.Backend.Head2headTitles
import Mello.Backend.CoPlay
import Mello.Library.Ring
import Mello.Transport.GenericNack
import Mello.Transport.VoiceSlots
import Mello.Transport.VoiceSlotLate
import Mello.Core.LibraryReport
import Mello.Core.Speaking
import Mello.Core.ClipUpload
import Mello.Core.GameSensing
import Mello.Core.GameSessions
import Mello.Core.GameScans
import Mello.Core.GameState
import Mello.Core.Telemetry
import Mello.Core.GamePlay
import Mello.Core.LogTail
import Mello.Core.GameNights
import Mello.Core.StreamReconnect
import Mello.Audio.VoiceLadder
import Mello.Library.LittleEndian
import Mello.Stream.Cursor
import Mello.Library.Nearest
import Mello.Library.OrderedMap
import Mello.Library.Turns
import Mello.Library.Lines
import Mello.Stream.Rungs
import Mello.Stream.Controller
import Mello.Stream.ControllerDiscipline
import Mello.Stream.ControllerRecovery
import Mello.Stream.ControllerReturn
import Mello.Library.Tracking
import Mello.Core.RocketLeague
import Mello.Core.TelemetryWorkers
import Mello.Core.TelemetrySingle
import Mello.Core.Cs2Gsi
import Mello.Core.Dota2Gsi
import Mello.Core.MatchResults
import Mello.Library.Pacing
import Mello.Video.FrameCadence
import Mello.Library.Envelope
import Mello.Replay.AudioRing
import Mello.Replay.AudioRingFrames
import Mello.Replay.AudioRingWindows
import Mello.Replay.ClipLimiter
import Mello.Replay.ClipRoundTrip
import Mello.Transport.AvSyncDecisions
import Mello.Transport.SendFeedback
import Mello.Transport.CaptureTimes
import Mello.Transport.ReferenceTimes
import Mello.Video.FrameThrottles
import Mello.Core.ClipUploadSteps
import Mello.Stream.Congestion
import Mello.Stream.CongestionDiscipline
import Mello.Stream.CongestionRecovery
import Mello.Core.ClipRangeReader
import Mello.Core.ClipRangeCache
import Mello.Library.BinarySearch
import Mello.Library.Leb128
import Mello.Core.AppIds
import Mello.Core.AppIdAnswers
import Mello.Library.Texts
import Mello.Core.Mentions
import Mello.Core.MentionTrip
import Mello.Library.Utf8
import Mello.Core.CatalogueBlob
import Mello.Core.CatalogueFile
import Mello.Core.CatalogueHead
import Mello.Core.CatalogueLookups
import Mello.Core.CatalogueTrip
