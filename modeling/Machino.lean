import Machino.Basic.Runs
import Machino.Basic.Lines
import Machino.Basic.Ledger
import Machino.Basic.Effects
import Machino.Basic.Gf2
import Machino.Basic.Fips197
import Machino.Basic.Crc
import Machino.Basic.DurableFs
import Machino.Basic.Recent
import Machino.Basic.Calendar
import Machino.Basic.Tagged
import Machino.Core.Result
import Machino.Core.Text
import Machino.Core.Json
import Machino.Core.ConfigStore
import Machino.Core.StateStore
import Machino.Basic.Cidr
import Machino.Ipsec.TunnelSelectors
import Machino.Ipsec.TunnelRoutes
import Machino.Ipsec.EspSession
import Machino.Ipsec.DataPath
import Machino.Core.ConfigFile
import Machino.Core.Number
import Machino.Cellular.CellularConfig
import Machino.Cellular.Settings
import Machino.Cellular.AtParse
import Machino.Cellular.SimManager
import Machino.Cellular.PinAttempts
import Machino.Cellular.RadioTuner
import Machino.Cellular.RadioRun
import Machino.Cellular.RadioDebt
import Machino.Cellular.RadioRestore
import Machino.Cellular.RadioCycles
import Machino.Cellular.EcmLink
import Machino.Cellular.DhcpOwner
import Machino.Cellular.ModeSwitches
import Machino.Cellular.PppLink
import Machino.Cellular.Backoff
import Machino.Lifecycle.Types
import Machino.Lifecycle.PipelineManager
import Machino.Lifecycle.Chain
import Machino.Lifecycle.Media
import Machino.Lifecycle.Invariant
import Machino.Lifecycle.Operations
import Machino.Lifecycle.PlatformState
import Machino.Lifecycle.GraceTimers
import Machino.Lifecycle.SnapshotWindow
import Machino.Lifecycle.Failed
import Machino.Lifecycle.Restart
import Machino.Stream.StreamHub
import Machino.Stream.Delivery
import Machino.Stream.AuPool
import Machino.Stream.Starvation
import Machino.Net.RoutePlan
import Machino.Net.Selection
import Machino.Net.Damping
import Machino.Net.StagedChange
import Machino.Net.LinkIntent
import Machino.Net.RouteManager
import Machino.Net.Stranding
import Machino.Net.Failover
import Machino.Net.DnsOwnership
import Machino.Net.TxnRecord
import Machino.Net.NetworkTxn
import Machino.Net.CrashSafety
import Machino.Net.TokenBinding
import Machino.Net.HandOver
import Machino.Net.WifiConfig
import Machino.Net.Rollback
import Machino.Net.CellularStore
import Machino.Ipsec.Validate
import Machino.Ipsec.IpsecConfig
import Machino.Ipsec.MachinoConf
import Machino.Ipsec.IpsecService
import Machino.Ipsec.Trace
import Machino.Ipsec.PeerRoutes
import Machino.Ipsec.Reconnect
import Machino.Ipsec.WdConfig
import Machino.Ipsec.Networks
import Machino.Ipsec.DaemonReads
import Machino.Ipsec.DaemonLines
import Machino.Ipsec.DaemonValues
import Machino.Ipsec.Agreement
import Machino.Usb.UsbConfig
import Machino.Net.PolicySettings
import Machino.Core.AppConfig
import Machino.Core.CommittedLines
import Machino.Api.PatchFields
import Machino.Api.PatchConfig
import Machino.Api.PatchLines
import Machino.Api.PatchStored
import Machino.Devices.Aic8800Package
import Machino.Rtp.RtpPacket
import Machino.Webrtc.Srtp
import Machino.Webrtc.Aes
import Machino.Webrtc.StunResponse
import Machino.Webrtc.SrtpReplay
import Machino.H264.Nal
import Machino.Webrtc.RtpH264
import Machino.Http.HttpParse
import Machino.Http.Relay
import Machino.Http.RelayRoundTrip
import Machino.Rtsp.RtspAuth
import Machino.Rtsp.DigestRun
import Machino.Audio.AudioService
import Machino.Audio.Ownership
import Machino.Detection.DetectionService
import Machino.Detection.Control
import Machino.Net.SimRequests
import Machino.Rtsp.ClientFraming
import Machino.Compat.MajesticMigrate
import Machino.Compat.MigrationValues
import Machino.Compat.MigrationReport
import Machino.Compat.MigrationRules
import Machino.Compat.MigrationHonest
import Machino.Http.Fmp4
import Machino.Http.AvccUnits
import Machino.Http.BoxLayout
import Machino.Http.SampleLayout
import Machino.Http.LayoutExact
import Machino.Http.WebSocketStream
import Machino.Basic.ReplayWindow
import Machino.Webrtc.SrtpRoundTrip
import Machino.Basic.Companding
import Machino.Audio.G711
import Machino.Webrtc.Keystream
import Machino.Webrtc.Peer
import Machino.Webrtc.PeerRuns
import Machino.Core.JsonText
import Machino.Core.JsonRoundTrip
import Machino.Basic.Retained
import Machino.Http.Hls
import Machino.Http.HlsNumbers
import Machino.Power.Apply
import Machino.Power.PerformanceService
import Machino.Power.ProfileTruth
import Machino.Media.TuningService
import Machino.Media.TuningAtomic
import Machino.Media.ImageCalls
import Machino.Media.ImageHeld
import Machino.Webrtc.Sdp
import Machino.Webrtc.SdpOffer
import Machino.Webrtc.SdpAnswer
import Machino.Net.RecordLengths
import Machino.Net.Reconciled
import Machino.Http.FileUpload
import Machino.Core.RemovedKeys
import Machino.Watchdog.WatchdogService
import Machino.Watchdog.Stalls
import Machino.Watchdog.FeedGap
import Machino.Net.HostapdConf
import Machino.Net.AccessPoint
import Machino.Osd.OsdService
import Machino.Osd.Overlays
import Machino.Http.RelayHead
import Machino.Http.RelayFraming
import Machino.Webrtc.Stun
import Machino.Ipsec.ConfigFiles
import Machino.Net.WpaSupplicant
import Machino.Usb.PowerPins
import Machino.Night.NightService
import Machino.Audio.Speaker
import Machino.Audio.SpeakerRuns
import Machino.Detection.NnaDetector
import Machino.Detection.NnaInStep
import Machino.Onvif.SoapAction
import Machino.Onvif.Soap
import Machino.Onvif.Elements
import Machino.Onvif.OnvifService
import Machino.Night.IrCut
import Machino.Cellular.EcmSilence
import Machino.Cellular.PppProcess
import Machino.Core.JsonUnicode
import Machino.Http.HlsSteps
import Machino.Night.ActuatorErrors
import Machino.Power.EncoderRate
import Machino.Http.HlsTrace
import Machino.Http.HlsDecodable
import Machino.Http.HlsGaps
import Machino.Basic.Scans
import Machino.H264.BitStream
import Machino.H264.Sps
import Machino.H264.SpsRewrite
import Machino.Cellular.AtFraming
import Machino.Cellular.AtNumbers
import Machino.Http.SessionGate
import Machino.Http.SessionTable
import Machino.Stream.Accounting
import Machino.Basic.Sextets
import Machino.Http.Base64
import Machino.Http.DecodeTimes
import Machino.Rtsp.RtpJpeg
import Machino.Http.FileGet
import Machino.Rtsp.JpegFragments
import Machino.Basic.Fips180
import Machino.Http.Sha1
import Machino.Webrtc.PeerMedia
