import JaszczurHal.HalStatus
import JaszczurHal.CrashRun
import JaszczurHal.OtaImage
import JaszczurHal.OtaFlash
import JaszczurHal.OtaSwap
import JaszczurHal.OtaBoot
import JaszczurHal.OtaApply
import JaszczurHal.OtaLaunch
import JaszczurHal.OtaRollback
import JaszczurHal.ByteImage
import JaszczurHal.HalCrc
import JaszczurHal.SerialWindow
import JaszczurHal.LoraFrame
import JaszczurHal.LoraLink
import JaszczurHal.LoraPeers
import JaszczurHal.LoraMoves
import JaszczurHal.LoraNonce
import JaszczurHal.LoraDelivery
import JaszczurHal.LoraReceiver
import JaszczurHal.LoraAgreement
import JaszczurHal.SpscRing
import JaszczurHal.HandlePool
import JaszczurHal.HandleRuns
import JaszczurHal.HandleSafety
import JaszczurHal.CommandTypes
import JaszczurHal.CommandWire
import JaszczurHal.CommandRouter
import JaszczurHal.RouterRegistry
import JaszczurHal.RouterRuns
import JaszczurHal.RouterSteps
import JaszczurHal.RouterSafety
import JaszczurHal.SerialFrame
import JaszczurHal.SerialSession
import JaszczurHal.SerialAuth
import JaszczurHal.EepromProvider
import JaszczurHal.EepromCoherence
import JaszczurHal.LoraInbox
import JaszczurHal.LoraMesh
import JaszczurHal.BleSession
import JaszczurHal.BleStream
import JaszczurHal.BleSafety
import JaszczurHal.BlockStream
import JaszczurHal.JhSha256
import JaszczurHal.OtaManifest
import JaszczurHal.OtaWriter
import JaszczurHal.OtaStaging
import JaszczurHal.OtaWriterSafety
import JaszczurHal.GpsNmea
import JaszczurHal.GpsSentence
import JaszczurHal.GpsOutline
import JaszczurHal.GpsIsolation
import JaszczurHal.SerialLines
import JaszczurHal.OtaStateLog
import JaszczurHal.CheckedArith
import JaszczurHal.GamepadParser
import JaszczurHal.GamepadReport
import JaszczurHal.GamepadBits
import JaszczurHal.GamepadDescriptor
import JaszczurHal.GamepadBounds
import JaszczurHal.WebSocketFrame
import JaszczurHal.WebSocketHandshake
import JaszczurHal.Mcp2515Filters
import JaszczurHal.LoraRadio
import JaszczurHal.LoraRadioSafety
import JaszczurHal.BondCodec
import JaszczurHal.BtClassic
import JaszczurHal.BtBonds
import JaszczurHal.BtPairing
import JaszczurHal.GamepadBinding
import JaszczurHal.FdcanFilters
import JaszczurHal.FdcanAcceptance
import JaszczurHal.RingQueue
import JaszczurHal.MqttDispatch
import JaszczurHal.HttpPath
import JaszczurHal.HttpFiles
import JaszczurHal.LwipUdp
import JaszczurHal.UdpDelivery
import JaszczurHal.UdpProgress
import JaszczurHal.LwipTcp
import JaszczurHal.LwipTcpOwned
import JaszczurHal.LwipTcpStreams
import JaszczurHal.LwipTcpQueue
import JaszczurHal.LwipTcpRuns
import JaszczurHal.TcpListener
import JaszczurHal.CommandAdapter
import JaszczurHal.LoraCommands
import JaszczurHal.LoraCommandRuns
import JaszczurHal.A2dpSink
import JaszczurHal.A2dpStreams
import JaszczurHal.A2dpPlayback
import JaszczurHal.GamepadQueue
import JaszczurHal.HttpServer
import JaszczurHal.HttpSegmentation
import JaszczurHal.HttpAnswer
import JaszczurHal.ModemAt
import JaszczurHal.ModemRouter
import JaszczurHal.ModemAnswers
import JaszczurHal.StepRuns
import JaszczurHal.SimcomMqtt
import JaszczurHal.SimcomMessages
import JaszczurHal.SimcomDelivery
import JaszczurHal.SimcomFlags
import JaszczurHal.Worklist
import JaszczurHal.FeatureRegistry
import JaszczurHal.FeatureClosure
import JaszczurHal.FeatureResolvers
import JaszczurHal.FeatureResolution
import JaszczurHal.FeatureHeader
import JaszczurHal.FeatureAgreement
import JaszczurHal.Spans
import JaszczurHal.JhCalendar
import JaszczurHal.CalendarRoundTrip
import JaszczurHal.CanTimingChoice
import JaszczurHal.CanTimingCoverage
import JaszczurHal.DecimalText
import JaszczurHal.OtaTranscript
import JaszczurHal.ManifestBinding
import JaszczurHal.LoraCodec
import JaszczurHal.GamepadItems
import JaszczurHal.GamepadDeclared
import JaszczurHal.GamepadExtraction
import JaszczurHal.KvStore
import JaszczurHal.KvRecordSound
import JaszczurHal.KvIndex
import JaszczurHal.KvCompaction
import JaszczurHal.KvSafety
import JaszczurHal.KvOpening
import JaszczurHal.KvRuns
import JaszczurHal.SerialRoundTrip
import JaszczurHal.HalTimeNtp
import JaszczurHal.ModemMasking
import JaszczurHal.MaskedOccurrences
import JaszczurHal.A2dpMedia
import JaszczurHal.A2dpMediaLayout
import JaszczurHal.GpsUtcFields
import JaszczurHal.GpsUtc
import JaszczurHal.WordBits
import JaszczurHal.CanFrames
import JaszczurHal.CanObjects
import JaszczurHal.Mcp2515Buffers
import JaszczurHal.CanObjectLaws
import JaszczurHal.Sscanf
import JaszczurHal.CellLines
import JaszczurHal.CellLocationBreaks
import JaszczurHal.CellLocationDeliveries
import JaszczurHal.HttpRoutes
import JaszczurHal.NetLiteralTexts
import JaszczurHal.NetLiteralLaws
import JaszczurHal.NetLiteralRoundTrip
import JaszczurHal.Utf8Texts
import JaszczurHal.TelegramParts
import JaszczurHal.TelegramDelivery
import JaszczurHal.EditScripts
import JaszczurHal.UnifiedDiffRuns
import JaszczurHal.UnifiedDiffGroups
import JaszczurHal.UnifiedDiffSound
import JaszczurHal.DepthFirst
import JaszczurHal.FeatureAcceptance
import JaszczurHal.DecimalTruncation
import JaszczurHal.PythonFloatForm
import JaszczurHal.PythonFloatExact
import JaszczurHal.GamepadAxis
import JaszczurHal.LoraWindow
import JaszczurHal.RpFlashStorage
import JaszczurHal.HttpPathBounds
import JaszczurHal.LoraAirTime
import JaszczurHal.Sha1Standard
import JaszczurHal.WebSocketSha1
