import AetherForge.Library.Transition
import AetherForge.Library.Program
import AetherForge.Library.Delivery
import AetherForge.Library.Slicing
import AetherForge.Library.GoData
import AetherForge.Library.Binary64
import AetherForge.Library.GoJson
import AetherForge.Library.FloorSums
import AetherForge.Library.GridCells
import AetherForge.Library.KeySort
import AetherForge.Library.FoldedMap
import AetherForge.Library.GoJsonMaps
import AetherForge.Library.StructJson
import AetherForge.Library.JsonPath
import AetherForge.Library.JsonPlaces
import AetherForge.Library.Presence
import AetherForge.Library.JsonText
import AetherForge.Library.JsonReading
import AetherForge.Library.JsonPrinting
import AetherForge.Library.JsonSchema
import AetherForge.Library.SchemaDocument
import AetherForge.Library.ThreadPool
import AetherForge.Library.Operation
import AetherForge.Backend.Protocol
import AetherForge.Backend.Caps
import AetherForge.Backend.SpatialHash
import AetherForge.Backend.Placement
import AetherForge.Backend.Pipeline
import AetherForge.Backend.PlacementOrder
import AetherForge.Backend.PlacementOutput
import AetherForge.Backend.Layouts
import AetherForge.Backend.ZeroCounts
import AetherForge.Backend.StreamGrammar
import AetherForge.Backend.StreamAgreement
import AetherForge.Backend.Lifecycle
import AetherForge.Backend.Exclusion
import AetherForge.Backend.GenerationRuns
import AetherForge.Backend.SingleFlight
import AetherForge.Backend.Hush
import AetherForge.Backend.Cancellation
import AetherForge.Backend.RecordReplay
import AetherForge.Backend.Recordings
import AetherForge.Backend.Decode
import AetherForge.Backend.Connection
import AetherForge.Backend.ConnectionProtocol
import AetherForge.Backend.FinalErrors
import AetherForge.Backend.FailedSends
import AetherForge.Backend.Traffic
import AetherForge.Backend.Emission
import AetherForge.Backend.Acquisition
import AetherForge.Backend.Encode
import AetherForge.Backend.Wire
import AetherForge.Backend.Contract
import AetherForge.Backend.MissingFields
import AetherForge.Backend.Ollama
import AetherForge.Backend.OllamaSchema
import AetherForge.Backend.FakeLLM
import AetherForge.Backend.ClientChoice
import AetherForge.Backend.ReplayedSession
import AetherForge.Plugin.Spawner
import AetherForge.Plugin.Roster
import AetherForge.Plugin.SpawnLedger
import AetherForge.Plugin.Conservation
import AetherForge.Plugin.PendingCount
import AetherForge.Plugin.Streaming
import AetherForge.Plugin.LoadTracking
import AetherForge.Plugin.Messages
import AetherForge.Plugin.Client
import AetherForge.Plugin.FramePipeline
import AetherForge.Plugin.DeliveryOrder
import AetherForge.Plugin.Protocol
import AetherForge.Plugin.Passing
import AetherForge.Plugin.CodecAgreement
import AetherForge.Plugin.UnknownFields
import AetherForge.Plugin.RequiredFields
import AetherForge.Plugin.Module
import AetherForge.Plugin.Panel
import AetherForge.Plugin.SeedField
import AetherForge.Plugin.Tracking
import AetherForge.Plugin.Handshake
import AetherForge.Plugin.Routing
import AetherForge.Plugin.Draining
import AetherForge.Plugin.SpawnOrder
import AetherForge.Plugin.LateCallbacks
import AetherForge.Plugin.Punctuality
import AetherForge.Plugin.Sidecar
import AetherForge.Plugin.BringUp
import AetherForge.Plugin.Attempts
import AetherForge.Plugin.Readiness
import AetherForge.Plugin.EndToEnd
import AetherForge.Plugin.Progress
import AetherForge.Plugin.Session
import AetherForge.Plugin.SessionAgreement
import AetherForge.Plugin.SessionSpawns
import AetherForge.Plugin.Winding
