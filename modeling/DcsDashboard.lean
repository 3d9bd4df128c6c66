import DcsDashboard.Lib.Runs
import DcsDashboard.Lib.Newest
import DcsDashboard.Lib.Json
import DcsDashboard.Process.StopFlag
import DcsDashboard.Screen.Messages
import DcsDashboard.Screen.Capture
import DcsDashboard.Screen.Feed
import DcsDashboard.Airboss.CarrierDetection
import DcsDashboard.Airboss.CarrierList
import DcsDashboard.Lib.LuaNumber
import DcsDashboard.Lib.LuaLexer
import DcsDashboard.Lib.LuaData
import DcsDashboard.Lib.LuaReplacing
import DcsDashboard.Lib.LuaWriting
import DcsDashboard.Lib.NumberFormat
import DcsDashboard.Lib.RustText
import DcsDashboard.Lib.TextLines
import DcsDashboard.Lib.LuaLines
import DcsDashboard.Lib.LuaRows
import DcsDashboard.Carrier.Config
import DcsDashboard.Carrier.Overrides
import DcsDashboard.Lib.LuaMath
import DcsDashboard.Lib.Doubles
import DcsDashboard.Lib.SamplingLoops
import DcsDashboard.Lib.Bearing
import DcsDashboard.Carrier.Solver
import DcsDashboard.Carrier.Deck
import DcsDashboard.Carrier.Navigation
import DcsDashboard.Carrier.Controller
import DcsDashboard.Carrier.Ticks
import DcsDashboard.Carrier.Lifecycle
import DcsDashboard.Carrier.CalmSea
import DcsDashboard.Carrier.CommandedCourse
import DcsDashboard.Carrier.Install
import DcsDashboard.Carrier.WindReport
import DcsDashboard.Carrier.DeckWind
import DcsDashboard.Carrier.Corridor
import DcsDashboard.Carrier.Refusals
import DcsDashboard.Carrier.ClearTarget
import DcsDashboard.Carrier.TickLog
import DcsDashboard.Carrier.HeldCourse
import DcsDashboard.Lib.FirstLeast
import DcsDashboard.Carrier.Circuit
import DcsDashboard.Airboss.TargetPanel
import DcsDashboard.Carrier.Injection
import DcsDashboard.Lib.JsRecord
import DcsDashboard.Airboss.DeckTracking
import DcsDashboard.Airboss.WindPlan
import DcsDashboard.Airboss.DeckPosition
import DcsDashboard.Lib.Polyline
import DcsDashboard.Airboss.DeckRoutes
import DcsDashboard.Airboss.NearestRoute
import DcsDashboard.Settings.Reading
import DcsDashboard.Settings.Writing
import DcsDashboard.Settings.Encoders
import DcsDashboard.Settings.RoundTrip
import DcsDashboard.Settings.MissionQueue
import DcsDashboard.Lib.WindowsPath
import DcsDashboard.Weather.WeatherApply
import DcsDashboard.Lib.PercentEncoding
import DcsDashboard.Downloads.ContentDisposition
import DcsDashboard.Foothold.ConfigReading
import DcsDashboard.Foothold.ConfigEditing
import DcsDashboard.Foothold.ConfigRows
import DcsDashboard.Foothold.ConfigUpdates
import DcsDashboard.Foothold.ConfigLines
import DcsDashboard.Foothold.ConfigReadAfterWrite
import DcsDashboard.Foothold.NestedLines
import DcsDashboard.Foothold.AddressedLines
import DcsDashboard.Lib.KeyOrder
import DcsDashboard.ProtoJson.Messages
import DcsDashboard.ProtoJson.OneofDiscriminators
import DcsDashboard.Lib.ByteOffsets
import DcsDashboard.Lib.LowerCase
import DcsDashboard.Foothold.ConfigHelp
import DcsDashboard.Lib.KeyedRows
import DcsDashboard.Foothold.Leaderboard
import DcsDashboard.Lib.Grouping
import DcsDashboard.Lso.Pilots
import DcsDashboard.Lso.PilotGrouping
import DcsDashboard.Lso.Notation
import DcsDashboard.Lso.NotationLossless
import DcsDashboard.Lso.Segmentations
import DcsDashboard.Lso.Readings
import DcsDashboard.Lib.MaximalRuns
import DcsDashboard.Lib.JoinedText
import DcsDashboard.Lso.Rendering
import DcsDashboard.Lib.ReadModifyWrite
import DcsDashboard.Auth.AuditLog
import DcsDashboard.Settings.QueueRequests
import DcsDashboard.Preferences.Order
import DcsDashboard.Preferences.NavPrefs
import DcsDashboard.Preferences.ColumnPrefs
import DcsDashboard.Preferences.HideColumn
import DcsDashboard.Lib.Moving
import DcsDashboard.Preferences.Reordering
import DcsDashboard.Preferences.Reloading
import DcsDashboard.Lib.StableSort
import DcsDashboard.Preferences.SortRows
import DcsDashboard.Srs.ServerCfg
import DcsDashboard.Srs.ServerCfgRows
import DcsDashboard.Srs.ServerCfgSaves
import DcsDashboard.Srs.ServerCfgEcho
import DcsDashboard.Lib.WorkStack
import DcsDashboard.Lib.FileTree
import DcsDashboard.Lib.PathComponents
import DcsDashboard.Lib.StdPath
import DcsDashboard.Lib.Traces
import DcsDashboard.Downloads.ResolveUnder
import DcsDashboard.Downloads.TreeListing
import DcsDashboard.Downloads.Browse
import DcsDashboard.Downloads.Uploads
import DcsDashboard.Auth.Sessions
import DcsDashboard.Auth.BrowserSession
import DcsDashboard.Lib.PowerShellText
import DcsDashboard.Process.TaskControl
import DcsDashboard.Lib.Broadcast
import DcsDashboard.Telemetry.FanOut
import DcsDashboard.Airboss.RadarFeed
import DcsDashboard.Carrier.Listing
import DcsDashboard.Airboss.ListedCarriers
import DcsDashboard.Lib.Folders
import DcsDashboard.Downloads.MissionFolders
import DcsDashboard.Lib.FileWriting
import DcsDashboard.Lib.SpelledStore
import DcsDashboard.Downloads.UploadStore
