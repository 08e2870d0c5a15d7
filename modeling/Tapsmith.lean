import Tapsmith.Http.RequestFraming
import Tapsmith.Http.ResponseFraming
import Tapsmith.Http.DecodeChunked
import Tapsmith.Http.Dechunk
import Tapsmith.Route.Glob
import Tapsmith.Route.Reconnect
import Tapsmith.Route.Removed
import Tapsmith.Live.Viewers
import Tapsmith.Live.Preparations
import Tapsmith.Mcp.Sessions
import Tapsmith.Mcp.LocatorCalls
import Tapsmith.Mcp.ResponseLimits
import Tapsmith.RunAll.Filtered
import Tapsmith.RunAll.Accounted
import Tapsmith.RunAll.Dispatched
import Tapsmith.RunAll.Parallel
import Tapsmith.Fixture.Calls
import Tapsmith.Fixture.Coroutine
import Tapsmith.Fixture.SetupRun
import Tapsmith.Fixture.Teardown
import Tapsmith.Grpc.Frames
import Tapsmith.Grpc.Protobuf
import Tapsmith.Tls.HostGlob
import Tapsmith.Tls.Rejects
import Tapsmith.Trace.Timeline
import Tapsmith.Route.Continue
import Tapsmith.Route.Fulfill
import Tapsmith.Route.Fetch
import Tapsmith.Lib.Loop
import Tapsmith.Lib.Machine
import Tapsmith.Capture.Drain
import Tapsmith.Capture.Snapshots
import Tapsmith.Capture.Limit
import Tapsmith.Device.Exclusive
import Tapsmith.Reset.Truth
import Tapsmith.Reset.Policy
import Tapsmith.Reset.Acknowledge
import Tapsmith.Reset.Link
import Tapsmith.Watch.RunQueue
import Tapsmith.Dispatch.Gating
import Tapsmith.Dispatch.Barrier
import Tapsmith.Trace.Allowlist
import Tapsmith.Trace.Amendments
import Tapsmith.Project.Shard
import Tapsmith.Project.Workers
import Tapsmith.Fixture.Setup
import Tapsmith.Report.RoundTrip
import Tapsmith.Report.AllOrNothing
import Tapsmith.Runner.Reported
import Tapsmith.Runner.Rounds
import Tapsmith.Runner.Paired
import Tapsmith.Runner.Serial
import Tapsmith.Runner.Registered
import Tapsmith.Runner.Planned
import Tapsmith.Webview.CssSelector
import Tapsmith.Http.ChunkedGrammar
import Tapsmith.Bounded.Excluded
import Tapsmith.Lib.Words
import Tapsmith.Lib.Within
import Tapsmith.Lib.Utf16
import Tapsmith.Lib.Regex.Quoted
import Tapsmith.Lib.Regex.Icu
import Tapsmith.Lib.Regex.IcuSet
import Tapsmith.Lib.Regex.JsClass
import Tapsmith.TextRegex.ParseClass
import Tapsmith.Agent.TextMatch
import Tapsmith.Agent.Gesture
import Tapsmith.Agent.Pointers
import Tapsmith.Agent.TouchStream
import Tapsmith.Agent.Planned
import Tapsmith.Agent.Occlusion
import Tapsmith.Ios.Occlusion
import Tapsmith.Ios.CellFrames
import Tapsmith.Ios.KeyboardDismiss
import Tapsmith.Ios.TextMatch
import Tapsmith.Command.KeepsTarget
import Tapsmith.Command.Answers
