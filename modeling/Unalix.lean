import Unalix.Uri.Confinement
import Unalix.Uri.Reassembly
import Unalix.Uri.RoundTrip
import Unalix.Uri.Acceptance
import Unalix.Uri.HostPort
import Unalix.Uri.Returns
import Unalix.Http.Request
import Unalix.Http.Response
import Unalix.Http.Rendering
import Unalix.Http.NormPath
import Unalix.Http.Redirect
import Unalix.Http.Origin
import Unalix.Http.Connections
import Unalix.Http.Bookkeeping
import Unalix.Foundations.Buffers
import Unalix.Foundations.Walk
import Unalix.Ruleset.Load
import Unalix.Ruleset.Store
import Unalix.Ruleset.Extension
import Unalix.Foundations.Calls
import Unalix.Http.Exchange
import Unalix.Files
import Unalix.Ruleset.Update
import Unalix.Ruleset.Download
import Unalix.Ruleset.Installed
import Unalix.Ruleset.Restored
import Unalix.Foundations.Chains
import Unalix.Query
import Unalix.Parameters
import Unalix.CleanUrl.Regex
import Unalix.CleanUrl.Clean
import Unalix.CleanUrl.Unquote
import Unalix.CleanUrl.Redirections
import Unalix.CleanUrl.Independence
import Unalix.CleanUrl.Frame
import Unalix.CleanUrl.KeyPattern
import Unalix.CleanUrl.Rebuild
import Unalix.CleanUrl.LiteralRule
import Unalix.CleanUrl.Ending
import Unalix.Unshort
import Unalix.Ruleset.CheckUpdate
import Unalix.Descriptors
import Unalix.Http.RequestBuffers
import Unalix.CleanUrl.Strip
import Unalix.Http.EndOfHead
import Unalix.Http.DotSegments
import Unalix.Http.NormalPaths
import Unalix.Http.Merge
import Unalix.Uri.Allocation
import Unalix.CleanUrl.RebuildBuffers
import Unalix.Http.PathBuffer
import Unalix.CleanUrl.RedirectArray
import Unalix.Http.HeaderNames
import Unalix.Foundations.Hex
import Unalix.Ruleset.HashCheck
import Unalix.Foundations.BrokenDownTime
import Unalix.Foundations.DateFormat
import Unalix.Foundations.Scan
import Unalix.Ruleset.Dates
import Unalix.Foundations.Heap
import Unalix.Foundations.Simulation
import Unalix.Ruleset.Memory
import Unalix.CleanUrl.KeyRules
import Unalix.Ruleset.Placed
import Unalix.Ruleset.Represented
import Unalix.Ruleset.Sessions
import Unalix.Ruleset.Freshness
import Unalix.Ruleset.Maintained
import Unalix.OnHeap.ParseUri
import Unalix.OnHeap.Clean
import Unalix.OnHeap.Contexts
import Unalix.OnHeap.Exchange
import Unalix.OnHeap.Unshort
