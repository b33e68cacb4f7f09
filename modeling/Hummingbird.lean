import Hummingbird.Common
import Hummingbird.Foundation.Strided
import Hummingbird.Tensor.Dtype
import Hummingbird.Tensor.Shape
import Hummingbird.Tensor.Layout
import Hummingbird.Tensor.Tensor
import Hummingbird.Tensor.View
import Hummingbird.Tensor.ViewAddress
import Hummingbird.Tensor.ViewBounds
import Hummingbird.Graph.Builder
import Hummingbird.Graph.Build
import Hummingbird.Graph.Invariant
import Hummingbird.Foundation.Ring
import Hummingbird.Foundation.Levels
import Hummingbird.Foundation.Table
import Hummingbird.Scheduler.Plan
import Hummingbird.Scheduler.Edges
import Hummingbird.Scheduler.Kahn
import Hummingbird.Foundation.FirstFit
import Hummingbird.Planner.Plan
import Hummingbird.Planner.Liveness
import Hummingbird.Planner.Placement
import Hummingbird.Planner.Sound
import Hummingbird.Foundation.BufferReuse
import Hummingbird.Executor.Context
import Hummingbird.Executor.Refine
import Hummingbird.Scheduler.Levelling
import Hummingbird.Runtime.Executor
import Hummingbird.Foundation.Runs
import Hummingbird.Tensor.Memory
import Hummingbird.Tensor.Copy
import Hummingbird.Kv.Context
import Hummingbird.Kv.Steps
import Hummingbird.Kv.Accounting
import Hummingbird.Kv.Storage
import Hummingbird.Kv.Rows
import Hummingbird.Kv.Contents
import Hummingbird.Kv.Survival
import Hummingbird.Adapter.Descriptor
import Hummingbird.Adapter.Compute
import Hummingbird.Adapter.Context
import Hummingbird.Adapter.Forward
import Hummingbird.Adapter.CacheRun
import Hummingbird.Adapter.AttentionLog
import Hummingbird.Adapter.Isolation
import Hummingbird.Graph.Sound
import Hummingbird.Foundation.Rounding
import Hummingbird.Json.Value
import Hummingbird.Json.Parser
import Hummingbird.Json.Grammar
import Hummingbird.Json.Tokens
import Hummingbird.Json.Sound
import Hummingbird.Json.Complete
import Hummingbird.Foundation.Probing
import Hummingbird.Tokenizer.Vocabulary
import Hummingbird.Tokenizer.Refine
import Hummingbird.ThreadPool.Pool
import Hummingbird.ThreadPool.Invariant
import Hummingbird.ThreadPool.Sound
import Hummingbird.Kernel.Registry
import Hummingbird.Kernel.Dispatch
import Hummingbird.Graph.Inferred
import Hummingbird.Kernel.Reference
import Hummingbird.Kernel.Accept
import Hummingbird.Foundation.Calls
import Hummingbird.Foundation.Ownership
import Hummingbird.Runtime.Session
import Hummingbird.Runtime.Pipeline
import Hummingbird.Runtime.Generate
import Hummingbird.Runtime.Untouched
import Hummingbird.Runtime.Ready
import Hummingbird.Runtime.Cache
import Hummingbird.Runtime.Ledger
import Hummingbird.Runtime.Leaks
import Hummingbird.Runtime.Capacity
import Hummingbird.Foundation.Alignment
import Hummingbird.Memory.System
import Hummingbird.Memory.Layout
import Hummingbird.Stream.Engine
import Hummingbird.Stream.System
import Hummingbird.Stream.Lru
import Hummingbird.Stream.Cache
import Hummingbird.Stream.Run
import Hummingbird.Stream.Jobs
import Hummingbird.Stream.Accounting
import Hummingbird.Stream.Budget
import Hummingbird.Stream.Residency
import Hummingbird.Stream.Buffers
import Hummingbird.Stream.Pinned
import Hummingbird.Foundation.Locking
import Hummingbird.Stream.Locks
import Hummingbird.Runtime.Streaming
import Hummingbird.Foundation.Intervals
import Hummingbird.Foundation.Linked
import Hummingbird.Memory.Context
import Hummingbird.Memory.Ledger
import Hummingbird.Memory.LeakList
import Hummingbird.Memory.Arena
import Hummingbird.Memory.Blocks
import Hummingbird.Json.Dom
import Hummingbird.Json.Blocks
import Hummingbird.Json.Agreement
import Hummingbird.Json.Print
import Hummingbird.Json.Access
import Hummingbird.Model.Manifest
import Hummingbird.Model.Safetensors
import Hummingbird.Model.Region
import Hummingbird.Model.RoundTrip
import Hummingbird.Adapter.Register
import Hummingbird.Adapter.Binding
import Hummingbird.Adapter.Attended
import Hummingbird.Adapter.Page
import Hummingbird.Adapter.Coverage
import Hummingbird.Adapter.Names
import Hummingbird.Adapter.BuildGraph
import Hummingbird.Foundation.TwoRuns
import Hummingbird.Adapter.Stale
import Hummingbird.Foundation.SwapRemove
import Hummingbird.Kv.Table
import Hummingbird.Kv.Statistics
import Hummingbird.Kv.Interleaved
import Hummingbird.Adapter.Lifecycle
import Hummingbird.Tokenizer.Utf8
import Hummingbird.Tokenizer.Special
import Hummingbird.Model.Load
import Hummingbird.Model.Strict
import Hummingbird.Kernel.Order
import Hummingbird.Config.Store
import Hummingbird.Config.Bounds
import Hummingbird.Config.Precedence
import Hummingbird.Core.Parts
import Hummingbird.Core.Create
import Hummingbird.Runtime.DecodeLoop
import Hummingbird.Runtime.Counting
import Hummingbird.Tensor.Valid
import Hummingbird.Runtime.Sampler
import Hummingbird.Runtime.Sampled
import Hummingbird.Planner.Bounds
import Hummingbird.Tensor.Ranges
import Hummingbird.Foundation.Moves
import Hummingbird.Tensor.Copied
import Hummingbird.Foundation.FlatJoin
import Hummingbird.Tensor.Broadcast
import Hummingbird.Tensor.UnitAxes
import Hummingbird.Foundation.Grouped
import Hummingbird.Tensor.Quant
import Hummingbird.Tensor.QuantViews
import Hummingbird.Foundation.Accesses
import Hummingbird.Kernel.Bodies
import Hummingbird.Kernel.Transposed
import Hummingbird.Kernel.Copying
import Hummingbird.Kernel.Products
import Hummingbird.Kernel.Rotary
import Hummingbird.Kernel.Inside
import Hummingbird.Quant.Dequantize
import Hummingbird.Json.Strings
import Hummingbird.Json.Numbers
import Hummingbird.Json.Integers
import Hummingbird.Json.Contents
import Hummingbird.Foundation.Doubling
import Hummingbird.Tokenizer.Sequence
import Hummingbird.Memory.Realloc
import Hummingbird.Adapter.Numerals
import Hummingbird.Config.Numbers
import Hummingbird.Foundation.CStrings
import Hummingbird.Config.Lines
import Hummingbird.Adapter.Metadata
import Hummingbird.Json.Verbatim
import Hummingbird.Logging.Escape
import Hummingbird.Logging.JsonSink
import Hummingbird.Tokenizer.Sizing
import Hummingbird.Profiler.Totals
import Hummingbird.Executor.Meaning
import Hummingbird.Foundation.Filling
import Hummingbird.Foundation.Softmax
import Hummingbird.Foundation.Sweeps
import Hummingbird.Foundation.Decoding
import Hummingbird.Adapter.Averages
import Hummingbird.Kernel.Exact
import Hummingbird.Core.Lifecycle
import Hummingbird.Model.Handlers
import Hummingbird.Adapter.Resolve
import Hummingbird.Backend.Manager
