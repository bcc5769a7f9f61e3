import ServerPools.Support.Machine
import ServerPools.Support.Inevitable
import ServerPools.Support.Simulation
import ServerPools.Support.Agents
import ServerPools.Support.Fuel
import ServerPools.Support.Bytes
import ServerPools.Support.Malloc
import ServerPools.Support.Records
import ServerPools.Support.Linked
import ServerPools.Support.FirstFit
import ServerPools.Support.Strings
import ServerPools.Support.Stdio
import ServerPools.Connections.ConnectionPool
import ServerPools.Connections.Outcomes
import ServerPools.Connections.Ownership
import ServerPools.Connections.BorrowerWakeups
import ServerPools.Connections.ProducerWakeups
import ServerPools.Connections.Scanner
import ServerPools.Connections.Connected
import ServerPools.Connections.IdleTime
import ServerPools.Connections.IdleOrder
import ServerPools.Connections.Patience
import ServerPools.Connections.ConfigFile
import ServerPools.Connections.ConfigReading
import ServerPools.Threads.ThreadPool
import ServerPools.Threads.Outcomes
import ServerPools.Threads.TaskResult
import ServerPools.Threads.Semaphore
import ServerPools.Threads.TaskFuture
import ServerPools.Threads.Queue
import ServerPools.Threads.Submissions
import ServerPools.Threads.Roster
import ServerPools.Threads.Sleepers
import ServerPools.Threads.ExitNotice
import ServerPools.Threads.IdleReturn
import ServerPools.Threads.Wakeups
import ServerPools.Threads.Counters
import ServerPools.Threads.Drain
import ServerPools.Threads.Accounting
import ServerPools.Threads.CachedGrowth
import ServerPools.Threads.Stranding
import ServerPools.Threads.Process
import ServerPools.Threads.ResultView
import ServerPools.Threads.Handshake
import ServerPools.Threads.Delivery
import ServerPools.Threads.ResultSemaphore
import ServerPools.Threads.Lifetimes
import ServerPools.Threads.Effort
import ServerPools.Threads.Orderly
import ServerPools.Threads.Service
import ServerPools.Threads.Answers
import ServerPools.Threads.Program
import ServerPools.Threads.ProgramEnd
import ServerPools.Threads.FutureMain
import ServerPools.Threads.ResultGets
import ServerPools.Threads.ResultMain
import ServerPools.Threads.ResultEnd
import ServerPools.Threads.FirstPool
import ServerPools.Threads.FirstSimulation
import ServerPools.Threads.FirstResults
import ServerPools.Threads.FirstProgram
import ServerPools.Threads.FirstMain
import ServerPools.Memory.MemPool
import ServerPools.Memory.Layout
import ServerPools.Memory.Blocks
import ServerPools.Memory.Growth
import ServerPools.Memory.LargeList
import ServerPools.Memory.Requests
import ServerPools.Memory.Recycling
import ServerPools.Memory.Teardown
import ServerPools.Memory.Creation
import ServerPools.Memory.Notes
import ServerPools.Memory.Lifecycle
import ServerPools.Memory.Runs
import ServerPools.Memory.Separation
import ServerPools.Memory.CleanupList
import ServerPools.Memory.Cleanups
import ServerPools.Memory.Ledger
import ServerPools.Memory.Contents
import ServerPools.Memory.BlockBounds
import ServerPools.Memory.Refusals
import ServerPools.Memory.Staircase
import ServerPools.Memory.Skipping
import ServerPools.Memory.Search
import ServerPools.Memory.Repacking
import ServerPools.Memory.Reuse
import ServerPools.Memory.Demand
