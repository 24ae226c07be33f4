import ZeroOS.Boot.Bootsect
import ZeroOS.Boot.Build
import ZeroOS.Boot.Image
import ZeroOS.Lib.CStrings
import ZeroOS.Lib.Calls
import ZeroOS.Lib.Decimal
import ZeroOS.Lib.Desks
import ZeroOS.Lib.Fifo
import ZeroOS.Lib.Paging
import ZeroOS.Lib.Programs
import ZeroOS.Lib.Rings
import ZeroOS.Lib.Runs
import ZeroOS.Lib.Segments
import ZeroOS.Lib.Simulation
import ZeroOS.Lib.Spaces
import ZeroOS.Lib.Threads
import ZeroOS.Lib.X86
import ZeroOS.Sockets.Conversation
import ZeroOS.Sockets.Drift
import ZeroOS.Sockets.Launcher
import ZeroOS.Sockets.Rounds
import ZeroOS.Sockets.Schemes
import ZeroOS.Sockets.Server
import ZeroOS.Sockets.Service
import ZeroOS.Sockets.Times
import ZeroOS.Zeos.AccessOk
import ZeroOS.Zeos.AddressSpaces
import ZeroOS.Zeos.Allocator
import ZeroOS.Zeos.Boot
import ZeroOS.Zeos.Console
import ZeroOS.Zeos.Copy
import ZeroOS.Zeos.CopyLoops
import ZeroOS.Zeos.Dispatches
import ZeroOS.Zeos.Effects
import ZeroOS.Zeos.Fork
import ZeroOS.Zeos.ForkCount
import ZeroOS.Zeos.ForkErrors
import ZeroOS.Zeos.Frames
import ZeroOS.Zeos.Gates
import ZeroOS.Zeos.GetStats
import ZeroOS.Zeos.Idle
import ZeroOS.Zeos.Invariant
import ZeroOS.Zeos.Kernel
import ZeroOS.Zeos.Libc
import ZeroOS.Zeos.List
import ZeroOS.Zeos.Machine
import ZeroOS.Zeos.Memory
import ZeroOS.Zeos.Mm
import ZeroOS.Zeos.PageOps
import ZeroOS.Zeos.PageWords
import ZeroOS.Zeos.Pcbs
import ZeroOS.Zeos.Pids
import ZeroOS.Zeos.Queues
import ZeroOS.Zeos.Refinement
import ZeroOS.Zeos.Reports
import ZeroOS.Zeos.RoundRobin
import ZeroOS.Zeos.Sched
import ZeroOS.Zeos.Scheduling
import ZeroOS.Zeos.Space
import ZeroOS.Zeos.Stacks
import ZeroOS.Zeos.Steps
import ZeroOS.Zeos.Sys
import ZeroOS.Zeos.TaskStates
import ZeroOS.Zeos.Ticks
import ZeroOS.Zeos.Tlb
import ZeroOS.Zeos.Traps
import ZeroOS.Zeos.Tsc
import ZeroOS.Zeos.Turns
import ZeroOS.Zeos.Types
import ZeroOS.Zeos.UserPointers
import ZeroOS.Zeos.Users
import ZeroOS.Zeos.Utils
import ZeroOS.Zeos.Waiting
import ZeroOS.Zeos.Workloads
import ZeroOS.Zeos.Wrappers
import ZeroOS.Zeos.Writes
