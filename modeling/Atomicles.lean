import Atomicles.Interaction.Program
import Atomicles.Interaction.Machine
import Atomicles.Interaction.Pool
import Atomicles.Interaction.History
import Atomicles.Interaction.Crew
import Atomicles.Interaction.Completion
import Atomicles.Kernel.Calls
import Atomicles.Kernel.Store
import Atomicles.Kernel.Serve
import Atomicles.Kernel.Frame
import Atomicles.Kernel.Mutex
import Atomicles.Kernel.Memory
import Atomicles.Kernel.Names
import Atomicles.Kernel.Idle
import Atomicles.Source.Libc
import Atomicles.Source.Semaphore
import Atomicles.Source.SharedMemory
import Atomicles.Source.Lock
import Atomicles.Source.Daemonize
import Atomicles.Source.Equations
import Atomicles.LockModes
import Atomicles.Lock.Channel
import Atomicles.Lock.Creation
import Atomicles.Lock.Client
import Atomicles.Lock.Counting
import Atomicles.Lock.Rollback
import Atomicles.Lock.Registry
import Atomicles.Lock.Operations
import Atomicles.Lock.Deletion
import Atomicles.Lock.Reuse
import Atomicles.Lock.Sessions
import Atomicles.Lock.Publication
import Atomicles.Lock.Clearing
import Atomicles.Lock.Election
import Atomicles.SegmentMutex.Protocol
import Atomicles.SegmentMutex.Exclusion
import Atomicles.SegmentMutex.Order
import Atomicles.SegmentMutex.Completion
import Atomicles.Emulator.Bits
import Atomicles.Emulator.Macros
import Atomicles.Emulator.Registers
import Atomicles.Emulator.Ia32emu
import Atomicles.Emulator.Arithmetic
import Atomicles.Daemon.Attempts
import Atomicles.Daemon.World
import Atomicles.Daemon.Calls
import Atomicles.Daemon.Runs
import Atomicles.Daemon.Control
import Atomicles.Daemon.Grip
import Atomicles.Daemon.Targets
import Atomicles.Daemon.Relay
import Atomicles.Daemon.Children
import Atomicles.Daemon.Supervisors
import Atomicles.Daemon.Removal
import Atomicles.Emulator.Branches
import Atomicles.Emulator.ShiftLoop
import Atomicles.Emulator.Names
import Atomicles.Emulator.Course
import Atomicles.Emulator.Incomplete
import Atomicles.Emulator.Values
import Atomicles.Emulator.Parts
import Atomicles.Emulator.Printing
import Atomicles.Emulator.Program
import Atomicles.Daemon.Backoff
import Atomicles.Daemon.Waiting
import Atomicles.Daemon.StatusLine
import Atomicles.Daemon.CommandLine
import Atomicles.Source.Script
import Atomicles.Daemon.Script
import Atomicles.Lock.CommandLine
import Atomicles.Lock.Typed
import Atomicles.Lock.Users
import Atomicles.Lock.Completion
import Atomicles.Lock.Deadline
import Atomicles.Lock.Expiry
import Atomicles.SegmentText
import Atomicles.SegmentHandles
import Atomicles.Channels
import Atomicles.Syschk.Throughput
import Atomicles.Syschk.Forks
import Atomicles.Syschk.Probes
import Atomicles.Syschk.FileLines
import Atomicles.Syschk.Report
import Atomicles.CommandLine.Scan
import Atomicles.Source.Limits
import Atomicles.Syschk.Limits
import Atomicles.Daemon.Overview
