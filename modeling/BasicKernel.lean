import BasicKernel.Memory.Runs
import BasicKernel.Kernel.Boot
import BasicKernel.Lib.Fuel
import BasicKernel.Locks.Semaphore
import BasicKernel.Locks.Mutex
import BasicKernel.Locks.Registry
import BasicKernel.Locks.Unknown
import BasicKernel.Locks.WaitLists
import BasicKernel.Scheduling.Dead
import BasicKernel.Scheduling.RoundRobin
import BasicKernel.Scheduling.Contexts
import BasicKernel.Scheduling.Stacks
import BasicKernel.View.Script
import BasicKernel.Lib.RingBuffer
import BasicKernel.Pipes.Fifo
import BasicKernel.Network.Wire
import BasicKernel.Network.Messages
import BasicKernel.Network.Bounds
import BasicKernel.Screen.SystemCalls
import BasicKernel.Screen.Typing
import BasicKernel.Screen.LetterCase
import BasicKernel.Screen.Cursor
import BasicKernel.Screen.ScreenList
import BasicKernel.Screen.Switching
import BasicKernel.Screen.Focus
import BasicKernel.Screen.Layout
import BasicKernel.Screen.Restoring
import BasicKernel.Screen.Listing
import BasicKernel.Screen.FailedLoad
import BasicKernel.Screen.Lookups
import BasicKernel.Memory.Requests
import BasicKernel.Memory.UserHeap
import BasicKernel.Memory.Exhaustion
import BasicKernel.Memory.Optimal
import BasicKernel.Memory.Regions
import BasicKernel.Memory.BitCalls
import BasicKernel.Memory.Ceiling
import BasicKernel.Memory.ProcessPages
import BasicKernel.Scheduling.Accounting
import BasicKernel.Scheduling.ProcessRing
import BasicKernel.Scheduling.Agreement
import BasicKernel.Loader.Image
import BasicKernel.Scheduling.Registers
import BasicKernel.View.Objects
import BasicKernel.Userland.TestPipes
import BasicKernel.Scheduling.Scans
import BasicKernel.Scheduling.Running
import BasicKernel.Scheduling.Reaping
import BasicKernel.Scheduling.Waking
import BasicKernel.Scheduling.Fresh
import BasicKernel.Scheduling.RingLookup
import BasicKernel.Pipes.Terminator
import BasicKernel.Pipes.Names
import BasicKernel.Pipes.PipeList
import BasicKernel.Pipes.EmptyRead
import BasicKernel.Pipes.Itoa
import BasicKernel.Userland.ProdCons
import BasicKernel.Userland.Philosophers
import BasicKernel.Userland.LineEditor
import BasicKernel.Userland.Padding
import BasicKernel.Userland.Scanf
import BasicKernel.System.Integrity
