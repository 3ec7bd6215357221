import KuberneTSN.Lib.Run
import KuberneTSN.Lib.CInt
import KuberneTSN.Lib.Heap
import KuberneTSN.Lib.Counter
import KuberneTSN.Lib.Window
import KuberneTSN.Lib.Fifo
import KuberneTSN.Lib.Tiles
import KuberneTSN.Lib.SlotLog
import KuberneTSN.Lib.Blocks
import KuberneTSN.Lib.Span
import KuberneTSN.Lib.Keyed
import KuberneTSN.Lib.Wire
import KuberneTSN.Lib.Service
import KuberneTSN.Queue.Basic
import KuberneTSN.Queue.Sift
import KuberneTSN.Queue.Ops
import KuberneTSN.Queue.Conservation
import KuberneTSN.Queue.Order
import KuberneTSN.Queue.Keys
import KuberneTSN.Ring.Basic
import KuberneTSN.Ring.Copy
import KuberneTSN.Ring.Burst
import KuberneTSN.Ring.Fifo
import KuberneTSN.Ring.Contents
import KuberneTSN.Ring.Threads
import KuberneTSN.Ring.Reservation
import KuberneTSN.Ring.Delivery
import KuberneTSN.Ring.Linearization
import KuberneTSN.Ring.Progress
import KuberneTSN.Ring.Counts
import KuberneTSN.Ring.Memory
import KuberneTSN.Ring.AnySize
import KuberneTSN.Ring.Occupancy
import KuberneTSN.Alloc.Basic
import KuberneTSN.Alloc.Loops
import KuberneTSN.Alloc.Holding
import KuberneTSN.Alloc.Live
import KuberneTSN.Alloc.Layout
import KuberneTSN.Alloc.FirstFit
import KuberneTSN.Sched.Basic
import KuberneTSN.Sched.Effect
import KuberneTSN.Sched.Tokens
import KuberneTSN.Sched.Cycle
import KuberneTSN.Sched.Pool
import KuberneTSN.Sched.Ownership
import KuberneTSN.Sched.Dpdk
import KuberneTSN.Sched.Frame
import KuberneTSN.Sched.Disclosure
import KuberneTSN.Sched.Isolation
import KuberneTSN.Sched.Decision
import KuberneTSN.Sched.Intact
import KuberneTSN.Sched.Refinement
import KuberneTSN.Sched.Delivery
import KuberneTSN.Sched.Progress
import KuberneTSN.Sched.Segment
import KuberneTSN.Sched.Access
import KuberneTSN.Sched.Socket
import KuberneTSN.Memory.Basic
import KuberneTSN.Memory.Effect
import KuberneTSN.Memory.Sound
import KuberneTSN.Memory.Lifecycle
import KuberneTSN.Preload.Sockets
import KuberneTSN.Preload.Sendmsg
import KuberneTSN.Preload.Gather
import KuberneTSN.Preload.Applications
import KuberneTSN.Preload.Interfaces
